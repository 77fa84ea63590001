import Interleave.Proofs.Kernel.Mirror

/-!
The operations on two states that a snapshot does not tell apart. If an operation succeeds on one state
then it succeeds on the other one, with the same answer. One that registers a class or makes a name does
so provided that the second state knows already of what the first one comes to know.
-/

namespace Interleave

namespace Registry

variable {r r' : Registry} {c : ClassDescriptor}

theorem register_of_prefix (h : (r.register c).2.classes.toList <+: r'.classes.toList) :
    r'.register c = ((r.register c).1, r') :=
  register_of_lookup? (findIdx?_mono h (r.lookup?_register c))

end Registry

namespace IdPool

variable {p p' : IdPool} {key : IdKey}

theorem intern_of_findIdx? {i : GlobalId} (h : p.keys.findIdx? (· == key) = some i) :
    p.intern key = (i, p) := by
  unfold intern
  rw [h]

theorem findIdx?_intern (p : IdPool) (key : IdKey) :
    (p.intern key).2.keys.findIdx? (· == key) = some (p.intern key).1 := by
  cases h : p.keys.findIdx? (· == key) with
  | some i => rw [intern_of_findIdx? h, h]
  | none =>
    unfold intern
    rw [h]
    rw [Array.findIdx?_push, h]
    simp [size]

theorem intern_of_prefix (h : (p.intern key).2.keys.toList <+: p'.keys.toList) :
    p'.intern key = ((p.intern key).1, p') :=
  intern_of_findIdx? (findIdx?_mono h (p.findIdx?_intern key))

end IdPool

namespace Tally

variable {t t' : Tally} {p p' : IdPool}

theorem counts_bump (h : t'.counts = t.counts) (o : Origin) :
    (t'.bump o).counts = (t.bump o).counts := by
  unfold bump count
  rw [h]

theorem next_of_prefix (h : t'.counts = t.counts) {o : Origin}
    (hp : (t.next p o).2.1.keys.toList <+: p'.keys.toList) :
    t'.next p' o = ((t.next p o).1, p', t'.bump o) := by
  have hcount : (t'.bump o).count o = (t.bump o).count o := by
    unfold count
    rw [counts_bump h]
  unfold next at hp ⊢
  dsimp only at hp ⊢
  rw [hcount, IdPool.intern_of_prefix hp]

end Tally

namespace Kernel

structure Echoes {α : Type} (p q : α × Kernel) : Prop where
  answer : q.1 = p.1
  state : p.2.Mirrors q.2

theorem precedes_createThread {k k' : Kernel} {name : String} {creator : Option ThreadId}
    {site : Option Site} {t : ThreadId} (h : k.createThread name creator site = .ok (t, k')) :
    ∃ gid k₁, k.newGlobalId creator site = .ok (gid, k₁) ∧
      (k₁.register .threadClass).2.Precedes k' := by
  obtain ⟨h₁, -, rfl, -, -, -, hwritten, -⟩ := spawns_createThread h
  refine ⟨_, _, h₁, ?_⟩
  obtain rfl | ⟨slot, h₃⟩ := hwritten
  · exact ⟨List.prefix_rfl, List.prefix_rfl⟩
  · obtain ⟨_, _, _, _, rfl⟩ := updateElement_eq_ok.mp h₃
    exact ⟨List.prefix_rfl, List.prefix_rfl⟩

namespace Mirrors

variable {k k' : Kernel} (h : k.Mirrors k')

include h

theorem isOwner (t : ThreadId) (o : Ref) : k'.isOwner t o = k.isOwner t o := by
  unfold Kernel.isOwner
  rw [h.heap.deref]

theorem setState (t : ThreadId) (state : ThreadState) :
    Follows Mirrors (k.setState t state) (k'.setState t state) :=
  h.updateThread t _

theorem wakeRequesters (o : Ref) : Follows Mirrors (k.wakeRequesters o) (k'.wakeRequesters o) := by
  unfold Kernel.wakeRequesters
  rw [h.heap.deref]
  apply Follows.after
  intro e
  exact Follows.foldlM (fun t k k' h => h.updateThread t _) h

theorem lock (t : ThreadId) (o : Ref) : Follows Echoes (k.lock t o) (k'.lock t o) := by
  unfold Kernel.lock
  rw [h.heap.deref, h.getThread]
  apply Follows.after
  intro e
  split
  · apply Follows.after
    intro info
    apply (h.updateThread t _).bind
    intro k₁ k₁' h₁
    apply (h₁.updateMonitor o _).bind
    intro k₂ k₂' h₂
    exact .pure ⟨rfl, h₂.tell _ _⟩
  · apply (h.updateMonitor o _).bind
    intro k₁ k₁' h₁
    apply (h₁.updateThread t _).bind
    intro k₂ k₂' h₂
    exact .pure ⟨rfl, h₂.tell _ _⟩

theorem unlock (t : ThreadId) (o : Ref) : Follows Echoes (k.unlock t o) (k'.unlock t o) := by
  unfold Kernel.unlock
  rw [h.isOwner, h.heap.deref]
  apply Follows.after
  intro owns
  split
  · exact .pure ⟨rfl, h⟩
  · apply Follows.after
    intro e
    apply (h.updateMonitor o _).bind
    intro k₁ k₁' h₁
    split
    · apply (h₁.updateThread t _).bind
      intro k₂ k₂' h₂
      apply (h₂.wakeRequesters o).bind
      intro k₃ k₃' h₃
      exact .pure ⟨rfl, h₃.tell _ _⟩
    · exact .pure ⟨rfl, h₁.tell _ _⟩

theorem enterWait (t : ThreadId) (o : Ref) (state : ThreadState) :
    Follows Echoes (k.enterWait t o state) (k'.enterWait t o state) := by
  unfold Kernel.enterWait
  rw [h.isOwner, h.heap.deref]
  apply Follows.after
  intro owns
  split
  · exact .pure ⟨rfl, h⟩
  · apply Follows.after
    intro e
    apply (h.updateMonitor o _).bind
    intro k₁ k₁' h₁
    apply (h₁.updateThread t _).bind
    intro k₂ k₂' h₂
    apply (h₂.wakeRequesters o).bind
    intro k₃ k₃' h₃
    exact .pure ⟨rfl, (h₃.tell _ _).tell _ _⟩

theorem timeOut (t : ThreadId) : Follows Echoes (k.timeOut t) (k'.timeOut t) := by
  unfold Kernel.timeOut
  rw [h.getThread]
  apply Follows.after
  intro info
  split
  · exact .pure ⟨rfl, h⟩
  · split
    · apply (h.updateMonitor _ _).bind
      intro k₁ k₁' h₁
      apply (h₁.setState t _).bind
      intro k₂ k₂' h₂
      exact .pure ⟨rfl, h₂⟩
    · exact .pure ⟨rfl, h⟩

theorem notifyThread (t : ThreadId) (o : Ref) (waiter : ThreadId) :
    Follows Echoes (k.notifyThread t o waiter) (k'.notifyThread t o waiter) := by
  unfold Kernel.notifyThread
  rw [h.isOwner, h.heap.deref]
  apply Follows.after
  intro owns
  split
  · exact .pure ⟨rfl, h⟩
  · apply Follows.after
    intro e
    split
    · apply (h.updateMonitor o _).bind
      intro k₁ k₁' h₁
      apply (h₁.setState waiter _).bind
      intro k₂ k₂' h₂
      exact .pure ⟨rfl, h₂.tell _ _⟩
    · apply (h.updateMonitor o _).bind
      intro k₁ k₁' h₁
      exact .pure ⟨rfl, h₁⟩

theorem notify (t : ThreadId) (o : Ref) : Follows Echoes (k.notify t o) (k'.notify t o) := by
  unfold Kernel.notify
  rw [h.isOwner, h.heap.deref]
  apply Follows.after
  intro owns
  split
  · exact .pure ⟨rfl, h⟩
  · apply Follows.after
    intro e
    split
    · exact .pure ⟨rfl, h⟩
    · next waiter _ _ =>
      apply (h.notifyThread t o waiter).bind
      rintro ⟨_, k₁⟩ ⟨r, k₁'⟩ ⟨rfl, h₁⟩
      cases r <;> exact .pure ⟨rfl, h₁⟩

theorem notifyAll (t : ThreadId) (o : Ref) : Follows Echoes (k.notifyAll t o) (k'.notifyAll t o) := by
  have heach : ∀ (l : List ThreadId) {k k' : Kernel}, k.Mirrors k' →
      Follows Echoes (k.notifyEach t o l) (k'.notifyEach t o l) := by
    intro l
    induction l with
    | nil =>
      intro k k' h
      exact .pure ⟨rfl, h⟩
    | cons waiter l ih =>
      intro k k' h
      unfold Kernel.notifyEach
      apply (h.notifyThread t o waiter).bind
      rintro ⟨_, k₁⟩ ⟨r, k₁'⟩ ⟨rfl, h₁⟩
      cases r with
      | error e => exact .pure ⟨rfl, h₁⟩
      | ok _ => exact ih h₁
  unfold Kernel.notifyAll
  rw [h.isOwner, h.heap.deref]
  apply Follows.after
  intro owns
  split
  · exact .pure ⟨rfl, h⟩
  · apply Follows.after
    intro e
    apply (heach _ h).bind
    rintro ⟨_, k₁⟩ ⟨r, k₁'⟩ ⟨rfl, h₁⟩
    cases r <;> exact .pure ⟨rfl, h₁⟩

theorem unpark (t : ThreadId) : Follows Echoes (k.unpark t) (k'.unpark t) := by
  unfold Kernel.unpark
  rw [h.getThread]
  apply Follows.after
  intro info
  apply (h.updateThread t _).bind
  intro k₁ k₁' h₁
  exact .pure ⟨rfl, h₁⟩

theorem interrupt (t : ThreadId) : Follows Mirrors (k.interrupt t) (k'.interrupt t) := by
  unfold Kernel.interrupt
  rw [h.getThread]
  apply Follows.after
  intro info
  split
  iterate 2
    · apply (h.updateThread t _).bind
      intro k₁ k₁' h₁
      split
      · exact .pure h₁
      · apply (h₁.updateMonitor _ _).bind
        intro k₂ k₂' h₂
        rw [h₂.heap.deref]
        apply Follows.after
        intro e
        exact h₂.setState t _
  all_goals exact h.updateThread t _

theorem startThread (t : ThreadId) (frame : Frame) :
    Follows Echoes (k.startThread t frame) (k'.startThread t frame) := by
  unfold Kernel.startThread
  rw [h.getThread]
  apply Follows.after
  intro info
  dsimp only
  split
  · apply (h.updateThread t _).bind
    intro k₁ k₁' h₁
    exact .pure ⟨rfl, (h₁.tell _ _).tell _ _⟩
  · exact .pure ⟨rfl, h⟩

theorem enterMethod (t : ThreadId) (frame : Frame) :
    Follows Echoes (k.enterMethod t frame) (k'.enterMethod t frame) := by
  unfold Kernel.enterMethod
  rw [h.getThread]
  apply Follows.after
  intro info
  split
  · apply (h.updateThread t _).bind
    intro k₁ k₁' h₁
    exact .pure ⟨rfl, h₁.tell _ _⟩
  · apply (h.updateThread t _).bind
    intro k₁ k₁' h₁
    exact .pure ⟨rfl, h₁⟩

theorem exitMethod (t : ThreadId) : Follows Echoes (k.exitMethod t) (k'.exitMethod t) := by
  unfold Kernel.exitMethod
  rw [h.getThread]
  apply Follows.after
  intro info
  apply (h.updateThread t _).bind
  intro k₁ k₁' h₁
  split
  · exact .pure ⟨rfl, h₁⟩
  · exact .pure ⟨rfl, h₁.tell _ _⟩

theorem instructionExecuted (t : ThreadId) :
    Follows Mirrors (k.instructionExecuted t) (k'.instructionExecuted t) := by
  unfold Kernel.instructionExecuted
  rw [h.getThread]
  apply Follows.after
  intro info
  split
  · exact .pure h
  · exact .pure (h.tell _ _)

theorem releaseHeld (t : ThreadId) (o : Ref) :
    Follows Mirrors (releaseHeld t k o) (releaseHeld t k' o) := by
  unfold Kernel.releaseHeld
  apply (h.updateMonitor o _).bind
  intro k₁ k₁' h₁
  apply (h₁.wakeRequesters o).bind
  intro k₂ k₂' h₂
  exact .pure (h₂.tell _ _)

theorem wakeJoiner (o : Ref) (joiner : ThreadId) :
    Follows Mirrors (wakeJoiner o k joiner) (wakeJoiner o k' joiner) := by
  unfold Kernel.wakeJoiner
  apply (h.updateMonitor o _).bind
  intro k₁ k₁' h₁
  apply (h₁.updateMonitor o _).bind
  intro k₂ k₂' h₂
  apply (h₂.setState joiner _).bind
  intro k₃ k₃' h₃
  exact .pure (h₃.tell _ _)

theorem terminateThread (t : ThreadId) :
    Follows Echoes (k.terminateThread t) (k'.terminateThread t) := by
  unfold Kernel.terminateThread
  rw [h.getThread]
  apply Follows.after
  intro info
  split
  · exact .pure ⟨rfl, h⟩
  · have hfreed : Follows Mirrors (info.lockedObjects.foldlM (Kernel.releaseHeld t) k)
        (info.lockedObjects.foldlM (Kernel.releaseHeld t) k') :=
      .foldlM (fun o _ _ h => h.releaseHeld t o) h
    apply hfreed.bind
    intro k₁ k₁' h₁
    apply (h₁.updateThread t _).bind
    intro k₂ k₂' h₂
    rw [h₂.heap.deref]
    apply Follows.after
    intro e
    have hjoined : Follows Mirrors (e.monitor.waiters.foldlM (Kernel.wakeJoiner info.object) k₂)
        (e.monitor.waiters.foldlM (Kernel.wakeJoiner info.object) k₂') :=
      .foldlM (fun joiner _ _ h => h.wakeJoiner info.object joiner) h₂
    apply hjoined.bind
    intro k₃ k₃' h₃
    rw [h₃.atomic]
    split
    · exact .pure ⟨rfl, (h₃.onAtomic {} _ _).tell _ _⟩
    · exact .pure ⟨rfl, h₃.tell _ _⟩

theorem endAtomic (t : ThreadId) : Echoes (k.endAtomic t) (k'.endAtomic t) := by
  unfold Kernel.endAtomic Kernel.isAtomicFor
  rw [h.atomic]
  split
  · exact ⟨rfl, h.onAtomic _ _ _⟩
  · exact ⟨rfl, h⟩

theorem beginAtomic (t : ThreadId) : (k.beginAtomic t).Mirrors (k'.beginAtomic t) := by
  unfold Kernel.beginAtomic
  rw [h.atomic]
  exact h.onAtomic _ _ _

theorem setBlockedInAtomic : k.setBlockedInAtomic.Mirrors k'.setBlockedInAtomic := by
  unfold Kernel.setBlockedInAtomic
  rw [h.atomic]
  split
  · exact h
  · exact h.onAtomic _ _ _

theorem writeField (write : Fields → Nat → Except Fault Fields) (o : Ref) (name : String) :
    Follows Echoes (k.writeField write o name) (k'.writeField write o name) := by
  unfold Kernel.writeField
  apply (h.instanceSlot o name).bind
  rintro r _ rfl
  cases r with
  | error e => exact .pure ⟨rfl, h⟩
  | ok slot =>
    apply (h.updateElement o _).bind
    intro k₁ k₁' h₁
    exact .pure ⟨rfl, h₁⟩

theorem putStatic (c : ClassId) (e : Element) :
    { k with statics := k.statics.put c e }.Mirrors { k' with statics := k'.statics.put c e } :=
  h.onStatics (Arena.capture_replace h.statics c e)

theorem writeStatic (write : Fields → Nat → Except Fault Fields) (c : ClassId) (name : String) :
    Follows Echoes (k.writeStatic write c name) (k'.writeStatic write c name) := by
  unfold Kernel.writeStatic
  rw [h.getStatic?]
  apply (h.staticSlot c name).bind
  rintro r _ rfl
  cases r with
  | error e => exact .pure ⟨rfl, h⟩
  | ok slot =>
    dsimp only
    split
    · apply Follows.after
      intro e'
      exact .pure ⟨rfl, h.putStatic c e'⟩
    · exact .pure ⟨rfl, h⟩

theorem setClassStatus (c : ClassId) (next : InitStatus) :
    Echoes (k.setClassStatus c next) (k'.setClassStatus c next) := by
  unfold Kernel.setClassStatus Statics.setStatus
  rw [h.status?]
  cases k.statics.status? c with
  | none => exact ⟨rfl, h⟩
  | some current =>
    dsimp only
    by_cases hrank : next.rank < current.rank
    · rw [if_pos hrank, if_pos hrank]
      exact ⟨rfl, h⟩
    · rw [if_neg hrank, if_neg hrank]
      by_cases hsame : next = current
      · rw [if_pos hsame, if_pos hsame]
        exact ⟨rfl, h⟩
      · rw [if_neg hsame, if_neg hsame]
        refine ⟨rfl, h.onStatics ?_⟩
        unfold Statics.putStatus
        rw [h.getStatic?]
        split
        · split
          · exact Arena.capture_replace h.statics c _
          · exact h.statics
        · exact h.statics

theorem collect : Follows Echoes k.collect k'.collect := by
  have hthreads : k'.threads.roots = k.threads.roots := by
    unfold Roster.roots
    rw [h.toList_eq]
  have hstatics : k'.statics.roots = k.statics.roots := by
    unfold Statics.roots Statics.elements
    rw [Arena.elements_of_capture h.statics]
  unfold Kernel.collect
  rw [hthreads, hstatics]
  apply (h.heap.collect _).bind
  intro c c' hc
  rw [hc.stats, hc.released]
  exact .pure ⟨rfl, (((h.tell _ _).onHeap hc.heap).tellAll _ _).tell _ _⟩

theorem snapshot : Echoes k.snapshot k'.snapshot :=
  ⟨h.snapshot_eq,
    { h with
      heap := ⟨h.heap.image, h.heap.limit, h.heap.packed, h.heap.packed'⟩
      precedes := ⟨h.precedes.classes, h.precedes.pool⟩ }⟩

theorem add (info : Thread) :
    Follows (fun p q => q.1 = p.1 ∧ q.2.threads = p.2.threads) (k.threads.add info)
      (k'.threads.add info) := by
  rintro ⟨t, threads⟩ hadd
  obtain ⟨⟨hid, rfl⟩, rfl⟩ := Roster.add_eq_ok.mp hadd
  have hnext : k'.threads.nextId = k.threads.nextId := congrArg Array.size h.threads
  exact ⟨_, Roster.add_eq_ok.mpr ⟨⟨hid.trans hnext.symm, rfl⟩, rfl⟩, rfl,
    congrArg (·.push info) h.threads⟩

theorem allocate (c : ClassDescriptor) (creator : Option ThreadId) (gid : GlobalId) :
    Echoes (k.allocate c creator gid) (k'.allocate c creator gid) := by
  obtain ⟨href, hheap⟩ := h.heap.place fun ref =>
    .fresh ref gid c.id .object (.ofMask c.instances.refMask) creator
  exact ⟨href, (h.onHeap hheap).tell _ _⟩

theorem register {c : ClassDescriptor} (hle : (k.register c).2.Precedes k') :
    k'.register c = ((k.register c).1, k') ∧ (k.register c).2.Mirrors k' := by
  constructor
  · unfold Kernel.register
    rw [Registry.register_of_prefix hle.classes]
  · exact { h with precedes := hle }

theorem newGlobalId {creator : Option ThreadId} {site : Option Site} {p : GlobalId × Kernel}
    (hk : k.newGlobalId creator site = .ok p) (hle : p.2.Precedes k') :
    Follows Echoes (k.newGlobalId creator site) (k'.newGlobalId creator site) := by
  rintro ⟨gid, k₁⟩ hk₁
  cases hk.symm.trans hk₁
  obtain ⟨thread, hthread, rfl, rfl⟩ := newGlobalId_eq_ok.mp hk
  have hnext := Tally.next_of_prefix h.counts hle.pool
  refine ⟨_, newGlobalId_eq_ok.mpr ⟨thread, ?_, rfl, rfl⟩, ?_, ?_⟩
  · simp only [h.getThread]
    exact hthread
  · rw [hnext]
  · rw [hnext]
    exact { h with
      counts := Tally.counts_bump h.counts _
      precedes := ⟨hle.classes, hle.pool⟩ }

theorem newObject {c : ClassId} {creator : Option ThreadId} {site : Option Site} {p : Ref × Kernel}
    (hk : k.newObject c creator site = .ok p) (hle : p.2.Precedes k') :
    Follows Echoes (k.newObject c creator site) (k'.newObject c creator site) := by
  obtain ⟨⟨gid, k₁⟩, h₁, hk⟩ := bind_eq_ok.mp hk
  obtain ⟨desc, -, hk⟩ := bind_eq_ok.mp hk
  cases hk
  apply (h.newGlobalId h₁ ⟨hle.classes, hle.pool⟩).bind
  rintro ⟨_, k₂⟩ ⟨gid, k₂'⟩ ⟨rfl, h₂⟩
  apply (h₂.getClass c).bind
  rintro desc _ rfl
  exact .pure (h₂.allocate desc creator gid)

theorem nameRegister {c : ClassDescriptor} {creator : Option ThreadId} {site : Option Site}
    {gid : GlobalId} {k₁ : Kernel} (h₁ : k.newGlobalId creator site = .ok (gid, k₁))
    (hle : (k₁.register c).2.Precedes k') :
    ∃ k₁', k'.newGlobalId creator site = .ok (gid, k₁') ∧
      k₁'.register c = ((k₁.register c).1, k₁') ∧ (k₁.register c).2.Mirrors k₁' := by
  have hle₁ : k₁.Precedes k' := ⟨(k₁.classes.prefix_register c).trans hle.classes, hle.pool⟩
  obtain ⟨⟨gid, k₁'⟩, h₁', rfl, hm⟩ := h.newGlobalId h₁ hle₁ _ h₁
  exact ⟨k₁', h₁', hm.register (hle.trans (Lasts.newGlobalId h₁').precedes)⟩

theorem newArray {elem : ValueKind} {length : Nat} {creator : Option ThreadId} {site : Option Site}
    {p : Ref × Kernel} (hk : k.newArray elem length creator site = .ok p) (hle : p.2.Precedes k') :
    Follows Echoes (k.newArray elem length creator site) (k'.newArray elem length creator site) := by
  obtain ⟨⟨gid, k₁⟩, h₁, hk⟩ := bind_eq_ok.mp hk
  have hle₁ : (k₁.register (.array elem)).2.Precedes k' := by
    cases hk
    exact ⟨hle.classes, hle.pool⟩
  obtain ⟨k₁', h₁', -, hm⟩ := h.nameRegister h₁ hle₁
  obtain ⟨href, hheap⟩ := hm.heap.place fun ref =>
    .fresh ref gid (k₁.register (.array elem)).1 (.array elem length) (.ofArray elem length) creator
  have hclass : k₁'.classes.arrayClass elem = ((k₁.classes.arrayClass elem).1, k₁'.classes) :=
    Registry.register_of_prefix hm.precedes.classes
  unfold Kernel.newArray
  rw [h₁, h₁', ok_bind, ok_bind]
  dsimp only
  rw [hclass]
  exact .pure ⟨href, (hm.onHeap hheap).tell _ _⟩

theorem addClass (desc : ClassDescriptor) (gid : GlobalId) (o : Ref) :
    (k'.statics.addClass desc gid o).capture.1 = (k.statics.addClass desc gid o).capture.1 := by
  unfold Statics.addClass
  rw [h.containsStatic]
  split
  · exact h.statics
  · exact Arena.capture_insert h.statics _ _

theorem loadClass {c : ClassId} {k₁ : Kernel} (hk : k.loadClass c = .ok k₁) (hle : k₁.Precedes k') :
    Follows Mirrors (k.loadClass c) (k'.loadClass c) := by
  unfold Kernel.loadClass at hk ⊢
  rw [h.containsStatic]
  split at hk
  · next hloaded =>
    rw [if_pos hloaded, if_pos hloaded]
    exact .pure h
  · next hnew =>
    rw [if_neg hnew, if_neg hnew]
    obtain ⟨desc, -, hk⟩ := bind_eq_ok.mp hk
    obtain ⟨classDesc, -, hk⟩ := bind_eq_ok.mp hk
    have hle₁ : { (k.register .classClass).2 with
        pool := (k.pool.intern (.ofClass c)).2 }.Precedes k' := by
      cases hk
      exact ⟨hle.classes, hle.pool⟩
    clear hk
    obtain ⟨hregister, h₁⟩ :=
      h.register ⟨hle₁.classes, (k.pool.prefix_intern (.ofClass c)).trans hle₁.pool⟩
    have h₂ : { (k.register .classClass).2 with pool := (k.pool.intern (.ofClass c)).2 }.Mirrors k' :=
      { h₁ with precedes := hle₁ }
    have hintern := IdPool.intern_of_prefix hle₁.pool
    apply (h.getClass c).bind
    rintro desc _ rfl
    rw [hregister]
    dsimp only
    rw [hintern]
    apply (h₁.getClass _).bind
    rintro classDesc _ rfl
    obtain ⟨hobject, h₃⟩ := h₂.allocate classDesc none (k.pool.intern (.ofClass c)).1
    apply Follows.pure
    apply Mirrors.tell
    apply h₃.onStatics
    rw [hobject]
    exact h₃.addClass desc _ _

theorem addThread (info : Thread) :
    Follows Echoes (k.threads.add info >>= fun p => pure (p.1, { k with threads := p.2 }))
      (k'.threads.add info >>= fun p => pure (p.1, { k' with threads := p.2 })) := by
  apply (h.add info).bind
  rintro p q ⟨hid, hthreads⟩
  exact .pure ⟨hid, h.onThreads hthreads⟩

theorem createThread {name : String} {creator : Option ThreadId} {site : Option Site}
    {p : ThreadId × Kernel} (hk : k.createThread name creator site = .ok p) (hle : p.2.Precedes k') :
    Follows Echoes (k.createThread name creator site) (k'.createThread name creator site) := by
  obtain ⟨gid, k₁, h₁, hle₁⟩ := precedes_createThread hk
  obtain ⟨k₁', h₁', hregister, hm⟩ := h.nameRegister h₁ (hle₁.trans hle)
  unfold Kernel.createThread
  rw [h₁, h₁', ok_bind, ok_bind]
  dsimp only
  rw [hregister]
  apply (hm.getClass _).bind
  rintro desc _ rfl
  obtain ⟨hobject, hm⟩ := hm.allocate desc creator gid
  have hid : (k₁'.allocate desc creator gid).2.threads.nextId =
      ((k₁.register .threadClass).2.allocate desc creator gid).2.threads.nextId :=
    congrArg Array.size hm.threads
  dsimp only
  rw [hobject, hid]
  generalize desc.instances.lookup? "priority" = found
  cases creator
  case' some =>
    dsimp only
    rw [hm.getThread]
    apply Follows.after
    intro parent
  all_goals
    rcases found with _ | ⟨slot, _⟩
    · exact hm.addThread _
    · apply (hm.updateElement _ _).bind
      intro k₂ k₂' h₂
      exact h₂.addThread _

theorem loadClassNamed {name : String} (hname : (k.classes.lookup? name).isSome = true)
    {p : Except KernelError ClassId × Kernel} (hk : k.loadClassNamed name = .ok p)
    (hle : p.2.Precedes k') :
    Follows Echoes (k.loadClassNamed name) (k'.loadClassNamed name) := by
  obtain ⟨c, hc⟩ := Option.isSome_iff_exists.mp hname
  have hc' : k'.classes.lookup? name = some c := findIdx?_mono h.precedes.classes hc
  unfold Kernel.loadClassNamed at hk ⊢
  rw [hc] at hk ⊢
  rw [hc']
  obtain ⟨k₁, hload, hk⟩ := bind_eq_ok.mp hk
  cases hk
  apply (h.loadClass hload hle).bind
  intro k₂ k₂' h₂
  exact .pure ⟨rfl, h₂⟩

theorem unpin (o : Ref) :
    Follows (fun p q => q.1 = p.1 ∧ p.2.Mirrors q.2) (k.heap.unpin o) (k'.heap.unpin o) := by
  unfold Heap.unpin
  rw [h.heap.deref]
  apply Follows.after
  intro e
  exact .pure ⟨rfl, h.heap.put o e.unpin⟩

end Mirrors

end Kernel

end Interleave
