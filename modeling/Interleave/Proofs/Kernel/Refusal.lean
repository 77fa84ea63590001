import Interleave.Proofs.Kernel.Action
import Interleave.Proofs.Monitor.Coherence

/-!
Refusals. The state in which an operation is requested decides whether it is refused and why, and an
operation that is refused has done nothing: no operation gives up halfway.
-/

namespace Interleave

namespace Kernel

def Owns (k : Kernel) (t : ThreadId) (o : Ref) : Prop := ∃ m ∈ k.monitor? o, m.owner = some t

instance (k : Kernel) (t : ThreadId) (o : Ref) : Decidable (k.Owns t o) :=
  inferInstanceAs (Decidable (∃ m ∈ k.monitor? o, m.owner = some t))

def notOwner? (k : Kernel) (t : ThreadId) (o : Ref) : Option KernelError :=
  if k.Owns t o then none else some (.notOwner t o)

def notNew? (k : Kernel) (t : ThreadId) : Option KernelError :=
  (k.threads.get? t).bind fun info =>
    if info.state = .new then none else some (.cannotStart t info.state)

def notAlive? (k : Kernel) (t : ThreadId) : Option KernelError :=
  (k.threads.get? t).bind fun info => if info.isAlive then none else some (.notAlive t)

def notInAtomic? (k : Kernel) (t : ThreadId) : Option KernelError :=
  if k.isAtomicFor t then none else some (.notInAtomic t)

def regression? (k : Kernel) (c : ClassId) (next : InitStatus) : Option KernelError :=
  match k.statics.status? c with
  | none => some (.classNotLoaded c.label)
  | some current => if next.rank < current.rank then some (.initRegression c current next) else none

def unknownClass? (k : Kernel) (name : String) : Option KernelError :=
  if (k.classes.lookup? name).isSome then none else some (.classNotLoaded name)

def unknownField? (k : Kernel) (o : Ref) (name : String) : Option KernelError :=
  (k.heap.get? o).bind fun e => k.classes.classes[e.classId]?.bind fun desc =>
    if (desc.instances.lookup? name).isSome then none else some (.unknownField desc.name name)

def unknownStatic? (k : Kernel) (c : ClassId) (name : String) : Option KernelError :=
  k.classes.classes[c]?.bind fun desc =>
    if k.statics.contains c then
      if (desc.statics.lookup? name).isSome then none else some (.unknownField desc.name name)
    else
      some (.classNotLoaded desc.name)

end Kernel

def Op.refusal? (k : Kernel) : Op → Option KernelError
  | .unlock t o | .wait t o | .timedWait t o | .notifyThread t o _ | .notify t o | .notifyAll t o =>
    k.notOwner? t o
  | .start t _ => k.notNew? t
  | .enter t _ | .terminate t => k.notAlive? t
  | .endAtomic t => k.notInAtomic? t
  | .setStatus c next => k.regression? c next
  | .loadNamed name => k.unknownClass? name
  | .writeField o name _ => k.unknownField? o name
  | .writeStatic c name _ => k.unknownStatic? c name
  | .acquireTracker => if k.tracked then some .trackerConflict else none
  | _ => none

namespace Kernel

variable {k k' : Kernel} {t u : ThreadId} {o : Ref} {α : Type}

def Granted (p : Attempt α) : Prop := ∃ a, p.1 = .ok a

def Heeds (k : Kernel) (reason : Option KernelError) (p : Attempt α) : Prop :=
  match reason with
  | some e => p = (.error e, k)
  | none => Granted p

theorem heeds_ite {c : Prop} [Decidable c] {e : KernelError} {x y : Except Fault (Attempt α)}
    (hx : Ensures Granted x) (hy : Ensures (· = (.error e, k)) y) :
    Ensures (Heeds k (if c then none else some e)) (if c then x else y) := by
  split
  · exact hx
  · exact hy

theorem heeds_ifOwner {f : Element → Except Fault (Attempt α)}
    (hf : k.Owns t o → ∀ e, Ensures Granted (f e)) :
    Ensures (Heeds k (k.notOwner? t o)) (do
      if !(← k.isOwner t o) then
        return (.error (.notOwner t o), k)
      f (← k.heap.deref o)) := by
  intro p hp
  obtain ⟨owns, howns, hp⟩ := bind_eq_ok.mp hp
  obtain ⟨e, he, howns⟩ := bind_eq_ok.mp howns
  cases howns
  have hiff : k.Owns t o ↔ (e.monitor.owner == some t) = true := by
    unfold Owns
    rw [monitor?_of_get? (deref_eq_ok.mp he)]
    simp
  unfold notOwner?
  by_cases h : k.Owns t o
  · rw [if_pos h]
    rw [hiff.mp h] at hp
    obtain ⟨e', -, hp⟩ := bind_eq_ok.mp hp
    exact hf h e' p hp
  · rw [if_neg h]
    rw [Bool.eq_false_iff.mpr fun ho => h (hiff.mpr ho)] at hp
    cases hp
    rfl

theorem heeds_unlock : Ensures (Heeds k (k.notOwner? t o)) (k.unlock t o) := by
  apply heeds_ifOwner
  intro _ e
  refine .after fun k₁ _ => .ite ?_ ?_
  · exact .after fun _ _ => .after fun _ _ => .pure ⟨_, rfl⟩
  · exact .pure ⟨_, rfl⟩

theorem heeds_enterWait {s : ThreadState} :
    Ensures (Heeds k (k.notOwner? t o)) (k.enterWait t o s) := by
  apply heeds_ifOwner
  intro _ e
  exact .after fun _ _ => .after fun _ _ => .after fun _ _ => .pure ⟨_, rfl⟩

theorem heeds_notifyThread :
    Ensures (Heeds k (k.notOwner? t o)) (k.notifyThread t o u) := by
  apply heeds_ifOwner
  intro _ e
  apply Ensures.ite
  · exact .after fun _ _ => .after fun _ _ => .pure ⟨_, rfl⟩
  · exact .after fun _ _ => .pure ⟨_, rfl⟩

theorem granted_notifyThread (h : k.Owns t o) : Ensures Granted (k.notifyThread t o u) := by
  have hheeds := heeds_notifyThread (k := k) (t := t) (o := o) (u := u)
  rw [notOwner?, if_pos h] at hheeds
  exact hheeds

theorem owns_updateMonitor (h : k.Owns t o) {o' : Ref} {f : Monitor → Monitor}
    (hf : ∀ m, (f m).owner = m.owner) : Ensures (·.Owns t o) (k.updateMonitor o' f) := by
  intro k' hk'
  obtain ⟨e, he, rfl⟩ := updateMonitor_eq_ok.mp hk'
  obtain ⟨m, hm, howner⟩ := h
  obtain ⟨e', he', rfl⟩ := monitor?_eq_some.mp hm
  by_cases ho : o' = o
  · subst ho
    rw [he] at he'
    cases he'
    refine ⟨f e.monitor, ?_, (hf _).trans howner⟩
    apply monitor?_of_get? (e := { e with monitor := f e.monitor })
    simp [Heap.get?_put, he]
  · refine ⟨e'.monitor, ?_, howner⟩
    apply monitor?_of_get?
    simp [Heap.get?_put, ho, he']

theorem owns_notifyThread (h : k.Owns t o) : Ensures (·.2.Owns t o) (k.notifyThread t o u) := by
  apply Ensures.after
  intro owns _
  apply Ensures.ite
  · exact .pure h
  · refine .after fun e _ => .ite ?_ ?_
    · refine .bind (owns_updateMonitor h fun m => Monitor.owner_addRequest _ _) fun k₁ h₁ => ?_
      apply Ensures.after
      intro k₂ h₂
      obtain ⟨info, -, rfl⟩ := updateThread_eq_ok.mp h₂
      exact .pure h₁
    · exact .bind (owns_updateMonitor h fun _ => rfl) fun k₁ h₁ => .pure h₁

theorem granted_notifyEach {l : List ThreadId} (h : k.Owns t o) : Ensures Granted (k.notifyEach t o l) := by
  -- every round looks at the owner again, and finds the same one
  induction l generalizing k with
  | nil => exact .pure ⟨_, rfl⟩
  | cons u l ih =>
    apply Ensures.after
    rintro ⟨r, k₁⟩ hr
    obtain ⟨b, rfl⟩ := granted_notifyThread h _ hr
    exact ih (owns_notifyThread h _ hr)

theorem heeds_notify : Ensures (Heeds k (k.notOwner? t o)) (k.notify t o) := by
  apply heeds_ifOwner
  intro h e
  split
  · exact .pure ⟨_, rfl⟩
  · apply Ensures.after
    rintro ⟨r, k₁⟩ hr
    obtain ⟨b, rfl⟩ := granted_notifyThread h _ hr
    exact .pure ⟨_, rfl⟩

theorem heeds_notifyAll : Ensures (Heeds k (k.notOwner? t o)) (k.notifyAll t o) := by
  apply heeds_ifOwner
  intro h e
  apply Ensures.after
  rintro ⟨r, k₁⟩ hr
  obtain ⟨b, rfl⟩ := granted_notifyEach h _ hr
  exact .pure ⟨_, rfl⟩

theorem heeds_startThread {frame : Frame} :
    Ensures (Heeds k (k.notNew? t)) (k.startThread t frame) := by
  apply Ensures.after
  intro info ht
  unfold notNew?
  rw [get_eq_ok.mp ht]
  exact heeds_ite (.after fun _ _ => .pure ⟨_, rfl⟩) (.pure rfl)

theorem updateThread_id {info : Thread} (ht : k.threads.get? t = some info) :
    k.updateThread t id = .ok { k with threads := { k.threads with epoch := k.threads.epoch + 1 } } := by
  refine updateThread_eq_ok.mpr ⟨info, ht, ?_⟩
  have hsame : k.threads.threads.setIfInBounds t info = k.threads.threads := by
    apply Array.ext_getElem?
    intro i
    rw [Array.getElem?_setIfInBounds]
    split
    · next hi =>
      subst hi
      obtain ⟨hlt, hget⟩ := Array.getElem?_eq_some_iff.mp ht
      simp [hlt, hget]
    · rfl
  unfold Roster.put
  rw [id, hsame]

theorem heeds_enterMethod {frame : Frame} :
    Ensures (Heeds { k with threads := { k.threads with epoch := k.threads.epoch + 1 } } (k.notAlive? t))
      (k.enterMethod t frame) := by
  apply Ensures.after
  intro info ht
  rw [get_eq_ok] at ht
  unfold notAlive?
  rw [ht, updateThread_id ht]
  exact heeds_ite (.after fun _ _ => .pure ⟨_, rfl⟩) (.pure rfl)

theorem heeds_terminateThread : Ensures (Heeds k (k.notAlive? t)) (k.terminateThread t) := by
  apply Ensures.after
  intro info ht
  unfold notAlive?
  rw [get_eq_ok.mp ht, Option.bind_some]
  cases info.isAlive with
  | false => exact .pure rfl
  | true => exact .after fun _ _ => .after fun _ _ => .after fun _ _ => .after fun _ _ => .pure ⟨_, rfl⟩

theorem heeds_writeField {write : Fields → Nat → Except Fault Fields} {name : String} :
    Ensures (Heeds k (k.unknownField? o name)) (k.writeField write o name) := by
  unfold writeField instanceSlot unknownField?
  intro p hp
  obtain ⟨r, hr, hp⟩ := bind_eq_ok.mp hp
  obtain ⟨e, he, hr⟩ := bind_eq_ok.mp hr
  obtain ⟨desc, hdesc, hr⟩ := bind_eq_ok.mp hr
  rw [deref_eq_ok.mp he, Option.bind_some, Registry.get_eq_ok.mp hdesc, Option.bind_some]
  cases hslot : desc.instances.lookup? name with
  | none =>
    rw [hslot] at hr
    cases hr
    cases hp
    rfl
  | some slot =>
    rw [hslot] at hr
    cases hr
    obtain ⟨k', -, hp⟩ := bind_eq_ok.mp hp
    cases hp
    exact ⟨_, rfl⟩

theorem heeds_writeStatic {write : Fields → Nat → Except Fault Fields} {c : ClassId} {name : String} :
    Ensures (Heeds k (k.unknownStatic? c name)) (k.writeStatic write c name) := by
  unfold writeStatic staticSlot unknownStatic?
  intro p hp
  obtain ⟨r, hr, hp⟩ := bind_eq_ok.mp hp
  obtain ⟨desc, hdesc, hr⟩ := bind_eq_ok.mp hr
  rw [Registry.get_eq_ok.mp hdesc, Option.bind_some]
  split at hr
  · next hloaded =>
    rw [if_pos hloaded]
    cases hslot : desc.statics.lookup? name with
    | none =>
      rw [hslot] at hr
      cases hr
      cases hp
      rfl
    | some slot =>
      rw [hslot] at hr
      cases hr
      dsimp only at hp
      split at hp
      · obtain ⟨e, -, hp⟩ := bind_eq_ok.mp hp
        cases hp
        exact ⟨_, rfl⟩
      · cases hp
        exact ⟨_, rfl⟩
  · next hloaded =>
    rw [if_neg hloaded]
    cases hr
    cases hp
    rfl

theorem heeds_loadClassNamed {name : String} :
    Ensures (Heeds k (k.unknownClass? name)) (k.loadClassNamed name) := by
  unfold loadClassNamed unknownClass?
  cases k.classes.lookup? name with
  | none => exact .pure rfl
  | some c => exact .after fun _ _ => .pure ⟨_, rfl⟩

theorem heeds_setClassStatus {c : ClassId} {next : InitStatus} :
    Heeds k (k.regression? c next) (k.setClassStatus c next) := by
  unfold setClassStatus regression? Statics.setStatus
  cases k.statics.status? c with
  | none => rfl
  | some current =>
    dsimp only
    by_cases hlt : next.rank < current.rank
    · rw [if_pos hlt, if_pos hlt]
      rfl
    · rw [if_neg hlt, if_neg hlt]
      by_cases heq : next = current
      · rw [if_pos heq]
        exact ⟨_, rfl⟩
      · rw [if_neg heq]
        exact ⟨_, rfl⟩

theorem heeds_endAtomic : Heeds k (k.notInAtomic? t) (k.endAtomic t) := by
  unfold endAtomic notInAtomic?
  split
  · exact ⟨_, rfl⟩
  · rfl

theorem heeds_acquireTracker :
    Heeds k (if k.tracked then some .trackerConflict else none) k.acquireTracker := by
  unfold acquireTracker
  split
  · rfl
  · exact ⟨_, rfl⟩

structure Declines (k : Kernel) (reason : Option KernelError) (p : Answer × Kernel) : Prop where
  refused_iff : ∀ e, p.1 = .refused e ↔ reason = some e
  state : ∀ e, p.1 = .refused e → p.2 = k

theorem Declines.never {p : Answer × Kernel} (h : ∀ e, p.1 ≠ .refused e) : Declines k none p where
  refused_iff := fun e => iff_of_false (h e) nofun
  state := fun e he => absurd he (h e)

theorem declines_of_heeds {x : Except Fault (Attempt α)} {reason : Option KernelError}
    (hx : Ensures (Heeds k reason) x) {f : α → Answer} (hf : ∀ a e, f a ≠ .refused e) :
    Ensures (Declines k reason) (x >>= fun p => pure (.ofAttempt f p.1, p.2)) := by
  refine .bind hx fun p hp => .pure ?_
  cases reason with
  | none =>
    obtain ⟨a, ha⟩ := hp
    rw [ha]
    exact .never (hf a)
  | some e =>
    cases hp
    exact ⟨by simp [Answer.ofAttempt], fun _ _ => rfl⟩

def afterRefusal (k : Kernel) : Op → Kernel
  | .enter _ _ => { k with threads := { k.threads with epoch := k.threads.epoch + 1 } }
  | _ => k

theorem declines_respond (op : Op) :
    Ensures (Declines (k.afterRefusal op) (op.refusal? k)) (k.respond op) := by
  cases op with
  | unlock => exact declines_of_heeds heeds_unlock nofun
  | wait => exact declines_of_heeds heeds_enterWait nofun
  | timedWait => exact declines_of_heeds heeds_enterWait nofun
  | notifyThread => exact declines_of_heeds heeds_notifyThread nofun
  | notify => exact declines_of_heeds heeds_notify nofun
  | notifyAll => exact declines_of_heeds heeds_notifyAll nofun
  | start => exact declines_of_heeds heeds_startThread nofun
  | enter => exact declines_of_heeds heeds_enterMethod nofun
  | terminate => exact declines_of_heeds heeds_terminateThread nofun
  | writeField => exact declines_of_heeds heeds_writeField nofun
  | writeStatic => exact declines_of_heeds heeds_writeStatic nofun
  | loadNamed => exact declines_of_heeds heeds_loadClassNamed nofun
  | setStatus => exact declines_of_heeds (.pure heeds_setClassStatus) nofun
  | endAtomic => exact declines_of_heeds (.pure heeds_endAtomic) nofun
  | acquireTracker => exact declines_of_heeds (.pure heeds_acquireTracker) nofun
  | register | snapshot => exact .pure (.never nofun)
  | _ => exact .after fun p _ => .pure (.never nofun)

/-- An operation is refused exactly if there is a reason at its beginning, and then nothing has changed. -/
theorem respond_refused_iff {k k' : Kernel} {op : Op} {a : Answer} (h : k.respond op = .ok (a, k')) :
    (∀ e, a = .refused e ↔ op.refusal? k = some e) ∧
      ∀ e, a = .refused e → k' = k ∨ (∃ t frame, op = .enter t frame) ∧
        k' = { k with threads := { k.threads with epoch := k.threads.epoch + 1 } } := by
  obtain ⟨hiff, hstate⟩ := declines_respond op (a, k') h
  refine ⟨hiff, fun e he => ?_⟩
  rw [show k' = k.afterRefusal op from hstate e he]
  unfold afterRefusal
  split
  · next t frame => exact .inr ⟨⟨t, frame, rfl⟩, rfl⟩
  · exact .inl rfl

theorem respond_refused_contended :
    contended.respond (.notifyAll 2 ⟨0⟩) = .ok (.refused (.notOwner 2 ⟨0⟩), contended) := by
  have hok : (contended.respond (.notifyAll 2 ⟨0⟩)).isOk = true := by decide +kernel
  cases h : contended.respond (.notifyAll 2 ⟨0⟩) with
  | error e =>
    rw [h] at hok
    cases hok
  | ok p =>
    obtain ⟨a, k'⟩ := p
    obtain ⟨hiff, hstate⟩ := respond_refused_iff h
    have ha : a = .refused (.notOwner 2 ⟨0⟩) := (hiff _).mpr (by decide +kernel)
    rcases hstate _ ha with rfl | ⟨⟨t, frame, hop⟩, -⟩
    · rw [ha]
    · cases hop

end Kernel

end Interleave
