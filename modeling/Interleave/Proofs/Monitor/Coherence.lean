import Interleave.Proofs.Kernel.Collection
import Interleave.Proofs.Monitor.Turn

/-!
Ownership of monitors is coherent in every state that operations can build: objects and threads tell the
same story about it, entries are counted, and nobody is in a queue twice.
-/

namespace Interleave

namespace Kernel

structure Spares (k k' : Kernel) : Prop where
  threads : ∀ t info, k.threads.get? t = some info → k'.threads.get? t = some info
  newThreads : ∀ t info, k'.threads.get? t = some info →
    k.threads.get? t = some info ∨ k.threads.get? t = none ∧ info.IsNew t
  monitors : ∀ o m, k'.monitor? o = some m →
    k.monitor? o = some m ∨ k.monitor? o = none ∧ m = {}
  held : ∀ t info, k.threads.get? t = some info → info.state ≠ .terminated → ∀ o, info.Holds o →
    ∀ m, k.monitor? o = some m → k'.monitor? o = some m

namespace Spares

variable {k k' : Kernel}

theorem of_eq (hthreads : ∀ t, k'.threads.get? t = k.threads.get? t)
    (hmonitors : ∀ o, k'.monitor? o = k.monitor? o) : k.Spares k' where
  threads := by
    intro t info ht
    rwa [hthreads]
  newThreads := by
    intro t info ht
    rw [hthreads] at ht
    exact .inl ht
  monitors := by
    intro o m ho
    rw [hmonitors] at ho
    exact .inl ho
  held := by
    intro t info _ _ o _ m ho
    rwa [hmonitors]

theorem place (k : Kernel) {build : Ref → Element} (hbuild : ∀ r, (build r).monitor = {}) :
    k.Spares { k with heap := (k.heap.place build).2 } where
  threads := fun _ _ => id
  newThreads := fun _ _ => .inl
  monitors := by
    intro o m ho
    obtain ⟨e, he, rfl⟩ := monitor?_eq_some.mp ho
    replace he : (k.heap.place build).2.get? o = some e := he
    rw [Heap.get?_place] at he
    split at he
    · next hfree =>
      cases he
      refine .inr ⟨?_, hbuild o⟩
      unfold monitor?
      rw [Heap.get?_eq_none_of_nextFree hfree]
      rfl
    · exact .inl (monitor?_of_get? he)
  held := by
    intro _ _ _ _ o _ m ho
    obtain ⟨e, he, rfl⟩ := monitor?_eq_some.mp ho
    exact monitor?_of_get? (Heap.get?_place_of_some he)

theorem push (k : Kernel) (epoch : Nat) {info : Thread} (hnew : info.IsNew k.threads.nextId) :
    k.Spares { k with threads := { threads := k.threads.threads.push info, epoch } } where
  threads := by
    intro t info' ht
    have hlt : t < k.threads.size := (Array.getElem?_eq_some_iff.mp ht).1
    dsimp only
    rw [Roster.get?_push, if_neg (Nat.ne_of_lt hlt), ht]
  newThreads := by
    intro t info' ht
    replace ht : (Roster.mk (k.threads.threads.push info) epoch).get? t = some info' := ht
    rw [Roster.get?_push] at ht
    split at ht
    · next hsize =>
      cases ht
      subst hsize
      exact .inr ⟨Array.getElem?_eq_none (Nat.le_refl _), hnew⟩
    · exact .inl ht
  monitors := fun _ _ => .inl
  held := fun _ _ _ _ _ _ _ => id

theorem put (k : Kernel) {o : Ref} {e e' : Element} (he : k.heap.get? o = some e)
    (hmonitor : e'.monitor = e.monitor) : k.Spares { k with heap := k.heap.put o e' } := by
  refine of_eq (fun _ => rfl) ?_
  intro o'
  unfold monitor?
  dsimp only
  rw [Heap.get?_put]
  split
  · next hoo =>
    subst hoo
    simp [he, hmonitor]
  · rfl

theorem collect (k : Kernel) {c : Collection} (h : k.heap.collect k.roots = .ok c) :
    k.Spares { k with heap := c.heap } where
  threads := fun _ _ => id
  newThreads := fun _ _ => .inl
  monitors := by
    intro o m ho
    obtain ⟨e', he', rfl⟩ := monitor?_eq_some.mp ho
    obtain ⟨i, hi, he'⟩ := Heap.get?_eq_some.mp he'
    obtain ⟨e, he, hkept⟩ := (Heap.collect_spec h).1.kept i e' he'
    rw [hkept.monitor]
    exact .inl (monitor?_of_get? (Heap.get?_eq_some.mpr ⟨i, hi, he⟩))
  held := by
    intro t info ht hstate o hholds m ho
    obtain ⟨e, he, rfl⟩ := monitor?_eq_some.mp ho
    have hroot : (info.id, o) ∈ k.roots.threads :=
      mem_threadRoots.mpr ⟨info, Roster.mem_toList_of_get? ht, hstate, rfl, hholds⟩
    obtain ⟨e', he'⟩ := Heap.contains_collect h hroot he
    obtain ⟨i, hi, he'⟩ := Heap.get?_eq_some.mp he'
    obtain ⟨e₁, he₁, hkept⟩ := (Heap.collect_spec h).1.kept i e' he'
    rw [Heap.get?_eq_some.mpr ⟨i, hi, he₁⟩] at he
    cases he
    rw [← hkept.monitor]
    exact monitor?_of_get? (Heap.get?_eq_some.mpr ⟨i, hi, he'⟩)

theorem trans {k'' : Kernel} (h : k.Spares k') (h' : k'.Spares k'')
    (hmonitors : ∀ o, k''.monitor? o = k'.monitor? o) : k.Spares k'' where
  threads := fun t info ht => h'.threads t info (h.threads t info ht)
  newThreads := by
    intro t info ht
    rcases h'.newThreads t info ht with ht | ⟨hfresh, hnew⟩
    · exact h.newThreads t info ht
    · refine .inr ⟨?_, hnew⟩
      rw [Option.eq_none_iff_forall_ne_some]
      intro info' ht'
      rw [h.threads t info' ht'] at hfresh
      cases hfresh
  monitors := by
    intro o m ho
    rw [hmonitors] at ho
    exact h.monitors o m ho
  held := by
    intro t info ht hstate o hholds m ho
    rw [hmonitors]
    exact h.held t info ht hstate o hholds m ho

theorem grow {proper : Prop} (h : Grow proper k k') : k.Spares k' := by
  cases h with
  | name h =>
    obtain ⟨thread, -, -, rfl⟩ := newGlobalId_eq_ok.mp h
    exact of_eq (fun _ => rfl) (fun _ => rfl)
  | object h hbuild =>
    obtain ⟨thread, -, -, rfl⟩ := newGlobalId_eq_ok.mp h
    exact (place k hbuild.monitor).trans (of_eq (fun _ => rfl) (fun _ => rfl)) (fun _ => rfl)
  | @thread _ _ _ _ build info h hbuild _ hnew =>
    obtain ⟨thread, -, -, rfl⟩ := newGlobalId_eq_ok.mp h
    have hpushed := push { k with heap := (k.heap.place build).2 } (k.threads.epoch + 1) hnew
    exact ((place k hbuild.monitor).trans hpushed (fun _ => rfl)).trans
      (of_eq (fun _ => rfl) (fun _ => rfl)) (fun _ => rfl)
  | load _ _ hbuild =>
    exact (place k hbuild.monitor).trans (of_eq (fun _ => rfl) (fun _ => rfl)) (fun _ => rfl)
  | write he hkept => exact put k he hkept.monitor
  | flag flag =>
    refine of_eq (fun _ => rfl) ?_
    intro o
    unfold monitor? Heap.get?
    dsimp only
    rw [Heap.arena_setOutOfMemory]
  | collect h => exact collect k h
  | _ => exact of_eq (fun _ => rfl) (fun _ => rfl)

theorem adopt (k other : Kernel) : k.Spares (k.adopt other) := of_eq (fun _ => rfl) (fun _ => rfl)

theorem restore (k other : Kernel) : other.Spares (k.restore other.snapshot.1) :=
  of_eq (fun _ => rfl) (fun _ => rfl)

end Spares

theorem Grows.spares {k k' : Kernel} {proper : Prop} {motive : Kernel → Prop} (h : Grows proper k k')
    (howned : k.Owned) (keep : ∀ k k', k.Owned → k.Spares k' → motive k → motive k') (hk : motive k) :
    motive k' := by
  have hboth : k'.Owned ∧ motive k' := by
    induction h with
    | refl => exact ⟨howned, hk⟩
    | tail _ h ih => exact ⟨ih.1.grow h, keep _ _ ih.1 (.grow h) ih.2⟩
  exact hboth.2

theorem monitor?_start (limit : Option Nat) (observers : Observers) (o : Ref) :
    { Kernel.withLimit limit with observers }.monitor? o = none := by
  unfold monitor? Heap.get?
  cases o.index? <;> rfl

end Kernel

namespace Monitor

structure Tidy (m : Monitor) : Prop where
  waiters : m.waiters.Nodup
  requests : m.requests.Nodup
  count : 0 < m.count ↔ m.owner.isSome = true

namespace Tidy

variable {m : Monitor} (hm : m.Tidy)

theorem fresh : Tidy {} := ⟨.nil, .nil, by simp⟩

include hm

theorem enter {n : Nat} (hn : 0 < n) (t : ThreadId) : (m.enter t n).Tidy where
  waiters := hm.waiters
  requests := hm.requests.filter _
  count := by
    simp only [Monitor.enter, Option.isSome_some, iff_true]
    omega

theorem addRequest (t : ThreadId) : (m.addRequest t).Tidy where
  waiters := by
    rw [waiters_addRequest]
    exact hm.waiters
  requests := nodup_addRequest hm.requests t
  count := by
    rw [count_addRequest, owner_addRequest]
    exact hm.count

theorem leave (hcount : 1 < m.count) : Tidy { m with count := m.count - 1 } where
  waiters := hm.waiters
  requests := hm.requests
  count := by
    rw [← hm.count]
    dsimp only
    omega

theorem release : m.release.Tidy where
  waiters := hm.waiters
  requests := hm.requests
  count := by simp [Monitor.release]

theorem addWaiter (t : ThreadId) : (m.addWaiter t).Tidy := by
  unfold Monitor.addWaiter
  split
  · exact hm
  · next ht =>
    refine ⟨?_, hm.requests, hm.count⟩
    rw [← List.concat_eq_append]
    exact hm.waiters.concat ht

theorem roused {m' : Monitor} {l : List ThreadId} (h : m.Roused l m') : m'.Tidy where
  waiters := h.nodup_waiters hm.waiters
  requests := h.nodup_requests hm.requests
  count := by
    rw [h.count, h.owner]
    exact hm.count

end Tidy

end Monitor

namespace Kernel

structure TidyThread (k : Kernel) (t : ThreadId) (info : Thread) : Prop where
  id : info.id = t
  lockedObjects : info.lockedObjects.Nodup
  lockObject : ∀ o, info.lockObject = some o →
    info.state ≠ .terminated ∧ (k.monitor? o).isSome = true

structure Tidy (k : Kernel) : Prop where
  monitors : ∀ o m, k.monitor? o = some m → m.Tidy
  threads : ∀ t info, k.threads.get? t = some info → k.TidyThread t info

namespace TidyThread

variable {k : Kernel} {t : ThreadId} {info : Thread} (h : k.TidyThread t info)

include h

theorem proceeds {op : Op} {info' : Thread} (hp : info.Proceeds op t info') : k.TidyThread t info' where
  id := hp.id.trans h.id
  lockedObjects := hp.lockedObjects ▸ h.lockedObjects
  lockObject := by
    intro o ho
    obtain ⟨hstate, hlive⟩ := h.lockObject o (hp.lockObject ▸ ho)
    refine ⟨?_, hlive⟩
    rcases hp.state with hs | ⟨hs, -⟩
    · rw [hs]
      exact hstate
    · exact ThreadState.ne_terminated_of_isFree hs

theorem entered (o : Ref) : k.TidyThread t (entered o info) where
  id := by
    unfold Kernel.entered Thread.addLocked
    split <;> exact h.id
  lockedObjects := by
    unfold Kernel.entered Thread.addLocked
    split
    · exact h.lockedObjects
    · next ho =>
      rw [← List.concat_eq_append]
      exact h.lockedObjects.concat ho
  lockObject := by
    intro o' ho'
    cases ho'

theorem queue {o : Ref} (ho : (k.monitor? o).isSome = true) {s : ThreadState} (hs : s ≠ .terminated) :
    k.TidyThread t { info with lockObject := some o, state := s } where
  id := h.id
  lockedObjects := h.lockedObjects
  lockObject := by
    intro o' ho'
    cases ho'
    exact ⟨hs, ho⟩

theorem removeLocked (o : Ref) : k.TidyThread t (info.removeLocked o) where
  id := h.id
  lockedObjects := h.lockedObjects.filter _
  lockObject := h.lockObject

theorem withState {s : ThreadState} (hs : s ≠ .terminated) : k.TidyThread t { info with state := s } where
  id := h.id
  lockedObjects := h.lockedObjects
  lockObject := fun o ho => ⟨hs, (h.lockObject o ho).2⟩

theorem awake : k.TidyThread t info.awake where
  id := h.id
  lockedObjects := h.lockedObjects
  lockObject := by
    intro o ho
    obtain ⟨hstate, hlive⟩ := h.lockObject o ho
    refine ⟨?_, hlive⟩
    unfold Thread.awake
    rwa [ne_eq, ThreadState.woken_eq_terminated]

theorem awakeIf (p : Prop) [Decidable p] : k.TidyThread t (if p then info.awake else info) := by
  split
  · exact h.awake
  · exact h

theorem atEnd : k.TidyThread t info.atEnd where
  id := h.id
  lockedObjects := .nil
  lockObject := by
    intro o ho
    cases ho

theorem ended (u : ThreadId) (requesters joiners : List ThreadId) :
    k.TidyThread t (ended u requesters joiners t info) := by
  have hended : k.TidyThread t
      (onThread u Thread.atEnd t (if t ∈ requesters then info.awake else info)) := by
    unfold onThread
    split
    · exact (h.awakeIf _).atEnd
    · exact h.awakeIf _
  unfold Kernel.ended
  dsimp only
  split
  · exact hended.withState (by decide)
  · exact hended

end TidyThread

theorem isNull_of_monitor? {k : Kernel} {o : Ref} {m : Monitor} (h : k.monitor? o = some m) :
    o.isNull = false := by
  obtain ⟨e, he, -⟩ := monitor?_eq_some.mp h
  obtain ⟨i, hi, -⟩ := Heap.get?_eq_some.mp he
  rw [Bool.eq_false_iff]
  intro hn
  rw [(Ref.index?_eq_none_iff o).mpr hn] at hi
  cases hi

theorem holds_of_lockObject {k : Kernel} {o : Ref} {m : Monitor} {info : Thread}
    (hm : k.monitor? o = some m) (ho : info.lockObject = some o) : info.Holds o :=
  ⟨isNull_of_monitor? hm, .inr (.inl ho)⟩

namespace Tidy

variable {k k' : Kernel} {op : Op}

theorem touch {f : ThreadId → Thread → Thread} {g : Ref → Monitor → Monitor} (h : k.Touch k' f g)
    (hf : ∀ t info, k.threads.get? t = some info → k.TidyThread t (f t info))
    (hg : ∀ o m, k.monitor? o = some m → (g o m).Tidy) : k'.Tidy where
  monitors := by
    intro o m' ho
    obtain ⟨m, hm, rfl⟩ := h.of_monitor ho
    exact hg o m hm
  threads := by
    intro t info' ht
    obtain ⟨info, hinfo, rfl⟩ := h.of_thread ht
    have hthread := hf t info hinfo
    refine ⟨hthread.id, hthread.lockedObjects, ?_⟩
    intro o ho
    obtain ⟨hstate, hlive⟩ := hthread.lockObject o ho
    refine ⟨hstate, ?_⟩
    rw [h.monitors, Option.isSome_map]
    exact hlive

variable (hk : k.Tidy)

include hk

theorem onThread {t : ThreadId} {f : Thread → Thread}
    (hf : ∀ info, k.threads.get? t = some info → k.TidyThread t (f info)) (u : ThreadId) (info : Thread)
    (hu : k.threads.get? u = some info) : k.TidyThread u (Kernel.onThread t f u info) := by
  unfold Kernel.onThread
  split
  · next htu =>
    subst htu
    exact hf info hu
  · exact hk.threads u info hu

theorem onObject {o : Ref} {g : Monitor → Monitor}
    (hg : ∀ m, k.monitor? o = some m → (g m).Tidy) (o' : Ref) (m : Monitor)
    (ho' : k.monitor? o' = some m) : (Kernel.onObject o g o' m).Tidy := by
  unfold Kernel.onObject
  split
  · next hoo =>
    subst hoo
    exact hg m ho'
  · exact hk.monitors o' m ho'

theorem turn (h : k.Turn op k') : k'.Tidy := by
  cases h with
  | still _ h => exact touch h hk.threads hk.monitors
  | proceed _ ht hf h =>
    refine touch h (hk.onThread fun info hinfo => ?_) hk.monitors
    rw [ht] at hinfo
    cases hinfo
    exact (hk.threads _ _ ht).proceeds hf
  | enter _ ht _ _ h =>
    exact touch h (hk.onThread fun info hinfo => (hk.threads _ info hinfo).entered _)
      (hk.onObject fun m hm => (hk.monitors _ m hm).enter (by omega) _)
  | block _ ht ho _ h =>
    exact touch h (hk.onThread fun info hinfo => (hk.threads _ info hinfo).queue (by simp [ho]) (by decide))
      (hk.onObject fun m hm => (hk.monitors _ m hm).addRequest _)
  | leave _ ho _ hcount h =>
    refine touch h hk.threads (hk.onObject fun m hm => ?_)
    rw [ho] at hm
    cases hm
    exact (hk.monitors _ _ ho).leave hcount
  | release _ _ _ h =>
    refine touch h (fun u info hu => ?_) (hk.onObject fun m hm => (hk.monitors _ m hm).release)
    exact (hk.onThread (fun info hinfo => (hk.threads _ info hinfo).removeLocked _) u info hu).awakeIf _
  | @wait t o m s _ hs ho _ h =>
    refine touch h (fun u info hu => ?_)
      (hk.onObject fun m hm => (hk.monitors _ m hm).release.addWaiter _)
    refine (hk.onThread (fun info hinfo => ?_) u info hu).awakeIf _
    have hqueued := ((hk.threads t info hinfo).removeLocked o).queue (o := o) (by simp [ho])
      (ThreadState.ne_terminated_of_isWaiting hs)
    exact ⟨hqueued.id, hqueued.lockedObjects, hqueued.lockObject⟩
  | expire _ _ _ _ _ hs h =>
    refine touch h (hk.onThread fun info hinfo => ?_)
      (hk.onObject fun m hm => (hk.monitors _ m hm).roused (.single m _))
    have hstate := (hk.threads _ info hinfo).withState (s := _) (by
      rcases hs with hs | ⟨rfl, -⟩
      · exact ThreadState.ne_terminated_of_isFree hs
      · decide)
    exact ⟨hstate.id, hstate.lockedObjects, hstate.lockObject⟩
  | notify _ _ _ _ hg h =>
    refine touch h (fun u info hu => ?_) (hk.onObject fun m hm => (hk.monitors _ m hm).roused (hg m))
    split
    · exact (hk.threads u info hu).withState (by decide)
    · exact hk.threads u info hu
  | finish _ _ _ _ hg h =>
    refine touch h (fun u info hu => (hk.threads u info hu).ended ..) (fun o m hm => ?_)
    refine Monitor.Tidy.roused ?_ (hg o m)
    split
    · exact (hk.monitors o m hm).release
    · exact hk.monitors o m hm

theorem spares (h : k.Spares k') : k'.Tidy where
  monitors := by
    intro o m ho
    rcases h.monitors o m ho with ho | ⟨-, rfl⟩
    · exact hk.monitors o m ho
    · exact .fresh
  threads := by
    intro t info ht
    rcases h.newThreads t info ht with ht | ⟨-, hnew⟩
    · have hthread := hk.threads t info ht
      refine ⟨hthread.id, hthread.lockedObjects, ?_⟩
      intro o ho
      obtain ⟨hstate, hlive⟩ := hthread.lockObject o ho
      obtain ⟨m, hm⟩ := Option.isSome_iff_exists.mp hlive
      refine ⟨hstate, ?_⟩
      rw [h.held t info ht hstate o (holds_of_lockObject hm ho) m hm]
      rfl
    · refine ⟨hnew.id, by simp [hnew.lockedObjects], ?_⟩
      intro o ho
      rw [hnew.lockObject] at ho
      cases ho

theorem lockObject_live {t : ThreadId} {info : Thread} (ht : k.threads.get? t = some info) (o : Ref)
    (ho : info.lockObject = some o) : (k.heap.get? o).isSome := by
  rw [← isSome_monitor?]
  exact ((hk.threads t info ht).lockObject o ho).2

omit hk in
theorem empty (hthreads : ∀ t, k.threads.get? t = none) (hmonitors : ∀ o, k.monitor? o = none) :
    k.Tidy where
  monitors := by simp [hmonitors]
  threads := by simp [hthreads]

end Tidy

theorem perform_induction {k k' : Kernel} {op : Op} {motive : Kernel → Prop} (howned : k.Owned)
    (htidy : k.Tidy) (h : k.perform op = .ok k') (turn : k.Turn op k' → motive k → motive k')
    (spares : ∀ k k', k.Owned → k.Spares k' → motive k → motive k') (hk : motive k) : motive k' := by
  cases hs : op.stirs with
  | true => exact turn ((turns_of_perform howned (fun _ _ => htidy.lockObject_live) hs h).turn h) hk
  | false => exact (@perform_grows False _ _ _ hs h False.elim False.elim).spares howned spares hk

theorem Tidy.perform {k k' : Kernel} {op : Op} (hk : k.Tidy) (howned : k.Owned)
    (h : k.perform op = .ok k') : k'.Tidy :=
  perform_induction howned hk h (fun h hk => hk.turn h) (fun _ _ _ h hk => hk.spares h) hk

theorem Built.tidy {ok : Kernel → Op → Prop} {k : Kernel} (h : Built ok k) : k.Tidy := by
  induction h with
  | start limit observers => exact .empty (fun _ => rfl) (monitor?_start limit observers)
  | perform hk _ h ih => exact ih.perform (.built hk) h
  | adopt _ _ _ ih _ => exact ih.spares (.adopt _ _)
  | restore _ _ _ _ ih => exact ih.spares (.restore _ _)

theorem Built.invariant {ok : Kernel → Op → Prop} {motive : Kernel → Prop}
    (empty : ∀ k : Kernel, (∀ t, k.threads.get? t = none) → (∀ o, k.monitor? o = none) → motive k)
    (turn : ∀ k op k', k.Owned → k.Tidy → ok k op → k.Turn op k' → motive k → motive k')
    (spares : ∀ k k', k.Owned → k.Spares k' → motive k → motive k') {k : Kernel} (h : Built ok k) :
    motive k := by
  induction h with
  | start limit observers => exact empty _ (fun _ => rfl) (monitor?_start limit observers)
  | perform hk hop h ih =>
    exact perform_induction (.built hk) hk.tidy h (turn _ _ _ (.built hk) hk.tidy hop) spares ih
  | adopt hk _ _ ih _ => exact spares _ _ (.built hk) (.adopt _ _) ih
  | restore _ hother _ _ ih => exact spares _ _ (.built hother) (.restore _ _) ih

theorem Runs.invariant {ok : Kernel → Op → Prop} {motive : Kernel → Prop}
    (turn : ∀ k op k', k.Owned → k.Tidy → ok k op → k.Turn op k' → motive k → motive k')
    (spares : ∀ k k', k.Owned → k.Spares k' → motive k → motive k') {k k' : Kernel} (howned : k.Owned)
    (htidy : k.Tidy) (hk : motive k) (h : Runs ok k k') : k'.Owned ∧ k'.Tidy ∧ motive k' := by
  induction h with
  | refl => exact ⟨howned, htidy, hk⟩
  | perform _ hop h ih =>
    obtain ⟨howned, htidy, hk⟩ := ih
    exact ⟨howned.perform h, htidy.perform howned h,
      perform_induction howned htidy h (turn _ _ _ howned htidy hop) spares hk⟩
  | adopt _ _ ih =>
    obtain ⟨howned, htidy, hk⟩ := ih
    exact ⟨⟨howned.owner, howned.live, howned.ended, howned.members⟩, htidy.spares (.adopt _ _),
      spares _ _ howned (.adopt _ _) hk⟩

structure Coherent (k : Kernel) : Prop where
  owner : ∀ o m, k.monitor? o = some m → ∀ t info, k.threads.get? t = some info →
    (m.owner = some t ↔ o ∈ info.lockedObjects) ∧
      (o ∈ info.lockedObjects → info.lockedObjects.count o = 1)
  known : ∀ o m t, k.monitor? o = some m → m.owner = some t → (k.threads.get? t).isSome = true
  count : ∀ o m, k.monitor? o = some m → (0 < m.count ↔ m.owner.isSome = true)
  live : ∀ t info, k.threads.get? t = some info → ∀ o ∈ info.lockedObjects, (k.monitor? o).isSome = true
  queues : ∀ o m, k.monitor? o = some m → m.waiters.Nodup ∧ m.requests.Nodup
  ended : ∀ t info, k.threads.get? t = some info → info.state = .terminated →
    info.lockedObjects = [] ∧ ∀ o m, k.monitor? o = some m → m.owner ≠ some t

theorem owner_iff {k : Kernel} (hk : k.Owned) {o : Ref} {m : Monitor} (ho : k.monitor? o = some m)
    {t : ThreadId} {info : Thread} (ht : k.threads.get? t = some info) :
    m.owner = some t ↔ o ∈ info.lockedObjects := by
  obtain ⟨e, he, rfl⟩ := monitor?_eq_some.mp ho
  rw [hk.owner o e he]
  constructor
  · intro ⟨info', ht', ho⟩
    rw [ht] at ht'
    cases ht'
    exact ho
  · intro ho
    exact ⟨info, ht, ho⟩

/-- Whatever is done to a state, ownership stays coherent. -/
theorem Built.coherent {ok : Kernel → Op → Prop} {k : Kernel} (h : Built ok k) : k.Coherent := by
  have howned := Owned.built h
  have htidy := h.tidy
  constructor
  case owner =>
    intro o m ho t info ht
    refine ⟨owner_iff howned ho ht, ?_⟩
    exact List.count_eq_one_of_mem (htidy.threads t info ht).lockedObjects
  case known =>
    intro o m t ho howner
    obtain ⟨e, he, rfl⟩ := monitor?_eq_some.mp ho
    exact howned.owner_known he howner
  case count => exact fun o m ho => (htidy.monitors o m ho).count
  case live =>
    intro t info ht o ho
    rw [isSome_monitor?]
    exact howned.live t info ht o ho
  case queues => exact fun o m ho => ⟨(htidy.monitors o m ho).waiters, (htidy.monitors o m ho).requests⟩
  case ended =>
    intro t info ht hstate
    have hempty := howned.ended t info ht hstate
    refine ⟨hempty, ?_⟩
    intro o m ho howner
    rw [owner_iff howned ho ht, hempty] at howner
    cases howner

def contended : Kernel :=
  (withLimit none).performAll [.newArray .int 1 none none, .createThread "a" none none,
    .createThread "b" none none, .createThread "c" none none, .start 0 (.fresh 0 1),
    .start 1 (.fresh 0 1), .start 2 (.fresh 0 1), .lock 1 ⟨0⟩, .wait 1 ⟨0⟩, .lock 0 ⟨0⟩, .lock 0 ⟨0⟩,
    .lock 2 ⟨0⟩]

theorem coherent_contended :
    contended.monitor? ⟨0⟩ = some { owner := some 0, count := 2, waiters := [1], requests := [2] } ∧
      Built (fun _ _ => True) contended ∧ contended.Coherent := by
  have hbuilt : Built (fun _ _ => True) contended := (Built.start none {}).performAll (by simp)
  exact ⟨by decide +kernel, hbuilt, hbuilt.coherent⟩

end Kernel

end Interleave
