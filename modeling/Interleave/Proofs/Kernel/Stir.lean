import Interleave.Proofs.Kernel.Operation
import Mathlib.Logic.Relation

/-!
Operations that only stir: they change threads, monitors and the atomic section, and leave alone
which objects, threads and classes there are and what their slots hold.
-/

namespace Interleave

theorem Roster.get?_put (r : Roster) (t u : ThreadId) (info : Thread) :
    (r.put t info).get? u = if t = u then (r.get? u).map fun _ => info else r.get? u := by
  unfold get? put
  rw [Array.getElem?_setIfInBounds]
  split
  · split
    · next hut hlt =>
      subst hut
      rw [Array.getElem?_eq_getElem hlt]
      rfl
    · next hut hlt =>
      subst hut
      rw [Array.getElem?_eq_none (Nat.le_of_not_lt hlt)]
      rfl
  · rfl

theorem Roster.get?_push (r : Roster) (info : Thread) (epoch : Nat) (t : ThreadId) :
    (Roster.mk (r.threads.push info) epoch).get? t = if t = r.size then some info else r.get? t :=
  Array.getElem?_push

theorem Roster.mem_toList_of_get? {r : Roster} {t : ThreadId} {info : Thread} (h : r.get? t = some info) :
    info ∈ r.toList := by
  unfold get? at h
  rw [← Array.getElem?_toList] at h
  exact List.mem_of_getElem? h

def Event.subject? : Event → Option Ref
  | .created _ o | .released o _ => some o
  | _ => none

structure Thread.Calm (info info' : Thread) : Prop where
  gid : info'.gid = info.gid
  lockedObjects : info'.lockedObjects = info.lockedObjects
  ended : info'.state = .terminated → info.state = .terminated

theorem Thread.Calm.refl (info : Thread) : info.Calm info := ⟨rfl, rfl, fun h => h⟩

def Monitor.members (m : Monitor) : List ThreadId := m.waiters ++ m.requests

namespace Monitor

theorem owner_addRequest (m : Monitor) (t : ThreadId) : (m.addRequest t).owner = m.owner := by
  unfold addRequest
  split <;> rfl

theorem waiters_addRequest (m : Monitor) (t : ThreadId) : (m.addRequest t).waiters = m.waiters := by
  unfold addRequest
  split <;> rfl

theorem of_mem_members_addRequest {m : Monitor} {t u : ThreadId} (h : u ∈ (m.addRequest t).members) :
    u ∈ m.members ∨ u = t := by
  unfold addRequest at h
  split at h
  · exact .inl h
  · simp only [members, List.mem_append, List.mem_singleton] at h ⊢
    rw [or_assoc]
    exact h

theorem of_mem_members_removeWaiter {m : Monitor} {t u : ThreadId}
    (h : u ∈ (m.removeWaiter t).members) : u ∈ m.members := by
  simp only [members, removeWaiter, List.mem_append, List.mem_filter] at h ⊢
  exact h.imp_left And.left

theorem requests_addWaiter (m : Monitor) (t : ThreadId) : (m.addWaiter t).requests = m.requests := by
  unfold addWaiter
  split <;> rfl

theorem owner_addWaiter (m : Monitor) (t : ThreadId) : (m.addWaiter t).owner = m.owner := by
  unfold addWaiter
  split <;> rfl

theorem of_mem_members_addWaiter {m : Monitor} {t u : ThreadId} (h : u ∈ (m.addWaiter t).members) :
    u ∈ m.members ∨ u = t := by
  unfold addWaiter at h
  split at h
  · exact .inl h
  · simp only [members, List.mem_append, List.mem_singleton] at h ⊢
    rw [or_right_comm]
    exact h

theorem of_mem_members_enter {m : Monitor} {t u : ThreadId} {n : Nat}
    (h : u ∈ (m.enter t n).members) : u ∈ m.members := by
  simp only [members, enter, List.mem_append, List.mem_filter] at h ⊢
  exact h.imp_right And.left

theorem owner_exit (m : Monitor) : m.exit.2.owner = if m.count ≤ 1 then none else m.owner := by
  unfold exit
  split <;> rfl

theorem members_exit (m : Monitor) : m.exit.2.members = m.members := by
  unfold exit
  split <;> rfl

end Monitor

namespace Kernel

def CalmMonitor (k : Kernel) (m m' : Monitor) : Prop :=
  m'.owner = m.owner ∧ ∀ t ∈ m'.members, t ∈ m.members ∨ (k.threads.get? t).isSome

theorem CalmMonitor.refl (k : Kernel) (m : Monitor) : k.CalmMonitor m m := ⟨rfl, fun _ => .inl⟩

inductive Stir (calm : Prop) (k : Kernel) : Kernel → Prop where
  | tell (e : Event) (he : e.subject? = none) : Stir calm k (k.tell e)
  | thread {t : ThreadId} {info : Thread} (f : Thread → Thread) (h : k.threads.get? t = some info)
    (hgid : (f info).gid = info.gid) (hcalm : calm → info.Calm (f info)) :
    Stir calm k { k with threads := k.threads.put t (f info) }
  | monitor {o : Ref} {e : Element} (f : Monitor → Monitor) (h : k.heap.get? o = some e)
    (hcalm : calm → k.CalmMonitor e.monitor (f e.monitor)) :
    Stir calm k { k with heap := k.heap.put o { e with monitor := f e.monitor } }
  | atomic (a : AtomicSection) : Stir calm k { k with atomic := a, atomicEpoch := k.atomicEpoch + 1 }

abbrev Stirs (calm : Prop) : Kernel → Kernel → Prop := Relation.ReflTransGen (Stir calm)

variable {calm : Prop}

theorem get_eq_ok {k : Kernel} {t : ThreadId} {info : Thread} :
    k.threads.get t = .ok info ↔ k.threads.get? t = some info := by
  unfold Roster.get
  cases k.threads.get? t <;> simp [pure, Except.pure, throw, throwThe, MonadExceptOf.throw]

theorem deref_eq_ok {h : Heap} {o : Ref} {e : Element} : h.deref o = .ok e ↔ h.get? o = some e := by
  unfold Heap.deref
  cases h.get? o <;> simp [pure, Except.pure, throw, throwThe, MonadExceptOf.throw]

theorem updateThread_eq_ok {k k' : Kernel} {t : ThreadId} {f : Thread → Thread} :
    k.updateThread t f = .ok k' ↔
      ∃ info, k.threads.get? t = some info ∧ k' = { k with threads := k.threads.put t (f info) } := by
  unfold updateThread Roster.update
  simp only [bind_eq_ok, get_eq_ok, pure, Except.pure, Except.ok.injEq]
  constructor
  · intro ⟨r, ⟨info, hinfo, hr⟩, hk⟩
    exact ⟨info, hinfo, by rw [← hk, ← hr]⟩
  · intro ⟨info, hinfo, hk⟩
    exact ⟨_, ⟨info, hinfo, rfl⟩, hk.symm⟩

theorem updateElement_eq_ok {k k' : Kernel} {o : Ref} {f : Element → Except Fault Element} :
    k.updateElement o f = .ok k' ↔
      ∃ e e', k.heap.get? o = some e ∧ f e = .ok e' ∧ k' = { k with heap := k.heap.put o e' } := by
  unfold updateElement Heap.update
  simp only [bind_eq_ok, deref_eq_ok, pure, Except.pure, Except.ok.injEq]
  constructor
  · intro ⟨h, ⟨e, he, e', he', hh⟩, hk⟩
    exact ⟨e, e', he, he', by rw [← hk, ← hh]⟩
  · intro ⟨e, e', he, he', hk⟩
    exact ⟨_, ⟨e, he, e', he', rfl⟩, hk.symm⟩

theorem updateMonitor_eq_ok {k k' : Kernel} {o : Ref} {f : Monitor → Monitor} :
    k.updateMonitor o f = .ok k' ↔
      ∃ e, k.heap.get? o = some e ∧
        k' = { k with heap := k.heap.put o { e with monitor := f e.monitor } } := by
  unfold updateMonitor
  rw [updateElement_eq_ok]
  constructor
  · intro ⟨e, e', he, he', hk⟩
    cases he'
    exact ⟨e, he, hk⟩
  · intro ⟨e, he, hk⟩
    exact ⟨e, _, he, rfl, hk⟩

theorem stirs_tell (k : Kernel) {e : Event} (he : e.subject? = none) : k.Stirs calm (k.tell e) :=
  .single (.tell e he)

theorem stirs_of_not_calm {k k' : Kernel} (h : k.Stirs False k') (hcalm : ¬ calm) :
    k.Stirs calm k' := by
  refine Relation.ReflTransGen.mono ?_ k k' h
  intro k₁ k₂ h
  cases h with
  | tell e he => exact .tell e he
  | thread f h hgid _ => exact .thread f h hgid fun hc => absurd hc hcalm
  | monitor f h _ => exact .monitor f h fun hc => absurd hc hcalm
  | atomic a => exact .atomic a

theorem stirs_updateThread {k k' : Kernel} {t : ThreadId} {f : Thread → Thread}
    (h : k.updateThread t f = .ok k') (hgid : ∀ info, (f info).gid = info.gid) : k.Stirs False k' := by
  obtain ⟨info, hinfo, rfl⟩ := updateThread_eq_ok.mp h
  exact .single (.thread f hinfo (hgid info) False.elim)

theorem stirs_updateMonitor {k k' : Kernel} {o : Ref} {f : Monitor → Monitor}
    (h : k.updateMonitor o f = .ok k') : k.Stirs False k' := by
  obtain ⟨e, he, rfl⟩ := updateMonitor_eq_ok.mp h
  exact .single (.monitor f he False.elim)

theorem stirs_calmThread {k k' : Kernel} {t : ThreadId} {f : Thread → Thread}
    (h : k.updateThread t f = .ok k') (hf : ∀ info : Thread, info.Calm (f info)) : k.Stirs calm k' := by
  obtain ⟨info, hinfo, rfl⟩ := updateThread_eq_ok.mp h
  exact .single (.thread f hinfo (hf info).gid fun _ => hf info)

theorem stirs_setState {k k' : Kernel} {t : ThreadId} {state : ThreadState}
    (h : k.setState t state = .ok k') (hstate : state ≠ .terminated) : k.Stirs calm k' := by
  unfold setState at h
  exact stirs_calmThread h fun _ => ⟨rfl, rfl, fun hs => absurd hs hstate⟩

theorem stirs_foldlM {α : Type} {f : Kernel → α → Except Fault Kernel} {l : List α} {k k' : Kernel}
    (hstep : ∀ k a k', f k a = .ok k' → k.Stirs calm k') (h : l.foldlM f k = .ok k') :
    k.Stirs calm k' := by
  apply foldlM_induction h .refl
  intro a _ k₁ k₂ hk₁ hk₂
  exact hk₁.trans (hstep _ _ _ hk₂)

theorem stirs_wake {k k' : Kernel} {t : ThreadId} (h : k.wake t = .ok k') : k.Stirs calm k' := by
  unfold wake at h
  apply stirs_calmThread h
  intro info
  split <;> exact ⟨rfl, rfl, by simp⟩

theorem stirs_wakeRequesters {k k' : Kernel} {o : Ref} (h : k.wakeRequesters o = .ok k') :
    k.Stirs calm k' := by
  unfold wakeRequesters at h
  obtain ⟨e, _, h⟩ := bind_eq_ok.mp h
  exact stirs_foldlM (fun _ _ _ => stirs_wake) h

theorem gid_addLocked (info : Thread) (o : Ref) : (info.addLocked o).gid = info.gid := by
  unfold Thread.addLocked
  split <;> rfl

theorem stirs_lock {k k' : Kernel} {t : ThreadId} {o : Ref} {r : LockOutcome}
    (h : k.lock t o = .ok (r, k')) : k.Stirs False k' := by
  unfold lock at h
  obtain ⟨e, _, h⟩ := bind_eq_ok.mp h
  split at h
  · simp only [bind_eq_ok] at h
    obtain ⟨_, _, k₁, h₁, k₂, h₂, h⟩ := h
    cases h
    exact ((stirs_updateThread h₁ fun info => gid_addLocked info o).trans
      (stirs_updateMonitor h₂)).trans (stirs_tell _ rfl)
  · simp only [bind_eq_ok] at h
    obtain ⟨k₁, h₁, k₂, h₂, h⟩ := h
    cases h
    exact ((stirs_updateMonitor h₁).trans (stirs_updateThread h₂ fun _ => rfl)).trans
      (stirs_tell _ rfl)

theorem stirs_unlock {k k' : Kernel} {t : ThreadId} {o : Ref} {r : Except KernelError Bool}
    (h : k.unlock t o = .ok (r, k')) : k.Stirs False k' := by
  unfold unlock at h
  obtain ⟨owns, _, h⟩ := bind_eq_ok.mp h
  split at h
  · cases h
    exact .refl
  · obtain ⟨e, _, h⟩ := bind_eq_ok.mp h
    obtain ⟨k₁, h₁, h⟩ := bind_eq_ok.mp h
    apply (stirs_updateMonitor h₁).trans
    split at h
    · simp only [bind_eq_ok] at h
      obtain ⟨k₂, h₂, k₃, h₃, h⟩ := h
      cases h
      exact ((stirs_updateThread h₂ fun _ => rfl).trans (stirs_wakeRequesters h₃)).trans
        (stirs_tell _ rfl)
    · cases h
      exact stirs_tell _ rfl

theorem stirs_enterWait {k k' : Kernel} {t : ThreadId} {o : Ref} {state : ThreadState}
    {r : Except KernelError Unit} (h : k.enterWait t o state = .ok (r, k')) : k.Stirs False k' := by
  unfold enterWait at h
  obtain ⟨owns, _, h⟩ := bind_eq_ok.mp h
  split at h
  · cases h
    exact .refl
  · simp only [bind_eq_ok] at h
    obtain ⟨e, _, k₁, h₁, k₂, h₂, k₃, h₃, h⟩ := h
    cases h
    exact ((((stirs_updateMonitor h₁).trans (stirs_updateThread h₂ fun _ => rfl)).trans
      (stirs_wakeRequesters h₃)).trans (stirs_tell _ rfl)).trans (stirs_tell _ rfl)

theorem stirs_stopWaiting {k k' : Kernel} {t : ThreadId} {o : Ref}
    (h : k.stopWaiting t o = .ok k') (ht : (k.threads.get? t).isSome) : k.Stirs calm k' := by
  obtain ⟨e, he, rfl⟩ := updateMonitor_eq_ok.mp h
  refine .single (.monitor (fun m => (m.removeWaiter t).addRequest t) he fun _ => ⟨?_, ?_⟩)
  · rw [Monitor.owner_addRequest]
    rfl
  · intro u hu
    rcases Monitor.of_mem_members_addRequest hu with hu | rfl
    · exact .inl (Monitor.of_mem_members_removeWaiter hu)
    · exact .inr ht

theorem isSome_get? {k k' : Kernel} (h : k.Stirs calm k') {t : ThreadId}
    (ht : (k.threads.get? t).isSome) : (k'.threads.get? t).isSome := by
  induction h with
  | refl => exact ht
  | tail _ h ih =>
    cases h with
    | thread f h =>
      rw [Roster.get?_put]
      split
      · simpa using ih
      · exact ih
    | _ => exact ih

theorem stirs_timeOut {k k' : Kernel} {t : ThreadId} {r : Bool} (h : k.timeOut t = .ok (r, k')) :
    k.Stirs calm k' := by
  unfold timeOut at h
  obtain ⟨info, hinfo, h⟩ := bind_eq_ok.mp h
  split at h
  · cases h
    exact .refl
  · split at h
    · simp only [bind_eq_ok] at h
      obtain ⟨k₁, h₁, k₂, h₂, h⟩ := h
      cases h
      have ht : (k.threads.get? t).isSome := by simp [get_eq_ok.mp hinfo]
      exact (stirs_stopWaiting h₁ ht).trans (stirs_setState h₂ (by decide))
    · cases h
      exact .refl

theorem stirs_notifyThread {k k' : Kernel} {t waiter : ThreadId} {o : Ref}
    {r : Except KernelError Bool} (h : k.notifyThread t o waiter = .ok (r, k')) : k.Stirs calm k' := by
  unfold notifyThread at h
  obtain ⟨owns, _, h⟩ := bind_eq_ok.mp h
  split at h
  · cases h
    exact .refl
  · obtain ⟨e, _, h⟩ := bind_eq_ok.mp h
    split at h
    · simp only [bind_eq_ok] at h
      obtain ⟨k₁, h₁, k₂, h₂, h⟩ := h
      cases h
      have hwaiter : (k.threads.get? waiter).isSome := by
        obtain ⟨info, hinfo, _⟩ := updateThread_eq_ok.mp h₂
        obtain ⟨_, _, rfl⟩ := updateMonitor_eq_ok.mp h₁
        simp [hinfo]
      exact ((stirs_stopWaiting h₁ hwaiter).trans (stirs_setState h₂ (by decide))).trans (stirs_tell _ rfl)
    · obtain ⟨k₁, h₁, h⟩ := bind_eq_ok.mp h
      cases h
      obtain ⟨e, he, rfl⟩ := updateMonitor_eq_ok.mp h₁
      exact .single (.monitor id he fun _ => .refl k _)

theorem stirs_notify {k k' : Kernel} {t : ThreadId} {o : Ref}
    {r : Except KernelError (Option ThreadId)} (h : k.notify t o = .ok (r, k')) : k.Stirs calm k' := by
  unfold notify at h
  obtain ⟨owns, _, h⟩ := bind_eq_ok.mp h
  split at h
  · cases h
    exact .refl
  · obtain ⟨e, _, h⟩ := bind_eq_ok.mp h
    split at h
    · cases h
      exact .refl
    · obtain ⟨⟨r₁, k₁⟩, h₁, h⟩ := bind_eq_ok.mp h
      cases r₁ <;> cases h <;> exact stirs_notifyThread h₁

theorem stirs_notifyEach {k k' : Kernel} {t : ThreadId} {o : Ref} {l : List ThreadId}
    {r : Except KernelError Unit} (h : k.notifyEach t o l = .ok (r, k')) : k.Stirs calm k' := by
  induction l generalizing k with
  | nil =>
    cases h
    exact .refl
  | cons waiter l ih =>
    unfold notifyEach at h
    obtain ⟨⟨r₁, k₁⟩, h₁, h⟩ := bind_eq_ok.mp h
    cases r₁ with
    | error e =>
      cases h
      exact stirs_notifyThread h₁
    | ok _ => exact (stirs_notifyThread h₁).trans (ih h)

theorem stirs_notifyAll {k k' : Kernel} {t : ThreadId} {o : Ref} {r : Except KernelError Nat}
    (h : k.notifyAll t o = .ok (r, k')) : k.Stirs calm k' := by
  unfold notifyAll at h
  obtain ⟨owns, _, h⟩ := bind_eq_ok.mp h
  split at h
  · cases h
    exact .refl
  · obtain ⟨e, _, h⟩ := bind_eq_ok.mp h
    obtain ⟨⟨r₁, k₁⟩, h₁, h⟩ := bind_eq_ok.mp h
    cases r₁ <;> cases h <;> exact stirs_notifyEach h₁

theorem stirs_park {k k' : Kernel} {t : ThreadId} (h : k.park t = .ok k') : k.Stirs calm k' := by
  unfold park at h
  apply stirs_calmThread h
  intro info
  split
  · exact ⟨rfl, rfl, id⟩
  · split
    · exact .refl info
    · exact ⟨rfl, rfl, by simp⟩

theorem stirs_unpark {k k' : Kernel} {t : ThreadId} {r : Bool} (h : k.unpark t = .ok (r, k')) :
    k.Stirs calm k' := by
  unfold unpark at h
  simp only [bind_eq_ok] at h
  obtain ⟨_, _, k₁, h₁, h⟩ := h
  cases h
  apply stirs_calmThread h₁
  intro info
  split
  · exact ⟨rfl, rfl, by simp⟩
  · split
    · exact ⟨rfl, rfl, id⟩
    · exact .refl info

theorem stirs_interrupt {k k' : Kernel} {t : ThreadId} (h : k.interrupt t = .ok k') :
    k.Stirs calm k' := by
  have hflag : ∀ {k₁}, k.updateThread t ({ · with interrupted := true }) = .ok k₁ →
      k.Stirs calm k₁ := fun h₁ => stirs_calmThread h₁ fun _ => ⟨rfl, rfl, id⟩
  have hleave : ∀ {k₁ k₂ o} {free : Bool},
      k.updateThread t ({ · with interrupted := true }) = .ok k₁ → k₁.stopWaiting t o = .ok k₂ →
      k₂.setState t (if free then .unblocked else .interrupted) = .ok k' → k.Stirs calm k' := by
    intro k₁ k₂ o free h₁ h₂ h₃
    have ht : (k₁.threads.get? t).isSome := by
      obtain ⟨info, hinfo, _⟩ := updateThread_eq_ok.mp h₁
      exact isSome_get? (hflag h₁) (by simp [hinfo])
    exact ((hflag h₁).trans (stirs_stopWaiting h₂ ht)).trans
      (stirs_setState h₃ (by split <;> decide))
  unfold interrupt at h
  obtain ⟨info, _, h⟩ := bind_eq_ok.mp h
  split at h
  iterate 2
    · obtain ⟨k₁, h₁, h⟩ := bind_eq_ok.mp h
      split at h
      · cases h
        exact hflag h₁
      · simp only [bind_eq_ok] at h
        obtain ⟨k₂, h₂, _, _, h₃⟩ := h
        exact hleave h₁ h₂ h₃
  · exact stirs_calmThread h fun _ => ⟨rfl, rfl, by simp⟩
  · exact stirs_calmThread h fun _ => ⟨rfl, rfl, by simp⟩
  · exact stirs_calmThread h fun _ => ⟨rfl, rfl, id⟩

theorem stirs_startThread {k k' : Kernel} {t : ThreadId} {frame : Frame}
    {r : Except KernelError Unit} (h : k.startThread t frame = .ok (r, k')) : k.Stirs calm k' := by
  unfold startThread at h
  obtain ⟨info, _, h⟩ := bind_eq_ok.mp h
  dsimp only at h
  split at h
  · obtain ⟨k₁, h₁, h⟩ := bind_eq_ok.mp h
    cases h
    exact ((stirs_calmThread h₁ fun _ => ⟨rfl, rfl, by simp⟩).trans (stirs_tell _ rfl)).trans
      (stirs_tell _ rfl)
  · cases h
    exact .refl

theorem stirs_enterMethod {k k' : Kernel} {t : ThreadId} {frame : Frame}
    {r : Except KernelError Unit} (h : k.enterMethod t frame = .ok (r, k')) : k.Stirs calm k' := by
  unfold enterMethod at h
  obtain ⟨info, _, h⟩ := bind_eq_ok.mp h
  split at h
  · obtain ⟨k₁, h₁, h⟩ := bind_eq_ok.mp h
    cases h
    exact (stirs_calmThread h₁ fun _ => ⟨rfl, rfl, id⟩).trans (stirs_tell _ rfl)
  · obtain ⟨k₁, h₁, h⟩ := bind_eq_ok.mp h
    cases h
    exact stirs_calmThread h₁ .refl

theorem stirs_exitMethod {k k' : Kernel} {t : ThreadId} {r : Option Frame}
    (h : k.exitMethod t = .ok (r, k')) : k.Stirs calm k' := by
  unfold exitMethod at h
  obtain ⟨info, _, h⟩ := bind_eq_ok.mp h
  obtain ⟨k₁, h₁, h⟩ := bind_eq_ok.mp h
  apply (stirs_calmThread h₁ fun _ => ⟨rfl, rfl, id⟩).trans
  split at h
  · cases h
    exact .refl
  · cases h
    exact stirs_tell _ rfl

theorem stirs_instructionExecuted {k k' : Kernel} {t : ThreadId}
    (h : k.instructionExecuted t = .ok k') : k.Stirs calm k' := by
  unfold instructionExecuted at h
  obtain ⟨info, _, h⟩ := bind_eq_ok.mp h
  split at h
  · cases h
    exact .refl
  · cases h
    exact stirs_tell _ rfl

theorem stirs_releaseHeld {k k' : Kernel} {t : ThreadId} {o : Ref}
    (h : releaseHeld t k o = .ok k') : k.Stirs False k' := by
  unfold releaseHeld at h
  simp only [bind_eq_ok] at h
  obtain ⟨k₁, h₁, k₂, h₂, h⟩ := h
  cases h
  exact ((stirs_updateMonitor h₁).trans (stirs_wakeRequesters h₂)).trans (stirs_tell _ rfl)

theorem stirs_wakeJoiner {k k' : Kernel} {joiner : ThreadId} {o : Ref}
    (h : wakeJoiner o k joiner = .ok k') : k.Stirs False k' := by
  unfold wakeJoiner at h
  simp only [bind_eq_ok] at h
  obtain ⟨k₁, h₁, k₂, h₂, k₃, h₃, h⟩ := h
  cases h
  exact (((stirs_updateMonitor h₁).trans (stirs_updateMonitor h₂)).trans
    (stirs_setState h₃ (by decide))).trans (stirs_tell _ rfl)

theorem stirs_terminateThread {k k' : Kernel} {t : ThreadId} {r : Except KernelError Unit}
    (h : k.terminateThread t = .ok (r, k')) : k.Stirs False k' := by
  unfold terminateThread at h
  obtain ⟨info, _, h⟩ := bind_eq_ok.mp h
  split at h
  · cases h
    exact .refl
  · simp only [bind_eq_ok] at h
    obtain ⟨k₁, h₁, k₂, h₂, e, _, k₃, h₃, h⟩ := h
    cases h
    have hfreed := stirs_foldlM (fun _ _ _ => stirs_releaseHeld) h₁
    have hended := stirs_updateThread h₂ fun _ => rfl
    have hjoined := stirs_foldlM (fun _ _ _ => stirs_wakeJoiner) h₃
    apply ((hfreed.trans hended).trans hjoined).trans
    split
    · exact (Relation.ReflTransGen.single (.atomic {})).trans (stirs_tell _ rfl)
    · exact stirs_tell _ rfl

theorem stirs_endSleep {k k' : Kernel} {t : ThreadId} (h : k.endSleep t = .ok k') : k.Stirs calm k' := by
  unfold endSleep at h
  apply stirs_calmThread h
  intro info
  split
  · exact ⟨rfl, rfl, by simp⟩
  · exact .refl info

theorem stirs_beginAtomic (k : Kernel) (t : ThreadId) : k.Stirs calm (k.beginAtomic t) :=
  .single (.atomic _)

theorem stirs_endAtomic (k : Kernel) (t : ThreadId) : k.Stirs calm (k.endAtomic t).2 := by
  unfold endAtomic
  split
  · exact .single (.atomic _)
  · exact .refl

theorem stirs_setBlockedInAtomic (k : Kernel) : k.Stirs calm k.setBlockedInAtomic := by
  unfold setBlockedInAtomic
  split
  · exact .refl
  · exact .single (.atomic _)

theorem stirs_setFrame {k k' : Kernel} {t : ThreadId} {frame : Frame}
    (h : k.perform (.setFrame t frame) = .ok k') : k.Stirs calm k' := by
  apply stirs_calmThread h
  intro info
  split
  · exact .refl info
  · exact ⟨rfl, rfl, id⟩

end Kernel

def Op.stirs : Op → Bool
  | .start .. | .enter .. | .exit _ | .executed _ | .setFrame .. | .setPriority .. | .setDaemon ..
  | .sleep _ | .endSleep _ | .suspend _ | .resume _ | .terminate _ | .lock .. | .unlock .. | .wait ..
  | .timedWait .. | .timeOut _ | .notifyThread .. | .notify .. | .notifyAll .. | .park _ | .unpark _
  | .interrupt _ | .beginAtomic _ | .endAtomic _ | .setBlockedInAtomic => true
  | .tell e => e.subject?.isNone
  | _ => false

def Op.changesOwners : Op → Bool
  | .lock .. | .unlock .. | .wait .. | .timedWait .. | .terminate _ => true
  | _ => false

theorem Kernel.perform_stirs {calm : Prop} {k k' : Kernel} {op : Op} (hop : op.stirs = true)
    (hcalm : calm → op.changesOwners = false) (h : k.perform op = .ok k') : k.Stirs calm k' := by
  cases op with
  | start t frame =>
    obtain ⟨r, h⟩ := snd_eq_ok.mp h
    exact stirs_startThread h
  | enter t frame =>
    obtain ⟨r, h⟩ := snd_eq_ok.mp h
    exact stirs_enterMethod h
  | exit t =>
    obtain ⟨r, h⟩ := snd_eq_ok.mp h
    exact stirs_exitMethod h
  | executed t => exact stirs_instructionExecuted h
  | setFrame t frame => exact stirs_setFrame h
  | setPriority t priority => exact stirs_calmThread h fun _ => ⟨rfl, rfl, id⟩
  | setDaemon t daemon => exact stirs_calmThread h fun _ => ⟨rfl, rfl, id⟩
  | sleep t => exact stirs_setState h (by decide)
  | endSleep t => exact stirs_endSleep h
  | suspend t => exact stirs_calmThread h fun _ => ⟨rfl, rfl, id⟩
  | resume t => exact stirs_calmThread h fun _ => ⟨rfl, rfl, id⟩
  | terminate t =>
    obtain ⟨r, h⟩ := snd_eq_ok.mp h
    exact stirs_of_not_calm (stirs_terminateThread h) fun hc => absurd (hcalm hc) (by simp [Op.changesOwners])
  | lock t o =>
    obtain ⟨r, h⟩ := snd_eq_ok.mp h
    exact stirs_of_not_calm (stirs_lock h) fun hc => absurd (hcalm hc) (by simp [Op.changesOwners])
  | unlock t o =>
    obtain ⟨r, h⟩ := snd_eq_ok.mp h
    exact stirs_of_not_calm (stirs_unlock h) fun hc => absurd (hcalm hc) (by simp [Op.changesOwners])
  | wait t o =>
    obtain ⟨r, h⟩ := snd_eq_ok.mp h
    exact stirs_of_not_calm (stirs_enterWait h) fun hc => absurd (hcalm hc) (by simp [Op.changesOwners])
  | timedWait t o =>
    obtain ⟨r, h⟩ := snd_eq_ok.mp h
    exact stirs_of_not_calm (stirs_enterWait h) fun hc => absurd (hcalm hc) (by simp [Op.changesOwners])
  | timeOut t =>
    obtain ⟨r, h⟩ := snd_eq_ok.mp h
    exact stirs_timeOut h
  | notifyThread t o waiter =>
    obtain ⟨r, h⟩ := snd_eq_ok.mp h
    exact stirs_notifyThread h
  | notify t o =>
    obtain ⟨r, h⟩ := snd_eq_ok.mp h
    exact stirs_notify h
  | notifyAll t o =>
    obtain ⟨r, h⟩ := snd_eq_ok.mp h
    exact stirs_notifyAll h
  | park t => exact stirs_park h
  | unpark t =>
    obtain ⟨r, h⟩ := snd_eq_ok.mp h
    exact stirs_unpark h
  | interrupt t => exact stirs_interrupt h
  | beginAtomic t =>
    cases h
    exact stirs_beginAtomic k t
  | endAtomic t =>
    cases h
    exact stirs_endAtomic k t
  | setBlockedInAtomic =>
    cases h
    exact stirs_setBlockedInAtomic k
  | tell e =>
    cases h
    exact stirs_tell k (Option.isNone_iff_eq_none.mp hop)
  | _ => cases hop

end Interleave
