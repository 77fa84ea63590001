import Interleave.Proofs.Kernel.Grow
import Interleave.Proofs.Kernel.Sync

/-!
Who owns which monitor. Objects and threads agree on it, a thread owns monitors of live objects only and
none after its end, and whoever waits for a monitor or wants it is a thread of the state.
-/

namespace Interleave.Kernel

structure Owned (k : Kernel) : Prop where
  owner : ∀ o e, k.heap.get? o = some e → ∀ t,
    e.monitor.owner = some t ↔ ∃ info, k.threads.get? t = some info ∧ o ∈ info.lockedObjects
  live : ∀ t info, k.threads.get? t = some info → ∀ o ∈ info.lockedObjects, (k.heap.get? o).isSome
  ended : ∀ t info, k.threads.get? t = some info → info.state = .terminated → info.lockedObjects = []
  members : ∀ o e, k.heap.get? o = some e → ∀ t ∈ e.monitor.members, (k.threads.get? t).isSome

namespace Owned

variable {k k' : Kernel} {f : ThreadId → Thread → Thread} {g : Nat → Monitor → Monitor}
  {a : AtomicSection}

theorem edit (hk : k.Owned) (h : k.Edit k' f g a)
    (howner : ∀ o e i, k.heap.get? o = some e → o.index? = some i → ∀ t,
      (g i e.monitor).owner = some t ↔
        ∃ info, k.threads.get? t = some info ∧ o ∈ (f t info).lockedObjects)
    (hlocked : ∀ t info, k.threads.get? t = some info →
      (∀ o ∈ (f t info).lockedObjects, (k.heap.get? o).isSome) ∧
        ((f t info).state = .terminated → (f t info).lockedObjects = []))
    (hmembers : ∀ o e i, k.heap.get? o = some e → o.index? = some i →
      ∀ t ∈ (g i e.monitor).members, t ∈ e.monitor.members ∨ (k.threads.get? t).isSome) : k'.Owned := by
  have hget : ∀ o e', k'.heap.get? o = some e' → ∃ e i, k.heap.get? o = some e ∧ o.index? = some i ∧
      e'.monitor = g i e.monitor := by
    intro o e' he'
    obtain ⟨i, hi, -⟩ := Heap.get?_eq_some.mp he'
    rw [h.get? hi] at he'
    obtain ⟨e, he, rfl⟩ := Option.map_eq_some_iff.mp he'
    exact ⟨e, i, he, hi, rfl⟩
  constructor
  · intro o e' he' t
    obtain ⟨e, i, he, hi, hmonitor⟩ := hget o e' he'
    rw [hmonitor, howner o e i he hi]
    constructor
    · intro ⟨info, hinfo, ho⟩
      exact ⟨f t info, by rw [h.threads, hinfo]; rfl, ho⟩
    · intro ⟨info', hinfo', ho⟩
      obtain ⟨info, hinfo, rfl⟩ := h.of_thread hinfo'
      exact ⟨info, hinfo, ho⟩
  · intro t info' hinfo' o ho
    obtain ⟨info, hinfo, rfl⟩ := h.of_thread hinfo'
    rw [h.isSome_object]
    exact (hlocked t info hinfo).1 o ho
  · intro t info' hinfo'
    obtain ⟨info, hinfo, rfl⟩ := h.of_thread hinfo'
    exact (hlocked t info hinfo).2
  · intro o e' he' t ht
    obtain ⟨e, i, he, hi, hmonitor⟩ := hget o e' he'
    rw [h.isSome_thread]
    rcases hmembers o e i he hi t (hmonitor ▸ ht) with hold | hnew
    · exact hk.members o e he t hold
    · exact hnew

theorem edit_calm (hk : k.Owned) (h : k.Edit k' f g a)
    (hf : ∀ t info, k.threads.get? t = some info → info.Calm (f t info))
    (hg : ∀ o e i, k.heap.get? o = some e → o.index? = some i →
      k.CalmMonitor e.monitor (g i e.monitor)) : k'.Owned := by
  apply hk.edit h
  · intro o e i he hi t
    rw [(hg o e i he hi).1, hk.owner o e he]
    apply exists_congr
    intro info
    apply and_congr_right
    intro hinfo
    rw [(hf t info hinfo).lockedObjects]
  · intro t info hinfo
    have hcalm := hf t info hinfo
    rw [hcalm.lockedObjects]
    exact ⟨hk.live t info hinfo, fun hs => hk.ended t info hinfo (hcalm.ended hs)⟩
  · intro o e i he hi
    exact (hg o e i he hi).2

theorem edit_at (hk : k.Owned) {o : Ref} {g : Monitor → Monitor} (h : k.Edit k' f (onMonitor o g) a)
    {e : Element} (he : k.heap.get? o = some e)
    (howner : ∀ t, (g e.monitor).owner = some t ↔
      ∃ info, k.threads.get? t = some info ∧ o ∈ (f t info).lockedObjects)
    (hlocked : ∀ t info, k.threads.get? t = some info →
      (∀ o', o' ≠ o → (o' ∈ (f t info).lockedObjects ↔ o' ∈ info.lockedObjects)) ∧
        ((f t info).state = .terminated → (f t info).lockedObjects = []))
    (hmembers : ∀ t ∈ (g e.monitor).members, t ∈ e.monitor.members ∨ (k.threads.get? t).isSome) :
    k'.Owned := by
  have hmonitor : ∀ o' e' i, k.heap.get? o' = some e' → o'.index? = some i →
      (o' = o ∧ e' = e ∧ onMonitor o g i e'.monitor = g e.monitor) ∨
        (o' ≠ o ∧ onMonitor o g i e'.monitor = e'.monitor) := by
    intro o' e' i he' hi
    by_cases ho : o' = o
    · subst ho
      rw [he] at he'
      cases he'
      exact .inl ⟨rfl, rfl, by simp [onMonitor, hi]⟩
    · have hne : o.index? ≠ some i := fun hoi => ho (Ref.eq_of_index? hi hoi)
      exact .inr ⟨ho, by simp [onMonitor, hne]⟩
  apply hk.edit h
  · intro o' e' i he' hi t
    rcases hmonitor o' e' i he' hi with ⟨rfl, rfl, hm⟩ | ⟨hne, hm⟩
    · rw [hm]
      exact howner t
    · rw [hm, hk.owner o' e' he']
      apply exists_congr
      intro info
      apply and_congr_right
      intro hinfo
      exact ((hlocked t info hinfo).1 o' hne).symm
  · intro t info hinfo
    refine ⟨?_, (hlocked t info hinfo).2⟩
    intro o' ho'
    by_cases hne : o' = o
    · rw [hne, he]
      rfl
    · exact hk.live t info hinfo o' (((hlocked t info hinfo).1 o' hne).mp ho')
  · intro o' e' i he' hi t ht
    rcases hmonitor o' e' i he' hi with ⟨rfl, rfl, hm⟩ | ⟨_, hm⟩
    · exact hmembers t (hm ▸ ht)
    · exact .inl (hm ▸ ht)

theorem stir (hk : k.Owned) (h : k.Stir True k') : k'.Owned := by
  cases h with
  | tell e => exact ⟨hk.owner, hk.live, hk.ended, hk.members⟩
  | atomic a => exact ⟨hk.owner, hk.live, hk.ended, hk.members⟩
  | @thread t info f hinfo _ hcalm =>
    apply hk.edit_calm (Edit.updateThread (updateThread_eq_ok.mpr ⟨info, hinfo, rfl⟩))
    · intro u info' hinfo'
      unfold onThread
      split
      · next htu =>
        subst htu
        rw [hinfo] at hinfo'
        cases hinfo'
        exact hcalm trivial
      · exact .refl info'
    · intro _ e _ _ _
      exact .refl k e.monitor
  | @monitor o e f he hcalm =>
    apply hk.edit_calm (Edit.updateMonitor (updateMonitor_eq_ok.mpr ⟨e, he, rfl⟩))
    · intro _ info _
      exact .refl info
    · intro o' e' i he' hi
      unfold onMonitor
      split
      · next hoi =>
        rw [Ref.eq_of_index? hi hoi, he] at he'
        cases he'
        exact hcalm trivial
      · exact .refl k e'.monitor

theorem eq_of_mem (hk : k.Owned) {o : Ref} {e : Element} (he : k.heap.get? o = some e) {t u : ThreadId}
    (howner : e.monitor.owner = some t) {info : Thread} (hinfo : k.threads.get? u = some info)
    (ho : o ∈ info.lockedObjects) : u = t := by
  have := (hk.owner o e he u).mpr ⟨info, hinfo, ho⟩
  rw [howner] at this
  exact (Option.some.inj this).symm

theorem mem_addLocked (info : Thread) (o o' : Ref) :
    o' ∈ (info.addLocked o).lockedObjects ↔ o' ∈ info.lockedObjects ∨ o' = o := by
  unfold Thread.addLocked
  split
  · next ho =>
    constructor
    · exact .inl
    · rintro (h | rfl)
      · exact h
      · exact ho
  · simp

theorem live_of_bind_deref {α : Type} {o : Ref} {g : Element → Except Fault α} {r : α}
    (h : (k.heap.deref o >>= g) = .ok r) : ∃ e, k.heap.get? o = some e := by
  obtain ⟨e, he, -⟩ := bind_eq_ok.mp h
  exact ⟨e, deref_eq_ok.mp he⟩

theorem known_of_lock {t : ThreadId} {o : Ref} {r : LockOutcome} (h : k.lock t o = .ok (r, k')) :
    ∃ info, k.threads.get? t = some info := by
  unfold Kernel.lock at h
  obtain ⟨e, -, h⟩ := bind_eq_ok.mp h
  split at h
  · obtain ⟨info, hinfo, -⟩ := bind_eq_ok.mp h
    exact ⟨info, get_eq_ok.mp hinfo⟩
  · obtain ⟨k₁, h₁, h⟩ := bind_eq_ok.mp h
    obtain ⟨k₂, h₂, -⟩ := bind_eq_ok.mp h
    obtain ⟨info, hinfo, -⟩ := updateThread_eq_ok.mp h₂
    obtain ⟨_, _, rfl⟩ := updateMonitor_eq_ok.mp h₁
    exact ⟨info, hinfo⟩

theorem lock (hk : k.Owned) {t : ThreadId} {o : Ref} {r : LockOutcome}
    (h : k.lock t o = .ok (r, k')) : k'.Owned := by
  obtain ⟨e, he⟩ := live_of_bind_deref h
  obtain ⟨info, hinfo⟩ := known_of_lock h
  cases hcan : e.monitor.canEnter t with
  | false =>
    obtain ⟨k₁, h₁, hedit⟩ := lock_of_not_canEnter he (by simp [hinfo]) hcan
    rw [h] at h₁
    cases h₁
    apply hk.edit_calm hedit
    · intro u info' _
      unfold onThread
      split
      · exact ⟨rfl, rfl, by simp⟩
      · exact .refl info'
    · intro o' e' i _ _
      unfold onMonitor
      split
      · refine ⟨Monitor.owner_addRequest _ t, ?_⟩
        intro u hu
        rcases Monitor.of_mem_members_addRequest hu with hu | rfl
        · exact .inl hu
        · exact .inr (by simp [hinfo])
      · exact .refl k e'.monitor
  | true =>
    obtain ⟨k₁, h₁, hedit⟩ := lock_of_canEnter he hinfo hcan
    rw [h] at h₁
    cases h₁
    -- a monitor that can be entered belongs to nobody else
    have hothers : ∀ u info', k.threads.get? u = some info' → o ∈ info'.lockedObjects → u = t := by
      intro u info' hinfo' ho
      have howner := (hk.owner o e he u).mpr ⟨info', hinfo', ho⟩
      unfold Monitor.canEnter at hcan
      rw [howner] at hcan
      simpa using hcan
    apply hk.edit_at hedit he
    · intro u
      constructor
      · intro hu
        cases hu
        exact ⟨info, hinfo, by simp [onThread, entered, mem_addLocked]⟩
      · rintro ⟨info', hinfo', ho⟩
        by_cases htu : t = u
        · rw [htu]
          rfl
        · rw [onThread, if_neg htu] at ho
          exact absurd (hothers u info' hinfo' ho).symm htu
    · intro u info' hinfo'
      by_cases htu : t = u
      · subst htu
        refine ⟨?_, ?_⟩
        · intro o' hne
          simp [onThread, entered, mem_addLocked, hne]
        · intro hs
          simp only [onThread, entered, if_true] at hs
          split at hs <;> cases hs
      · rw [onThread, if_neg htu]
        exact ⟨fun _ _ => .rfl, hk.ended u info' hinfo'⟩
    · intro u hu
      exact .inl (Monitor.of_mem_members_enter hu)

theorem edit_release (hk : k.Owned) {t : ThreadId} {o : Ref} {g : Monitor → Monitor}
    (h : k.Edit k' f (onMonitor o g) a) {e : Element} (he : k.heap.get? o = some e)
    (howner : e.monitor.owner = some t) (hfree : (g e.monitor).owner = none)
    (hself : ∀ info, (f t info).lockedObjects = (info.removeLocked o).lockedObjects ∧
      ((f t info).state = .terminated → info.state = .terminated))
    (hothers : ∀ u (info : Thread), t ≠ u → info.Calm (f u info))
    (hmembers : ∀ t ∈ (g e.monitor).members, t ∈ e.monitor.members ∨ (k.threads.get? t).isSome) :
    k'.Owned := by
  apply hk.edit_at h he _ _ hmembers
  · intro u
    rw [hfree]
    constructor
    · intro hu
      cases hu
    · intro ⟨info, hinfo, ho⟩
      by_cases htu : t = u
      · subst htu
        simp [(hself info).1, Thread.removeLocked] at ho
      · rw [(hothers u info htu).lockedObjects] at ho
        exact absurd (hk.eq_of_mem he howner hinfo ho).symm htu
  · intro u info hinfo
    by_cases htu : t = u
    · subst htu
      rw [(hself info).1]
      refine ⟨?_, ?_⟩
      · intro o' hne
        simp [Thread.removeLocked, hne]
      · intro hs
        simp [Thread.removeLocked, hk.ended t info hinfo ((hself info).2 hs)]
    · have hcalm := hothers u info htu
      rw [hcalm.lockedObjects]
      exact ⟨fun _ _ => .rfl, fun hs => hk.ended u info hinfo (hcalm.ended hs)⟩

theorem calm_awake (info : Thread) : info.Calm info.awake := by
  refine ⟨rfl, rfl, ?_⟩
  unfold Thread.awake ThreadState.woken
  cases info.state <;> simp

theorem requests_known (hk : k.Owned) {o : Ref} {e : Element} (he : k.heap.get? o = some e) :
    ∀ u ∈ e.monitor.requests, (k.threads.get? u).isSome := by
  intro u hu
  exact hk.members o e he u (by simp [Monitor.members, hu])

theorem waiters_known (hk : k.Owned) {o : Ref} {e : Element} (he : k.heap.get? o = some e) :
    ∀ u ∈ e.monitor.waiters, (k.threads.get? u).isSome := by
  intro u hu
  exact hk.members o e he u (by simp [Monitor.members, hu])

theorem owner_known (hk : k.Owned) {o : Ref} {e : Element} (he : k.heap.get? o = some e)
    {t : ThreadId} (howner : e.monitor.owner = some t) : (k.threads.get? t).isSome := by
  obtain ⟨info, hinfo, -⟩ := (hk.owner o e he t).mp howner
  rw [hinfo]
  rfl

theorem live_of_isOwner {α : Type} {t : ThreadId} {o : Ref} {g : Bool → Except Fault α} {r : α}
    (h : (k.isOwner t o >>= g) = .ok r) : ∃ e, k.heap.get? o = some e := by
  obtain ⟨_, h, -⟩ := bind_eq_ok.mp h
  exact live_of_bind_deref h

theorem unlock (hk : k.Owned) {t : ThreadId} {o : Ref} {r : Except KernelError Bool}
    (h : k.unlock t o = .ok (r, k')) : k'.Owned := by
  obtain ⟨e, he⟩ := live_of_isOwner h
  by_cases howner : e.monitor.owner = some t
  · by_cases hcount : e.monitor.count ≤ 1
    · obtain ⟨k₁, h₁, hedit⟩ := unlock_of_enteredOnce he (hk.owner_known he howner) howner hcount
        (hk.requests_known he)
      rw [h] at h₁
      cases h₁
      apply hk.edit_release hedit he howner
      · rw [Monitor.owner_exit, if_pos hcount]
      · intro info
        simp only [onThread, if_true]
        split
        · exact ⟨rfl, (calm_awake _).ended⟩
        · exact ⟨rfl, fun hs => hs⟩
      · intro u info htu
        simp only [onThread, if_neg htu]
        split
        · exact calm_awake info
        · exact .refl info
      · intro u hu
        rw [Monitor.members_exit] at hu
        exact .inl hu
    · obtain ⟨k₁, h₁, hedit⟩ := unlock_of_entered he howner (Nat.lt_of_not_le hcount)
      rw [h] at h₁
      cases h₁
      apply hk.edit_calm hedit (fun _ info _ => .refl info)
      intro o' e' i he' hi
      unfold onMonitor
      split
      · next hoi =>
        rw [Ref.eq_of_index? hi hoi, he] at he'
        cases he'
        refine ⟨?_, fun u hu => .inl (by rwa [Monitor.members_exit] at hu)⟩
        rw [Monitor.owner_exit, if_neg hcount]
      · exact .refl k e'.monitor
  · rw [unlock_of_not_owner he howner] at h
    cases h
    exact hk

theorem enterWait (hk : k.Owned) {t : ThreadId} {o : Ref} {state : ThreadState}
    (hstate : state ≠ .terminated) {r : Except KernelError Unit}
    (h : k.enterWait t o state = .ok (r, k')) : k'.Owned := by
  obtain ⟨e, he⟩ := live_of_isOwner h
  by_cases howner : e.monitor.owner = some t
  · have ht := hk.owner_known he howner
    obtain ⟨k₁, h₁, hedit⟩ := enterWait_of_owner state he ht howner (hk.requests_known he)
    rw [h] at h₁
    cases h₁
    apply hk.edit_release hedit he howner
    · rw [Monitor.owner_addWaiter]
      rfl
    · intro info
      simp only [onThread, if_true]
      split
      · exact ⟨rfl, fun hs => absurd ((calm_awake _).ended hs) hstate⟩
      · exact ⟨rfl, fun hs => absurd hs hstate⟩
    · intro u info htu
      simp only [onThread, if_neg htu]
      split
      · exact calm_awake info
      · exact .refl info
    · intro u hu
      rcases Monitor.of_mem_members_addWaiter hu with hu | rfl
      · exact .inl hu
      · exact .inr ht
  · rw [enterWait_of_not_owner he howner] at h
    cases h
    exact hk

theorem requestsOf_known (hk : k.Owned) (o : Ref) :
    ∀ u ∈ k.requestsOf o, (k.threads.get? u).isSome := by
  intro u hu
  unfold requestsOf at hu
  cases he : k.heap.get? o with
  | none => simp [he] at hu
  | some e => exact hk.requests_known he u (by simpa [he] using hu)

theorem lockedObjects_ended (t : ThreadId) (requesters joiners : List ThreadId) (u : ThreadId)
    (info : Thread) : (Kernel.ended t requesters joiners u info).lockedObjects =
      if t = u then [] else info.lockedObjects := by
  unfold Kernel.ended onThread
  by_cases htu : t = u <;> by_cases hr : u ∈ requesters <;> by_cases hj : u ∈ joiners <;>
    simp [htu, hr, hj, Thread.atEnd, Thread.awake]

theorem state_ended {t : ThreadId} {requesters joiners : List ThreadId} {u : ThreadId} {info : Thread}
    (h : (Kernel.ended t requesters joiners u info).state = .terminated) :
    t = u ∨ info.state = .terminated := by
  by_cases htu : t = u
  · exact .inl htu
  · apply Or.inr
    simp only [Kernel.ended, onThread, if_neg htu] at h
    split at h
    · cases h
    · split at h
      · exact (calm_awake info).ended h
      · exact h

theorem terminateThread (hk : k.Owned) {t : ThreadId} {r : Except KernelError Unit}
    (h : k.terminateThread t = .ok (r, k')) : k'.Owned := by
  obtain ⟨info, hinfo, -⟩ := bind_eq_ok.mp h
  rw [get_eq_ok] at hinfo
  cases halive : info.isAlive with
  | false =>
    rw [terminateThread_of_not_alive hinfo halive] at h
    cases h
    exact hk
  | true =>
    have hlive := hk.live t info hinfo
    have hknown : ∀ o ∈ info.lockedObjects, ∀ u ∈ k.requestsOf o, (k.threads.get? u).isSome :=
      fun o _ => hk.requestsOf_known o
    cases he : k.heap.get? info.object with
    | none =>
      rw [terminateThread_of_dead hinfo halive hlive hknown he] at h
      cases h
    | some e =>
      obtain ⟨k₁, g, h₁, hedit, hg⟩ := terminateThread_of_live hinfo halive hlive hknown he
        (hk.waiters_known he)
      rw [h] at h₁
      cases h₁
      -- the thread has given up what it owned, and all others keep what they own
      apply hk.edit hedit
      · intro o e' i he' hi u
        rw [(hg i e'.monitor).owner, apply_ite Monitor.owner]
        simp only [Ref.mem_filterMap_index? hi, lockedObjects_ended, Monitor.release]
        by_cases ho : o ∈ info.lockedObjects
        · have howner := (hk.owner o e' he' t).mpr ⟨info, hinfo, ho⟩
          rw [if_pos ho]
          constructor
          · intro hu
            cases hu
          · rintro ⟨info', hinfo', ho'⟩
            split at ho'
            · cases ho'
            · next htu => exact absurd (hk.eq_of_mem he' howner hinfo' ho').symm htu
        · rw [if_neg ho, hk.owner o e' he']
          apply exists_congr
          intro info'
          apply and_congr_right
          intro hinfo'
          split
          · next htu =>
            subst htu
            rw [hinfo] at hinfo'
            cases hinfo'
            simp [ho]
          · rfl
      · intro u info' hinfo'
        rw [lockedObjects_ended]
        split
        · simp
        · next htu =>
          refine ⟨hk.live u info' hinfo', ?_⟩
          intro hs
          exact hk.ended u info' hinfo' ((state_ended hs).resolve_left htu)
      · intro o e' i _ _ u hu
        rcases (hg i e'.monitor).of_mem_members hu with hu | hu
        · rw [apply_ite Monitor.members] at hu
          exact .inl (by simpa [Monitor.members, Monitor.release] using hu)
        · split at hu
          · exact .inr (hk.waiters_known he u hu)
          · cases hu

theorem keep (hk : k.Owned) (hthreads : k'.threads = k.threads)
    (hheap : ∀ o e', k'.heap.get? o = some e' → ∃ e, k.heap.get? o = some e ∧ e'.monitor = e.monitor)
    (hlive : ∀ t info, k.threads.get? t = some info → ∀ o ∈ info.lockedObjects,
      (k'.heap.get? o).isSome) : k'.Owned := by
  constructor
  · intro o e' he' t
    obtain ⟨e, he, hm⟩ := hheap o e' he'
    rw [hm, hk.owner o e he, hthreads]
  · rw [hthreads]
    exact hlive
  · rw [hthreads]
    exact hk.ended
  · intro o e' he' t ht
    obtain ⟨e, he, hm⟩ := hheap o e' he'
    rw [hthreads]
    exact hk.members o e he t (hm ▸ ht)

theorem put (hk : k.Owned) {o : Ref} {e e' : Element} (he : k.heap.get? o = some e)
    (hmonitor : e'.monitor = e.monitor) : { k with heap := k.heap.put o e' }.Owned := by
  refine hk.keep rfl ?_ ?_
  · intro o' e₁ he₁
    rw [Heap.get?_put] at he₁
    split at he₁
    · next hoo =>
      subst hoo
      rw [he] at he₁
      cases he₁
      exact ⟨e, he, hmonitor⟩
    · exact ⟨e₁, he₁, rfl⟩
  · intro t info hinfo o' ho'
    rw [Heap.get?_put]
    split
    · simpa using hk.live t info hinfo o' ho'
    · exact hk.live t info hinfo o' ho'

theorem place (hk : k.Owned) {build : Ref → Element} (hbuild : ∀ r, (build r).monitor = {}) :
    { k with heap := (k.heap.place build).2 }.Owned := by
  -- the new object takes a free slot, so nobody can own it
  have hget : ∀ o e, (k.heap.place build).2.get? o = some e →
      (k.heap.get? o = none ∧ e.monitor = {}) ∨ k.heap.get? o = some e := by
    intro o e he
    rw [Heap.get?_place] at he
    split at he
    · next hfree =>
      cases he
      exact .inl ⟨Heap.get?_eq_none_of_nextFree hfree, hbuild o⟩
    · exact .inr he
  constructor
  · intro o e he t
    rcases hget o e he with ⟨hnone, hm⟩ | hold
    · rw [hm]
      constructor
      · intro h
        cases h
      · rintro ⟨info, hinfo, ho⟩
        have := hk.live t info hinfo o ho
        rw [hnone] at this
        cases this
    · exact hk.owner o e hold t
  · intro t info hinfo o ho
    obtain ⟨e, he⟩ := Option.isSome_iff_exists.mp (hk.live t info hinfo o ho)
    dsimp only
    rw [Heap.get?_place_of_some he]
    rfl
  · exact hk.ended
  · intro o e he t ht
    rcases hget o e he with ⟨_, hm⟩ | hold
    · rw [hm] at ht
      cases ht
    · exact hk.members o e hold t ht

theorem push (hk : k.Owned) (epoch : Nat) {info : Thread} (hlocked : info.lockedObjects = []) :
    { k with threads := { threads := k.threads.threads.push info, epoch } }.Owned := by
  have hget : ∀ t i, (Roster.mk (k.threads.threads.push info) epoch).get? t = some i →
      i = info ∨ k.threads.get? t = some i := by
    intro t i hi
    rw [Roster.get?_push] at hi
    split at hi
    · cases hi
      exact .inl rfl
    · exact .inr hi
  have hold : ∀ t i, k.threads.get? t = some i →
      (Roster.mk (k.threads.threads.push info) epoch).get? t = some i := by
    intro t i hi
    have hlt : t < k.threads.size := (Array.getElem?_eq_some_iff.mp hi).1
    rw [Roster.get?_push, if_neg (Nat.ne_of_lt hlt), hi]
  constructor
  · intro o e he t
    rw [hk.owner o e he]
    constructor
    · intro ⟨i, hi, ho⟩
      exact ⟨i, hold t i hi, ho⟩
    · intro ⟨i, hi, ho⟩
      rcases hget t i hi with hnew | hi
      · rw [hnew, hlocked] at ho
        cases ho
      · exact ⟨i, hi, ho⟩
  · intro t i hi o ho
    rcases hget t i hi with hnew | hi
    · rw [hnew, hlocked] at ho
      cases ho
    · exact hk.live t i hi o ho
  · intro t i hi
    rcases hget t i hi with hnew | hi
    · intro _
      rw [hnew, hlocked]
    · exact hk.ended t i hi
  · intro o e he t ht
    obtain ⟨i, hi⟩ := Option.isSome_iff_exists.mp (hk.members o e he t ht)
    dsimp only
    rw [hold t i hi]
    rfl

theorem collect (hk : k.Owned) {c : Collection}
    (h : k.heap.collect { threads := k.threads.roots, statics := k.statics.roots } = .ok c) :
    { k with heap := c.heap }.Owned := by
  refine hk.keep rfl ?_ ?_
  · intro o e' he'
    obtain ⟨i, hi, he'⟩ := Heap.get?_eq_some.mp he'
    obtain ⟨e, he, hkept⟩ := (Heap.collect_spec h).1.kept i e' he'
    exact ⟨e, Heap.get?_eq_some.mpr ⟨i, hi, he⟩, hkept.monitor⟩
  · intro t info hinfo o ho
    obtain ⟨e, he⟩ := Option.isSome_iff_exists.mp (hk.live t info hinfo o ho)
    have hroot : (info.id, o) ∈ k.threads.roots := by
      have hnotEnded : info.isTerminated = false := by
        unfold Thread.isTerminated
        rw [beq_eq_false_iff_ne]
        intro hs
        rw [hk.ended t info hinfo hs] at ho
        cases ho
      have hnull : o.isNull = false := by
        obtain ⟨i, hi, -⟩ := Heap.get?_eq_some.mp he
        rw [Bool.eq_false_iff]
        intro hn
        rw [(Ref.index?_eq_none_iff o).mpr hn] at hi
        cases hi
      have hmem := Roster.mem_toList_of_get? hinfo
      unfold Roster.roots
      rw [List.mem_flatMap]
      refine ⟨info, List.mem_filter.mpr ⟨hmem, by simp [hnotEnded]⟩, List.mem_map.mpr ⟨o, ?_, rfl⟩⟩
      unfold Thread.references
      rw [List.mem_filter]
      exact ⟨by simp [ho], by simp [hnull]⟩
    obtain ⟨e', he'⟩ := Heap.contains_collect h hroot he
    dsimp only
    rw [he']
    rfl

theorem grow {proper : Prop} (hk : k.Owned) (h : Grow proper k k') : k'.Owned := by
  cases h with
  | name h =>
    obtain ⟨thread, _, _, rfl⟩ := newGlobalId_eq_ok.mp h
    exact ⟨hk.owner, hk.live, hk.ended, hk.members⟩
  | object h hbuild =>
    obtain ⟨thread, _, _, rfl⟩ := newGlobalId_eq_ok.mp h
    have hobject := hk.place hbuild.monitor
    exact ⟨hobject.owner, hobject.live, hobject.ended, hobject.members⟩
  | thread h hbuild _ hnew =>
    obtain ⟨thread, _, _, rfl⟩ := newGlobalId_eq_ok.mp h
    have hthread := (hk.place hbuild.monitor).push (k.threads.epoch + 1) hnew.lockedObjects
    exact ⟨hthread.owner, hthread.live, hthread.ended, hthread.members⟩
  | load _ _ hbuild =>
    have hobject := hk.place hbuild.monitor
    exact ⟨hobject.owner, hobject.live, hobject.ended, hobject.members⟩
  | write he hkept => exact hk.put he hkept.monitor
  | flag flag =>
    have hget : ∀ o, (k.heap.setOutOfMemory flag).get? o = k.heap.get? o := by
      intro o
      unfold Heap.get?
      rw [Heap.arena_setOutOfMemory]
    refine hk.keep rfl ?_ ?_
    · intro o e he
      exact ⟨e, (hget o).symm.trans he, rfl⟩
    · intro t info hinfo o ho
      rw [hget]
      exact hk.live t info hinfo o ho
  | collect h => exact hk.collect h
  | _ => exact ⟨hk.owner, hk.live, hk.ended, hk.members⟩

theorem stirs (hk : k.Owned) (h : k.Stirs True k') : k'.Owned := by
  induction h with
  | refl => exact hk
  | tail _ h ih => exact ih.stir h

theorem grows {proper : Prop} (hk : k.Owned) (h : Grows proper k k') : k'.Owned := by
  induction h with
  | refl => exact hk
  | tail _ h ih => exact ih.grow h

theorem perform (hk : k.Owned) {op : Op} (h : k.perform op = .ok k') : k'.Owned := by
  cases hs : op.stirs with
  | false => exact hk.grows (@perform_grows False _ _ _ hs h False.elim False.elim)
  | true =>
    cases hc : op.changesOwners with
    | false => exact hk.stirs (perform_stirs hs (fun _ => hc) h)
    | true =>
      cases op with
      | lock t o =>
        obtain ⟨r, h⟩ := snd_eq_ok.mp h
        exact hk.lock h
      | unlock t o =>
        obtain ⟨r, h⟩ := snd_eq_ok.mp h
        exact hk.unlock h
      | wait t o =>
        obtain ⟨r, h⟩ := snd_eq_ok.mp h
        exact hk.enterWait (by decide) h
      | timedWait t o =>
        obtain ⟨r, h⟩ := snd_eq_ok.mp h
        exact hk.enterWait (by decide) h
      | terminate t =>
        obtain ⟨r, h⟩ := snd_eq_ok.mp h
        exact hk.terminateThread h
      | _ => cases hc

theorem built {ok : Kernel → Op → Prop} (h : Built ok k) : k.Owned := by
  induction h with
  | start limit observers =>
    constructor
    · intro o e he
      obtain ⟨i, _, he⟩ := Heap.get?_eq_some.mp he
      cases he
    · intro t info hinfo
      cases hinfo
    · intro t info hinfo
      cases hinfo
    · intro o e he
      obtain ⟨i, _, he⟩ := Heap.get?_eq_some.mp he
      cases he
  | perform _ _ h ih => exact ih.perform h
  | adopt _ _ _ ih _ => exact ⟨ih.owner, ih.live, ih.ended, ih.members⟩
  | restore _ _ _ _ ih => exact ⟨ih.owner, ih.live, ih.ended, ih.members⟩

end Owned

end Interleave.Kernel
