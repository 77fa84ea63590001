import Interleave.Proofs.Monitor.Coherence

/-!
No wake-up is lost. If threads act only while they can run, then whoever wants a monitor in vain finds it
owned by somebody else who has not ended, and the wait sets hold exactly the threads that wait.
-/

namespace Interleave

namespace Kernel

def CanRun (k : Kernel) (t : ThreadId) : Prop := ∃ info ∈ k.threads.get? t, info.isRunnable = true

instance (k : Kernel) (t : ThreadId) : Decidable (k.CanRun t) :=
  inferInstanceAs (Decidable (∃ info ∈ k.threads.get? t, info.isRunnable = true))

def Waits (k : Kernel) (t : ThreadId) (o : Ref) : Prop := ∃ m, k.monitor? o = some m ∧ t ∈ m.waiters

end Kernel

def Op.OnTurn (k : Kernel) (op : Op) : Prop := ∀ t ∈ op.actor?, k.CanRun t

instance (k : Kernel) (op : Op) : Decidable (op.OnTurn k) :=
  inferInstanceAs (Decidable (∀ t ∈ op.actor?, k.CanRun t))

/-- Nobody acts who cannot run, and threads end by themselves. -/
def Op.OnOwnTurn (k : Kernel) (op : Op) : Prop :=
  op.OnTurn k ∧ ∀ t ∈ op.ender?, k.CanRun t

instance (k : Kernel) (op : Op) : Decidable (op.OnOwnTurn k) :=
  inferInstanceAs (Decidable (op.OnTurn k ∧ ∀ t ∈ op.ender?, k.CanRun t))

namespace Kernel

variable {k k' : Kernel} {op : Op} {t : ThreadId} {o : Ref} {info : Thread}

theorem CanRun.isFree (h : k.CanRun t) (ht : k.threads.get? t = some info) :
    info.state.isFree = true := by
  obtain ⟨info', ht', hrun⟩ := h
  rw [Option.mem_def, ht] at ht'
  cases ht'
  unfold Thread.isRunnable at hrun
  rw [Bool.and_eq_true] at hrun
  exact ThreadState.isFree_of_isRunnable hrun.2

theorem Built.mono {ok ok' : Kernel → Op → Prop} (hok : ∀ k op, ok k op → ok' k op)
    (h : Built ok k) : Built ok' k := by
  induction h with
  | start limit observers => exact .start limit observers
  | perform _ hop h ih => exact .perform ih (hok _ _ hop) h
  | adopt _ _ hle ih ihother => exact .adopt ih ihother hle
  | restore _ _ hle ih ihother => exact .restore ih ihother hle

theorem Touch.waits_iff {f : ThreadId → Thread → Thread} {g : Ref → Monitor → Monitor}
    (h : k.Touch k' f g) : k'.Waits t o ↔ ∃ m, k.monitor? o = some m ∧ t ∈ (g o m).waiters := by
  unfold Waits
  rw [h.monitors]
  simp [Option.map_eq_some_iff]

theorem Touch.waits_of_waiters {f : ThreadId → Thread → Thread} {g : Ref → Monitor → Monitor}
    (h : k.Touch k' f g) (hg : ∀ o m, (g o m).waiters = m.waiters) : k'.Waits t o → k.Waits t o := by
  rw [h.waits_iff]
  simp only [hg]
  exact id

theorem waiters_onObject {g : Monitor → Monitor} (hg : ∀ m : Monitor, (g m).waiters = m.waiters)
    (o' : Ref) (m : Monitor) : (onObject o g o' m).waiters = m.waiters := by
  unfold onObject
  split
  · exact hg m
  · rfl

theorem Touch.waits_rouse {f : ThreadId → Thread → Thread} {g : Monitor → Monitor}
    {l : List ThreadId} {o' : Ref} (h : k.Touch k' f (onObject o g))
    (hg : ∀ m : Monitor, m.Roused l (g m)) (hw : k'.Waits t o') :
    k.Waits t o' ∧ (o' = o → t ∉ l) := by
  obtain ⟨m, hm, ht⟩ := h.waits_iff.mp hw
  by_cases ho : o = o'
  · subst ho
    rw [onObject_self, (hg m).waiters] at ht
    exact ⟨⟨m, hm, ht.1⟩, fun _ => ht.2⟩
  · rw [onObject_of_ne ho] at ht
    exact ⟨⟨m, hm, ht⟩, fun h => absurd h.symm ho⟩

theorem mem_addWaiter {m : Monitor} {t u : ThreadId} :
    u ∈ (m.addWaiter t).waiters ↔ u ∈ m.waiters ∨ u = t := by
  unfold Monitor.addWaiter
  split
  · next ht =>
    constructor
    · exact .inl
    · rintro (hu | rfl)
      · exact hu
      · exact ht
  · simp

theorem Touch.waits_addWaiter {f : ThreadId → Thread → Thread} {u : ThreadId} {o' : Ref}
    (h : k.Touch k' f (onObject o (·.release.addWaiter u))) (hw : k'.Waits t o') :
    k.Waits t o' ∨ t = u ∧ o' = o := by
  obtain ⟨m, hm, ht⟩ := h.waits_iff.mp hw
  by_cases ho : o = o'
  · subst ho
    rw [onObject_self, mem_addWaiter] at ht
    exact ht.imp (⟨m, hm, ·⟩) (⟨·, rfl⟩)
  · rw [onObject_of_ne ho] at ht
    exact .inl ⟨m, hm, ht⟩

theorem Touch.waits_finish {f : ThreadId → Thread → Thread} {g : Ref → Monitor → Monitor} {m : Monitor}
    {locked : List Ref} {object : Ref} (h : k.Touch k' f g) (hm : k.monitor? object = some m)
    (hg : ∀ o m', Monitor.Roused (if o = object then m.waiters else [])
      (if o ∈ locked then m'.release else m') (g o m')) (hw : k'.Waits t o) :
    k.Waits t o ∧ o ≠ object := by
  obtain ⟨m', hm', ht⟩ := h.waits_iff.mp hw
  rw [(hg o m').waiters] at ht
  have hwaiters : t ∈ m'.waiters := by
    have := ht.1
    split at this <;> exact this
  refine ⟨⟨m', hm', hwaiters⟩, ?_⟩
  rintro rfl
  rw [hm] at hm'
  cases hm'
  exact ht.2 (by simpa using hwaiters)

theorem Spares.waits (h : k.Spares k') (hw : k'.Waits t o) : k.Waits t o := by
  obtain ⟨m, hm, ht⟩ := hw
  rcases h.monitors o m hm with hm | ⟨-, rfl⟩
  · exact ⟨m, hm, ht⟩
  · cases ht

theorem Owned.waits_known (hk : k.Owned) (hw : k.Waits t o) : (k.threads.get? t).isSome := by
  obtain ⟨m, hm, ht⟩ := hw
  obtain ⟨e, he, rfl⟩ := monitor?_eq_some.mp hm
  exact hk.waiters_known he t ht

end Kernel

def Thread.Awaits (info : Thread) (o : Ref) : Prop :=
  info.state.isWaiting = true ∧ info.lockObject = some o ∨ info.state = .terminated

namespace Thread.Awaits

variable {info info' : Thread} {o : Ref}

theorem not_isFree (h : info.Awaits o) : info.state.isFree = false := by
  rcases h with ⟨hs, -⟩ | hs
  · rw [Bool.eq_false_iff]
    intro hfree
    rw [ThreadState.not_isWaiting_of_isFree hfree] at hs
    cases hs
  · rw [hs]
    rfl

theorem congr (h : info.Awaits o) (hstate : info'.state = info.state)
    (hlock : info'.lockObject = info.lockObject) : info'.Awaits o := by
  unfold Awaits at *
  rw [hstate, hlock]
  exact h

theorem awakeIf (h : info.Awaits o) (p : Prop) [Decidable p] :
    (if p then info.awake else info).Awaits o := by
  split
  · unfold Awaits at *
    simpa [awake] using h
  · exact h

end Thread.Awaits

namespace Kernel

structure Rostered (k : Kernel) : Prop where
  awaits : ∀ t o info, k.Waits t o → k.threads.get? t = some info → info.Awaits o
  unique : ∀ t o o', k.Waits t o → k.Waits t o' → o = o'

namespace Rostered

variable {k k' : Kernel} {op : Op} {t : ThreadId} {o : Ref} {info : Thread}

theorem not_waits (hk : k.Rostered) (ht : k.threads.get? t = some info)
    (hs : info.state.isFree = true) (o : Ref) : ¬ k.Waits t o := by
  intro hw
  rw [(hk.awaits t o info hw ht).not_isFree] at hs
  cases hs

theorem touch (hk : k.Rostered) {f : ThreadId → Thread → Thread} {g : Ref → Monitor → Monitor}
    (h : k.Touch k' f g) (hw : ∀ t o, k'.Waits t o → k.Waits t o)
    (hf : ∀ t o info, k'.Waits t o → k.threads.get? t = some info → info.Awaits o → (f t info).Awaits o) :
    k'.Rostered where
  awaits := by
    intro t o info' hwaits ht
    obtain ⟨info, hinfo, rfl⟩ := h.of_thread ht
    exact hf t o info hwaits hinfo (hk.awaits t o info (hw t o hwaits) hinfo)
  unique := fun t o o' ho ho' => hk.unique t o o' (hw t o ho) (hw t o' ho')

theorem awaits_onThread {t₀ : ThreadId} {info₀ : Thread} (ht₀ : k.threads.get? t₀ = some info₀)
    (hs : info₀.state.isFree = true) {f : Thread → Thread} (t : ThreadId) (o : Ref) (info : Thread)
    (ht : k.threads.get? t = some info) (h : info.Awaits o) : (onThread t₀ f t info).Awaits o := by
  by_cases htt : t₀ = t
  · subst htt
    rw [ht₀] at ht
    cases ht
    rw [h.not_isFree] at hs
    cases hs
  · rwa [onThread_of_ne htt]

theorem wait (hk : k.Rostered) {t₀ : ThreadId} {o₀ : Ref} {m : Monitor} {s : ThreadState}
    (hs : s.isWaiting = true) (hnot : ∀ o, ¬ k.Waits t₀ o)
    (h : k.Touch k' (fun u info =>
        let info := onThread t₀ (fun info =>
          { info.removeLocked o₀ with waitCount := m.count, lockObject := some o₀, state := s }) u info
        if u ∈ m.requests then info.awake else info)
      (onObject o₀ (·.release.addWaiter t₀))) : k'.Rostered where
  awaits := by
    intro t o info' hw ht
    obtain ⟨info, hinfo, rfl⟩ := h.of_thread ht
    apply Thread.Awaits.awakeIf
    by_cases htt : t₀ = t
    · subst htt
      rw [onThread_self]
      rcases h.waits_addWaiter hw with hw | ⟨-, rfl⟩
      · exact absurd hw (hnot o)
      · exact .inl ⟨hs, rfl⟩
    · rw [onThread_of_ne htt]
      rcases h.waits_addWaiter hw with hw | ⟨rfl, -⟩
      · exact hk.awaits t o info hw hinfo
      · exact absurd rfl htt
  unique := by
    intro t o o' hw hw'
    rcases h.waits_addWaiter hw with hw | ⟨rfl, rfl⟩
    · rcases h.waits_addWaiter hw' with hw' | ⟨rfl, rfl⟩
      · exact hk.unique t o o' hw hw'
      · exact absurd hw (hnot o)
    · rcases h.waits_addWaiter hw' with hw' | ⟨-, rfl⟩
      · exact absurd hw' (hnot o')
      · rfl

theorem turn (hk : k.Rostered) (howned : k.Owned) (hop : op.OnTurn k) (h : k.Turn op k') :
    k'.Rostered := by
  cases h with
  | still _ h => exact hk.touch h (fun _ _ => h.waits_of_waiters fun _ _ => rfl) (fun _ _ _ _ _ => id)
  | @proceed t₀ info₀ _ _ ht₀ hf h =>
    refine hk.touch h (fun _ _ => h.waits_of_waiters fun _ _ => rfl) ?_
    rcases hf.state with hs | ⟨-, hfree⟩
    · intro t o info _ ht hawaits
      by_cases htt : t₀ = t
      · subst htt
        rw [ht₀] at ht
        cases ht
        rw [onThread_self]
        exact hawaits.congr hs hf.lockObject
      · rwa [onThread_of_ne htt]
    · intro t o info _
      refine awaits_onThread ht₀ ?_ t o info
      exact hfree.elim id fun hact => (hop t₀ hact).isFree ht₀
  | enter hact ht₀ _ _ h =>
    subst hact
    refine hk.touch h (fun _ _ => h.waits_of_waiters (waiters_onObject fun _ => rfl)) ?_
    exact fun t o info _ => awaits_onThread ht₀ ((hop _ rfl).isFree ht₀) t o info
  | block hact ht₀ _ _ h =>
    subst hact
    refine hk.touch h (fun _ _ => h.waits_of_waiters (waiters_onObject fun m => m.waiters_addRequest _)) ?_
    exact fun t o info _ => awaits_onThread ht₀ ((hop _ rfl).isFree ht₀) t o info
  | leave _ _ _ _ h =>
    exact hk.touch h (fun _ _ => h.waits_of_waiters (waiters_onObject fun _ => rfl)) (fun _ _ _ _ _ => id)
  | @release t₀ _ _ _ _ _ h =>
    refine hk.touch h (fun _ _ => h.waits_of_waiters (waiters_onObject fun _ => rfl)) ?_
    intro t o info _ _ hawaits
    apply Thread.Awaits.awakeIf
    by_cases htt : t₀ = t
    · subst htt
      rw [onThread_self]
      exact hawaits.congr rfl rfl
    · rwa [onThread_of_ne htt]
  | @wait t₀ o₀ m s hact hs ho howner h =>
    obtain ⟨e, he, rfl⟩ := monitor?_eq_some.mp ho
    obtain ⟨info₀, ht₀⟩ := Option.isSome_iff_exists.mp (howned.owner_known he howner)
    refine hk.wait hs (hk.not_waits ht₀ ?_) h
    rcases hact with rfl | rfl <;> exact (hop t₀ rfl).isFree ht₀
  | @expire t₀ o₀ _ _ _ _ _ ht₀ hwait hlock _ _ h =>
    have hshrink : ∀ t o, k'.Waits t o → k.Waits t o ∧ (o = o₀ → t ∉ [t₀]) :=
      fun t o => h.waits_rouse fun m => .single m t₀
    refine hk.touch h (fun t o hw => (hshrink t o hw).1) ?_
    intro t o info hw ht hawaits
    by_cases htt : t₀ = t
    · subst htt
      rw [ht₀] at ht
      cases ht
      rcases hawaits with ⟨-, hlock'⟩ | hs
      · rw [hlock] at hlock'
        cases hlock'
        exact absurd (List.mem_singleton.mpr rfl) ((hshrink t₀ o₀ hw).2 rfl)
      · exact absurd hs (ThreadState.ne_terminated_of_isWaiting hwait)
    · rwa [onThread_of_ne htt]
  | @notify _ o₀ m _ _ ho _ hl hg h =>
    refine hk.touch h (fun t o hw => (h.waits_rouse hg hw).1) ?_
    intro t o info hw ht hawaits
    by_cases htl : t ∈ op.roused k
    · have hsame := hk.unique t o o₀ (h.waits_rouse hg hw).1 ⟨m, ho, hl t htl⟩
      exact absurd htl ((h.waits_rouse hg hw).2 hsame)
    · rwa [if_neg htl]
  | @finish t₀ info₀ m _ _ ht₀ _ ho hg h =>
    refine hk.touch h (fun t o hw => (h.waits_finish ho hg hw).1) ?_
    intro t o info hw ht hawaits
    obtain ⟨hold, hne⟩ := h.waits_finish ho hg hw
    have hjoiner : t ∉ m.waiters := fun hj => hne (hk.unique t o info₀.object hold ⟨m, ho, hj⟩)
    unfold ended
    dsimp only
    rw [if_neg hjoiner]
    by_cases htt : t₀ = t
    · subst htt
      rw [onThread_self]
      exact .inr rfl
    · rw [onThread_of_ne htt]
      exact hawaits.awakeIf _

theorem spares (hk : k.Rostered) (howned : k.Owned) (h : k.Spares k') : k'.Rostered where
  awaits := by
    intro t o info hw ht
    have hold := h.waits hw
    rcases h.newThreads t info ht with ht | ⟨hfresh, -⟩
    · exact hk.awaits t o info hold ht
    · have hknown := howned.waits_known hold
      rw [hfresh] at hknown
      cases hknown
  unique := fun t o o' ho ho' => hk.unique t o o' (h.waits ho) (h.waits ho')

theorem empty (hmonitors : ∀ o, k.monitor? o = none) : k.Rostered := by
  have hnot : ∀ t o, ¬ k.Waits t o := by
    rintro t o ⟨m, hm, -⟩
    rw [hmonitors] at hm
    cases hm
  exact ⟨fun t o info hw => absurd hw (hnot t o), fun t o o' hw => absurd hw (hnot t o)⟩

theorem built (h : Built Op.OnTurn k) : k.Rostered := by
  refine h.invariant ?_ ?_ ?_
  · exact fun _ _ hmonitors => empty hmonitors
  · exact fun _ _ _ howned _ hop h hk => hk.turn howned hop h
  · exact fun _ _ howned h hk => hk.spares howned h

end Rostered

end Kernel

structure Monitor.Serves (m : Monitor) (t : ThreadId) (woken : Prop) (m' : Monitor) : Prop where
  waiter : t ∈ m.waiters → t ∈ m'.waiters
  owner : m'.owner = some t → m.owner = some t
  request : ¬ woken → t ∈ m.requests → m.owner.isSome = true →
    t ∈ m'.requests ∧ m'.owner.isSome = true

namespace Monitor.Serves

variable {m m' : Monitor} {t : ThreadId} {woken : Prop}

theorem refl (m : Monitor) (t : ThreadId) (woken : Prop) : m.Serves t woken m :=
  ⟨id, id, fun _ hr ho => ⟨hr, ho⟩⟩

theorem onObject {o o' : Ref} {g : Monitor → Monitor} (h : o = o' → m.Serves t woken (g m)) :
    m.Serves t woken (Kernel.onObject o g o' m) := by
  unfold Kernel.onObject
  split
  · next ho => exact h ho
  · exact .refl m t woken

theorem enter {u : ThreadId} {n : Nat} (hne : u ≠ t) : m.Serves t woken (m.enter u n) where
  waiter := id
  owner := fun h => absurd (Option.some.inj h) hne
  request := fun _ hr _ => ⟨List.mem_filter.mpr ⟨hr, by simpa using hne.symm⟩, rfl⟩

theorem addRequest (u : ThreadId) : m.Serves t woken (m.addRequest u) where
  waiter := by
    rw [waiters_addRequest]
    exact id
  owner := by
    rw [owner_addRequest]
    exact id
  request := by
    rw [owner_addRequest]
    exact fun _ hr ho => ⟨mem_addRequest.mpr (.inl hr), ho⟩

theorem release (hwoken : t ∈ m.requests → woken) : m.Serves t woken m.release where
  waiter := id
  owner := nofun
  request := fun hnot hr _ => absurd (hwoken hr) hnot

theorem addWaiter (h : m.Serves t woken m') (u : ThreadId) : m.Serves t woken (m'.addWaiter u) where
  waiter := fun hw => Kernel.mem_addWaiter.mpr (.inl (h.waiter hw))
  owner := by
    rw [owner_addWaiter]
    exact h.owner
  request := by
    rw [owner_addWaiter, requests_addWaiter]
    exact h.request

theorem roused {m'' : Monitor} {l : List ThreadId} (h : m.Serves t woken m') (hr : m'.Roused l m'')
    (hl : t ∉ l) : m.Serves t woken m'' where
  waiter := fun hw => (hr.waiters t).mpr ⟨h.waiter hw, hl⟩
  owner := by
    rw [hr.owner]
    exact h.owner
  request := by
    intro hnot hreq howner
    obtain ⟨hreq, howner⟩ := h.request hnot hreq howner
    rw [hr.owner]
    exact ⟨(hr.requests t).mpr (.inl hreq), howner⟩

end Monitor.Serves

namespace Kernel

structure Attends (k : Kernel) (t : ThreadId) (info : Thread) : Prop where
  waiting : info.state.isWaiting = true → ∀ o, info.lockObject = some o →
    ∃ m, k.monitor? o = some m ∧ t ∈ m.waiters ∧ m.owner ≠ some t
  stuck : info.state.isStuck = true → ∃ o m, info.lockObject = some o ∧ k.monitor? o = some m ∧
    t ∈ m.requests ∧ m.owner.isSome = true ∧ m.owner ≠ some t
  ended : info.state = .terminated → ∀ o, ¬ k.Waits t o

def Attentive (k : Kernel) : Prop := ∀ t info, k.threads.get? t = some info → k.Attends t info

namespace Attends

variable {k k' : Kernel} {t : ThreadId} {info info' : Thread}

theorem free (hs : info.state.isFree = true) : k.Attends t info where
  waiting := by
    intro h
    rw [ThreadState.not_isWaiting_of_isFree hs] at h
    cases h
  stuck := by
    intro h
    rw [ThreadState.not_isStuck_of_isFree hs] at h
    cases h
  ended := fun h => absurd h (ThreadState.ne_terminated_of_isFree hs)

theorem await {o : Ref} {m : Monitor} (hs : info.state.isWaiting = true)
    (hlock : info.lockObject = some o) (hm : k.monitor? o = some m) (hwaiter : t ∈ m.waiters)
    (howner : m.owner ≠ some t) : k.Attends t info where
  waiting := by
    intro _ o' hlock'
    rw [hlock] at hlock'
    cases hlock'
    exact ⟨m, hm, hwaiter, howner⟩
  stuck := by
    intro h
    rw [ThreadState.not_isStuck_of_isWaiting hs] at h
    cases h
  ended := fun h => absurd h (ThreadState.ne_terminated_of_isWaiting hs)

theorem queue {o : Ref} {m : Monitor} (hs : info.state.isStuck = true)
    (hlock : info.lockObject = some o) (hm : k.monitor? o = some m) (hrequest : t ∈ m.requests)
    (hsome : m.owner.isSome = true) (howner : m.owner ≠ some t) : k.Attends t info where
  waiting := by
    intro h
    rw [ThreadState.not_isStuck_of_isWaiting h] at hs
    cases hs
  stuck := fun _ => ⟨o, m, hlock, hm, hrequest, hsome, howner⟩
  ended := by
    intro h
    rw [h] at hs
    cases hs

theorem keep (h : k.Attends t info) (hs : info'.state = info.state)
    (hlock : info'.lockObject = info.lockObject) {woken : Prop}
    (hwoken : info.state.isStuck = true → ¬ woken)
    (hm : ∀ o m, info.lockObject = some o → k.monitor? o = some m →
      ∃ m', k'.monitor? o = some m' ∧ m.Serves t woken m')
    (hw : ∀ o, k'.Waits t o → k.Waits t o) : k'.Attends t info' where
  waiting := by
    rw [hs, hlock]
    intro hwait o ho
    obtain ⟨m, hmo, hwaiter, howner⟩ := h.waiting hwait o ho
    obtain ⟨m', hm', hserves⟩ := hm o m ho hmo
    exact ⟨m', hm', hserves.waiter hwaiter, fun h => howner (hserves.owner h)⟩
  stuck := by
    rw [hs, hlock]
    intro hstuck
    obtain ⟨o, m, ho, hmo, hrequest, hsome, howner⟩ := h.stuck hstuck
    obtain ⟨m', hm', hserves⟩ := hm o m ho hmo
    obtain ⟨hrequest, hsome⟩ := hserves.request (hwoken hstuck) hrequest hsome
    exact ⟨o, m', ho, hm', hrequest, hsome, fun h => howner (hserves.owner h)⟩
  ended := by
    rw [hs]
    exact fun hended o hwaits => h.ended hended o (hw o hwaits)

theorem wake (h : k.Attends t info) (hs : info'.state = info.state)
    (hlock : info'.lockObject = info.lockObject) {woken : Prop} [Decidable woken]
    (hm : ∀ o m, info.lockObject = some o → k.monitor? o = some m →
      ∃ m', k'.monitor? o = some m' ∧ m.Serves t woken m')
    (hw : ∀ o, k'.Waits t o → k.Waits t o) :
    k'.Attends t (if woken then info'.awake else info') := by
  by_cases hstuck : info.state.isStuck = true ∧ woken
  · rw [if_pos hstuck.2]
    apply free
    unfold Thread.awake
    rw [hs]
    exact ThreadState.isFree_woken hstuck.1
  · refine h.keep ?_ ?_ (fun hs hwoken => hstuck ⟨hs, hwoken⟩) hm hw
    · split
      · next hwoken =>
        unfold Thread.awake
        rw [hs]
        exact ThreadState.woken_eq_self (by simpa [hwoken] using hstuck)
      · exact hs
    · split <;> exact hlock

end Attends

namespace Attentive

variable {k k' : Kernel} {op : Op}

theorem touch {f : ThreadId → Thread → Thread} {g : Ref → Monitor → Monitor} (h : k.Touch k' f g)
    (hf : ∀ t info, k.threads.get? t = some info → k'.Attends t (f t info)) : k'.Attentive := by
  intro t info' ht
  obtain ⟨info, hinfo, rfl⟩ := h.of_thread ht
  exact hf t info hinfo

theorem touchThread {t₀ : ThreadId} {f : Thread → Thread} {g : Ref → Monitor → Monitor}
    (h : k.Touch k' (onThread t₀ f) g)
    (hself : ∀ info, k.threads.get? t₀ = some info → k'.Attends t₀ (f info))
    (hothers : ∀ t info, k.threads.get? t = some info → t₀ ≠ t → k'.Attends t info) : k'.Attentive := by
  refine touch h fun t info ht => ?_
  by_cases htt : t₀ = t
  · subst htt
    rw [onThread_self]
    exact hself info ht
  · rw [onThread_of_ne htt]
    exact hothers t info ht htt

theorem keep (hk : k.Attentive) {f : ThreadId → Thread → Thread} {g : Ref → Monitor → Monitor}
    (h : k.Touch k' f g) {t : ThreadId} {info info' : Thread} (ht : k.threads.get? t = some info)
    (hs : info'.state = info.state) (hlock : info'.lockObject = info.lockObject)
    (hg : ∀ o m, k.monitor? o = some m → m.Serves t False (g o m))
    (hw : ∀ o, k'.Waits t o → k.Waits t o) : k'.Attends t info' :=
  (hk t info ht).keep hs hlock (fun _ => id) (fun o m _ hm => ⟨_, h.monitor hm, hg o m hm⟩) hw

theorem wait (hk : k.Attentive) {t₀ : ThreadId} {o₀ : Ref} {m₀ : Monitor} {s : ThreadState}
    (hs : s.isWaiting = true) (ho : k.monitor? o₀ = some m₀)
    (h : k.Touch k' (fun u info =>
        let info := onThread t₀ (fun info =>
          { info.removeLocked o₀ with waitCount := m₀.count, lockObject := some o₀, state := s }) u info
        if u ∈ m₀.requests then info.awake else info)
      (onObject o₀ (·.release.addWaiter t₀))) : k'.Attentive := by
  refine touch h fun t info ht => ?_
  by_cases htt : t₀ = t
  · subst htt
    have hawaits : ∀ info' : Thread, info'.state.isWaiting = true → info'.lockObject = some o₀ →
        k'.Attends t₀ info' := by
      intro info' hs' hlock
      refine Attends.await hs' hlock (h.monitor ho) ?_ ?_
      · rw [onObject_self]
        exact mem_addWaiter.mpr (.inr rfl)
      · rw [onObject_self, Monitor.owner_addWaiter]
        exact nofun
    simp only [onThread_self]
    split
    · exact hawaits _ (by simpa [Thread.awake] using hs) rfl
    · exact hawaits _ hs rfl
  · simp only [onThread_of_ne htt]
    refine (hk t info ht).wake rfl rfl (fun o m _ hm => ⟨_, h.monitor hm, .onObject fun hoo => ?_⟩) ?_
    · subst hoo
      rw [ho] at hm
      cases hm
      exact (Monitor.Serves.release id).addWaiter t₀
    · intro o hw
      exact (h.waits_addWaiter hw).resolve_right fun hself => htt hself.1.symm

theorem finish (hk : k.Attentive) (hroster : k.Rostered) {t₀ : ThreadId} {info₀ : Thread} {m₀ : Monitor}
    {g : Ref → Monitor → Monitor} (ht₀ : k.threads.get? t₀ = some info₀)
    (hfree : info₀.state.isFree = true) (ho : k.monitor? info₀.object = some m₀)
    (hg : ∀ o m, Monitor.Roused (if o = info₀.object then m₀.waiters else [])
      (if o ∈ info₀.lockedObjects then m.release else m) (g o m))
    (h : k.Touch k' (ended t₀ (info₀.lockedObjects.flatMap k.requestsOf) m₀.waiters) g) :
    k'.Attentive := by
  refine touch h fun t info ht => ?_
  unfold ended
  dsimp only
  by_cases hj : t ∈ m₀.waiters
  · rw [if_pos hj]
    exact .free rfl
  · rw [if_neg hj]
    by_cases htt : t₀ = t
    · subst htt
      rw [onThread_self]
      refine ⟨nofun, nofun, ?_⟩
      intro _ o hw
      exact hroster.not_waits ht₀ hfree o (h.waits_finish ho hg hw).1
    · rw [onThread_of_ne htt]
      refine (hk t info ht).wake rfl rfl (fun o m _ hm => ⟨_, h.monitor hm, ?_⟩)
        (fun o hw => (h.waits_finish ho hg hw).1)
      refine Monitor.Serves.roused ?_ (hg o m) (by split <;> simp [hj])
      split
      · next hlocked =>
        apply Monitor.Serves.release
        intro hrequest
        exact List.mem_flatMap.mpr ⟨o, hlocked, by rwa [requestsOf_eq hm]⟩
      · exact .refl m t _

theorem turn (hk : k.Attentive) (hroster : k.Rostered) (hop : op.OnOwnTurn k) (h : k.Turn op k') :
    k'.Attentive := by
  cases h with
  | still _ h =>
    exact touch h fun t info ht => hk.keep h ht rfl rfl (fun o m _ => .refl m t _)
      fun o => h.waits_of_waiters fun _ _ => rfl
  | @proceed t₀ info₀ _ _ ht₀ hf h =>
    have hsame : ∀ t info info', k.threads.get? t = some info → info'.state = info.state →
        info'.lockObject = info.lockObject → k'.Attends t info' :=
      fun t info info' ht hs hlock => hk.keep h ht hs hlock (fun o m _ => .refl m t _)
        fun o => h.waits_of_waiters fun _ _ => rfl
    refine touchThread h (fun info ht => ?_) (fun t info ht _ => hsame t info info ht rfl rfl)
    rw [ht₀] at ht
    cases ht
    rcases hf.state with hs | ⟨hfree, -⟩
    · exact hsame t₀ info₀ _ ht₀ hs hf.lockObject
    · exact .free hfree
  | enter _ _ _ _ h =>
    refine touchThread h (fun info _ => .free ?_) (fun t info ht htt => ?_)
    · unfold entered
      dsimp only
      split <;> rfl
    · refine hk.keep h ht rfl rfl (fun o m _ => .onObject fun _ => .enter htt) ?_
      exact fun o => h.waits_of_waiters (waiters_onObject fun _ => rfl)
  | @block t₀ o₀ m₀ _ _ _ ho hcan h =>
    refine touchThread h (fun info _ => ?_) (fun t info ht _ => ?_)
    · have howner : m₀.owner.isSome = true ∧ m₀.owner ≠ some t₀ := by
        unfold Monitor.canEnter at hcan
        cases howner : m₀.owner with
        | none => simp [howner] at hcan
        | some u => simpa [howner] using hcan
      refine Attends.queue rfl rfl (h.monitor ho) ?_ ?_ ?_
      · rw [onObject_self]
        exact Monitor.mem_addRequest.mpr (.inr rfl)
      · rw [onObject_self, Monitor.owner_addRequest]
        exact howner.1
      · rw [onObject_self, Monitor.owner_addRequest]
        exact howner.2
    · refine hk.keep h ht rfl rfl (fun o m _ => .onObject fun _ => .addRequest t₀) ?_
      exact fun o => h.waits_of_waiters (waiters_onObject fun m => m.waiters_addRequest t₀)
  | leave _ _ _ _ h =>
    refine touch h fun t info ht => hk.keep h ht rfl rfl (fun o m _ => .onObject fun _ => ?_)
      fun o => h.waits_of_waiters (waiters_onObject fun _ => rfl)
    exact ⟨id, id, fun _ hr ho => ⟨hr, ho⟩⟩
  | @release t₀ o₀ m₀ _ ho _ h =>
    refine touch h fun t info ht => ?_
    refine (hk t info ht).wake ?_ ?_ (fun o m _ hm => ⟨_, h.monitor hm, .onObject fun hoo => ?_⟩)
      (fun o => h.waits_of_waiters (waiters_onObject fun _ => rfl))
    · unfold onThread
      split <;> rfl
    · unfold onThread
      split <;> rfl
    · subst hoo
      rw [ho] at hm
      cases hm
      exact .release id
  | wait _ hs ho _ h => exact hk.wait hs ho h
  | @expire t₀ o₀ m₀ info₀ s _ _ ht₀ hwait hlock ho hs h =>
    have hroused := fun m => Monitor.Roused.single m t₀
    refine touchThread h (fun info ht => ?_) (fun t info ht htt => ?_)
    · rw [ht₀] at ht
      cases ht
      rcases hs with hfree | ⟨rfl, hsome⟩
      · exact .free hfree
      · obtain ⟨m, hm, -, howner⟩ := (hk t₀ info₀ ht₀).waiting hwait o₀ hlock
        rw [ho] at hm
        cases hm
        refine Attends.queue rfl hlock (h.monitor ho) ?_ ?_ ?_
        · rw [onObject_self]
          exact ((hroused m₀).requests t₀).mpr (.inr (List.mem_singleton.mpr rfl))
        · rwa [onObject_self, (hroused m₀).owner]
        · rwa [onObject_self, (hroused m₀).owner]
    · refine hk.keep h ht rfl rfl (fun o m _ => .onObject fun _ => ?_)
        (fun o hw => (h.waits_rouse hroused hw).1)
      exact (Monitor.Serves.refl m t _).roused (hroused m) (by simpa using Ne.symm htt)
  | @notify t₀ o₀ m₀ g _ ho howner hl hg h =>
    refine touch h fun t info ht => ?_
    by_cases htl : t ∈ op.roused k
    · rw [if_pos htl]
      have hwaits : k.Waits t o₀ := ⟨m₀, ho, hl t htl⟩
      rcases hroster.awaits t o₀ info hwaits ht with ⟨hwait, hlock⟩ | hended
      · obtain ⟨m, hm, -, hne⟩ := (hk t info ht).waiting hwait o₀ hlock
        rw [ho] at hm
        cases hm
        refine Attends.queue rfl hlock (h.monitor ho) ?_ ?_ ?_
        · rw [onObject_self]
          exact ((hg m₀).requests t).mpr (.inr htl)
        · simp [(hg m₀).owner, howner]
        · rwa [onObject_self, (hg m₀).owner]
      · exact absurd hwaits ((hk t info ht).ended hended o₀)
    · rw [if_neg htl]
      refine hk.keep h ht rfl rfl (fun o m _ => .onObject fun _ => ?_)
        (fun o hw => (h.waits_rouse hg hw).1)
      exact (Monitor.Serves.refl m t _).roused (hg m) htl
  | finish hact ht₀ _ ho hg h =>
    subst hact
    exact hk.finish hroster ht₀ ((hop.2 _ rfl).isFree ht₀) ho hg h

theorem spares (hk : k.Attentive) (h : k.Spares k') : k'.Attentive := by
  intro t info ht
  rcases h.newThreads t info ht with ht | ⟨-, hnew⟩
  · by_cases hs : info.state = .terminated
    · refine ⟨by simp [hs, ThreadState.isWaiting], by simp [hs, ThreadState.isStuck], ?_⟩
      exact fun _ o hw => (hk t info ht).ended hs o (h.waits hw)
    · refine (hk t info ht).keep rfl rfl (fun _ => id) (fun o m ho hm => ⟨m, ?_, .refl m t False⟩)
        fun o => h.waits
      exact h.held t info ht hs o (holds_of_lockObject hm ho) m hm
  · exact .free (by rw [hnew.state]; rfl)

theorem built (h : Built Op.OnOwnTurn k) : k.Attentive := by
  have hboth : k.Rostered ∧ k.Attentive := by
    refine h.invariant (motive := fun k => k.Rostered ∧ k.Attentive) ?_ ?_ ?_
    · exact fun k hthreads hmonitors => ⟨.empty hmonitors, by simp [Attentive, hthreads]⟩
    · exact fun _ _ _ howned _ hop h hk => ⟨hk.1.turn howned hop.1 h, hk.2.turn hk.1 hop h⟩
    · exact fun _ _ howned h hk => ⟨hk.1.spares howned h, hk.2.spares h⟩
  exact hboth.2

end Attentive

structure NoLostWakeup (k : Kernel) : Prop where
  stuck : ∀ t info, k.threads.get? t = some info → info.state.isStuck = true →
    ∃ o m u owner, info.lockObject = some o ∧ k.monitor? o = some m ∧ t ∈ m.requests ∧
      m.owner = some u ∧ u ≠ t ∧ k.threads.get? u = some owner ∧ owner.state ≠ .terminated
  waits : ∀ t info, k.threads.get? t = some info → ∀ o,
    k.Waits t o ↔ info.state.isWaiting = true ∧ info.lockObject = some o

/-- If only threads that can run enter and leave monitors, wait, notify and end, then those who want a
monitor in vain are in its queue and behind a living owner, and the wait sets are what the threads say. -/
theorem Built.noLostWakeup {k : Kernel} (h : Built Op.OnOwnTurn k) : k.NoLostWakeup := by
  have howned := Owned.built h
  have hroster := Rostered.built (h.mono fun _ _ hop => hop.1)
  have hattentive := Attentive.built h
  constructor
  case stuck =>
    intro t info ht hs
    obtain ⟨o, m, hlock, hm, hrequest, hsome, hne⟩ := (hattentive t info ht).stuck hs
    obtain ⟨u, hu⟩ := Option.isSome_iff_exists.mp hsome
    obtain ⟨e, he, rfl⟩ := monitor?_eq_some.mp hm
    obtain ⟨owner, howner⟩ := Option.isSome_iff_exists.mp (howned.owner_known he hu)
    refine ⟨o, e.monitor, u, owner, hlock, hm, hrequest, hu, ?_, howner, ?_⟩
    · rintro rfl
      exact hne hu
    · intro hended
      have hlocked := (owner_iff howned hm howner).mp hu
      rw [howned.ended u owner howner hended] at hlocked
      cases hlocked
  case waits =>
    intro t info ht o
    constructor
    · intro hw
      refine (hroster.awaits t o info hw ht).resolve_right ?_
      exact fun hended => (hattentive t info ht).ended hended o hw
    · intro ⟨hs, hlock⟩
      obtain ⟨m, hm, hwaiter, -⟩ := (hattentive t info ht).waiting hs o hlock
      exact ⟨m, hm, hwaiter⟩

theorem noLostWakeup_contended :
    (∃ info, contended.threads.get? 1 = some info ∧ info.state = .waiting) ∧
      (∃ info, contended.threads.get? 2 = some info ∧ info.state = .blocked) ∧
      Built Op.OnOwnTurn contended ∧ contended.NoLostWakeup := by
  have hbuilt : Built Op.OnOwnTurn contended :=
    (Built.start none {}).performAllowed (by decide +kernel)
  refine ⟨?_, ?_, hbuilt, hbuilt.noLostWakeup⟩
  · exact ⟨(contended.threads.get? 1).get (by decide +kernel), by simp, by decide +kernel⟩
  · exact ⟨(contended.threads.get? 2).get (by decide +kernel), by simp, by decide +kernel⟩

end Kernel

end Interleave
