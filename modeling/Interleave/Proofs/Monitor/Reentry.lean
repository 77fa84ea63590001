import Interleave.Proofs.Monitor.Ending

/-!
Who waits on an object gives up its monitor, and the count of entries is kept with the thread, whatever the
others do. The next monitor that the thread gets is entered as often. This should be the one that was given up,
but the count does not say where it comes from: it goes to any other monitor that is entered first, and it is
lost when the thread waits on another object before.
-/

namespace Interleave

namespace Op

def entrant? : Op → Option (ThreadId × Ref)
  | .lock t o => some (t, o)
  | _ => none

def waiter? : Op → Option (ThreadId × Ref)
  | .wait t o | .timedWait t o => some (t, o)
  | _ => none

/-- Thread `t` does not succeed in entering a monitor, nor in waiting on an object. -/
structure Defers (t : ThreadId) (k : Kernel) (op : Op) : Prop where
  entrant : ∀ p ∈ op.entrant?, p.1 = t → ∀ m ∈ k.monitor? p.2, m.canEnter t = false
  waiter : ∀ p ∈ op.waiter?, p.1 = t → ∀ m ∈ k.monitor? p.2, m.owner ≠ some t

instance (t : ThreadId) (k : Kernel) (op : Op) : Decidable (op.Defers t k) :=
  decidable_of_iff ((∀ p ∈ op.entrant?, p.1 = t → ∀ m ∈ k.monitor? p.2, m.canEnter t = false) ∧
    ∀ p ∈ op.waiter?, p.1 = t → ∀ m ∈ k.monitor? p.2, m.owner ≠ some t)
    ⟨fun h => ⟨h.1, h.2⟩, fun h => ⟨h.1, h.2⟩⟩

end Op

structure Thread.Retains (info info' : Thread) : Prop where
  waitCount : info'.waitCount = info.waitCount
  lockedObjects : info'.lockedObjects ⊆ info.lockedObjects

namespace Thread.Retains

variable {info info' : Thread}

theorem refl (info : Thread) : info.Retains info := ⟨rfl, List.Subset.refl _⟩

theorem onThread {t u : ThreadId} {f : Thread → Thread} (h : u = t → info.Retains (f info)) :
    info.Retains (Kernel.onThread u f t info) := by
  unfold Kernel.onThread
  split
  · next hu => exact h hu
  · exact .refl info

theorem awakeIf (h : info.Retains info') (p : Prop) [Decidable p] :
    info.Retains (if p then info'.awake else info') := by
  split
  · exact ⟨h.waitCount, h.lockedObjects⟩
  · exact h

theorem removeLocked (info : Thread) (o : Ref) : info.Retains (info.removeLocked o) :=
  ⟨rfl, List.filter_sublist.subset⟩

theorem ended {t u : ThreadId} (hne : u ≠ t) (requesters joiners : List ThreadId) :
    info.Retains (Kernel.ended u requesters joiners t info) := by
  have hawake := (Retains.refl info).awakeIf (t ∈ requesters)
  unfold Kernel.ended
  dsimp only
  rw [Kernel.onThread_of_ne hne]
  split
  · exact ⟨hawake.waitCount, hawake.lockedObjects⟩
  · exact hawake

end Thread.Retains

namespace Kernel

variable {k k' : Kernel} {op : Op} {t : ThreadId} {o : Ref} {info : Thread} {m : Monitor} {n : Nat}

def Gone (k : Kernel) (t : ThreadId) : Prop := k.HasEnded t ∧ ∀ o, ¬ k.Waits t o

theorem Turn.gone (h : k.Turn op k') (hop : op.OnTurn k) (ht : k.Gone t) : k'.Gone t := by
  obtain ⟨hended, hnot⟩ := ht
  refine ⟨(h.hasEnded_iff hop hended).mpr (not_mem_roused hnot), ?_⟩
  exact fun o hw => hnot o (h.waits_of_hasEnded hop hended hw)

theorem Spares.gone (h : k.Spares k') (ht : k.Gone t) : k'.Gone t :=
  ⟨h.hasEnded ht.1, fun o hw => ht.2 o (h.waits hw)⟩

theorem Turn.retains (h : k.Turn op k') (hroster : k.Rostered) (hop : op.OnOwnTurn k)
    (hdefers : op.Defers t k) (ht : k.threads.get? t = some info) :
    (∃ info', k'.threads.get? t = some info' ∧ info.Retains info') ∨ k'.Gone t := by
  cases h with
  | still _ h => exact .inl ⟨info, h.thread ht, .refl info⟩
  | @proceed t₀ info₀ _ _ ht₀ hf h =>
    refine .inl ⟨_, h.thread ht, .onThread ?_⟩
    rintro rfl
    rw [ht] at ht₀
    cases ht₀
    exact ⟨hf.waitCount, by rw [hf.lockedObjects]; exact List.Subset.refl _⟩
  | @enter t₀ o₀ m _ hact _ ho hcan h =>
    refine .inl ⟨_, h.thread ht, .onThread ?_⟩
    rintro rfl
    subst hact
    rw [hdefers.entrant (t₀, o₀) rfl rfl m ho] at hcan
    cases hcan
  | block _ _ _ _ h =>
    refine .inl ⟨_, h.thread ht, .onThread fun _ => ?_⟩
    exact ⟨rfl, List.Subset.refl _⟩
  | leave _ _ _ _ h => exact .inl ⟨info, h.thread ht, .refl info⟩
  | release _ _ _ h =>
    refine .inl ⟨_, h.thread ht, Thread.Retains.awakeIf ?_ _⟩
    exact .onThread fun _ => .removeLocked info _
  | @wait t₀ o₀ m _ hact _ ho howner h =>
    refine .inl ⟨_, h.thread ht, Thread.Retains.awakeIf (.onThread ?_) _⟩
    rintro rfl
    have hwaiter : op.waiter? = some (t₀, o₀) := by rcases hact with rfl | rfl <;> rfl
    exact absurd howner (hdefers.waiter (t₀, o₀) hwaiter rfl m ho)
  | expire _ _ _ _ _ _ h =>
    refine .inl ⟨_, h.thread ht, .onThread fun _ => ?_⟩
    exact ⟨rfl, List.Subset.refl _⟩
  | notify _ _ _ _ _ h =>
    refine .inl ⟨_, h.thread ht, ?_⟩
    split
    · exact ⟨rfl, List.Subset.refl _⟩
    · exact .refl info
  | @finish t₀ info₀ m _ hact ht₀ _ ho hg h =>
    by_cases htt : t₀ = t
    · subst htt hact
      -- who can run is in no wait set, so that it is not among those who wait for its end
      have hnot := hroster.not_waits ht₀ ((hop.2 t₀ rfl).isFree ht₀)
      refine .inr ⟨?_, fun o hw => hnot o (h.waits_finish ho hg hw).1⟩
      rw [h.hasEnded ht, state_ended]
      exact ⟨fun hj => hnot info₀.object ⟨m, ho, hj⟩, .inl rfl⟩
    · exact .inl ⟨_, h.thread ht, .ended htt _ _⟩

def Saves (k : Kernel) (t : ThreadId) (o : Ref) (n : Nat) : Prop :=
  (∃ info, k.threads.get? t = some info ∧ info.waitCount = n ∧ o ∉ info.lockedObjects) ∨ k.Gone t

theorem Turn.saves (h : k.Turn op k') (hroster : k.Rostered) (hop : op.OnOwnTurn k)
    (hdefers : op.Defers t k) (hk : k.Saves t o n) : k'.Saves t o n := by
  rcases hk with ⟨info, ht, hcount, hnot⟩ | hgone
  · rcases h.retains hroster hop hdefers ht with ⟨info', ht', hretains⟩ | hgone
    · refine .inl ⟨info', ht', hretains.waitCount.trans hcount, ?_⟩
      exact fun ho => hnot (hretains.lockedObjects ho)
    · exact .inr hgone
  · exact .inr (h.gone hop.1 hgone)

theorem Spares.saves (h : k.Spares k') (hk : k.Saves t o n) : k'.Saves t o n := by
  rcases hk with ⟨info, ht, hsaved⟩ | hgone
  · exact .inl ⟨info, h.threads t info ht, hsaved⟩
  · exact .inr (h.gone hgone)

theorem Runs.saves (h : Runs (fun k op => op.OnOwnTurn k ∧ op.Defers t k) k k') (howned : k.Owned)
    (htidy : k.Tidy) (hroster : k.Rostered) (hk : k.Saves t o n) :
    k'.Owned ∧ k'.Tidy ∧ k'.Rostered ∧ k'.Saves t o n := by
  refine h.invariant (motive := fun k => k.Rostered ∧ k.Saves t o n) ?_ ?_ howned htidy ⟨hroster, hk⟩
  · intro k op k' howned _ ⟨hop, hdefers⟩ hturn ⟨hroster, hk⟩
    exact ⟨hroster.turn howned hop.1 hturn, hturn.saves hroster hop hdefers hk⟩
  · intro k k' howned hspares ⟨hroster, hk⟩
    exact ⟨hroster.spares howned hspares, hspares.saves hk⟩

theorem perform_of_waiter (hop : op.waiter? = some (t, o)) :
    ∃ s, k.perform op = do return (← k.enterWait t o s).2 := by
  cases op with
  | wait =>
    cases hop
    exact ⟨.waiting, rfl⟩
  | timedWait =>
    cases hop
    exact ⟨.timedWaiting, rfl⟩
  | _ => cases hop

theorem Owned.wait_saves (hk : k.Owned) (hop : op.waiter? = some (t, o)) (ho : k.monitor? o = some m)
    (howner : m.owner = some t) :
    ∃ k', k.perform op = .ok k' ∧ k'.Waits t o ∧ k'.Saves t o m.count := by
  obtain ⟨e, he, rfl⟩ := monitor?_eq_some.mp ho
  have hknown := hk.owner_known he howner
  obtain ⟨s, hperform⟩ := perform_of_waiter (k := k) hop
  obtain ⟨k', h, hedit⟩ := enterWait_of_owner s he hknown howner (hk.requests_known he)
  have htouch : k.Touch k' _ (onObject o (·.release.addWaiter t)) := hedit.touchAt he rfl
  obtain ⟨info, ht⟩ := Option.isSome_iff_exists.mp hknown
  refine ⟨k', hperform.trans (snd_eq_ok.mpr ⟨_, h⟩), ⟨_, htouch.monitor ho, ?_⟩,
    .inl ⟨_, htouch.thread ht, ?_⟩⟩
  · rw [onObject_self]
    exact mem_addWaiter.mpr (.inr rfl)
  · dsimp only
    rw [onThread_self]
    split
    · exact ⟨rfl, by simp [Thread.awake, Thread.removeLocked]⟩
    · exact ⟨rfl, by simp [Thread.removeLocked]⟩

theorem touch_of_acquired (ht : k.threads.get? t = some info)
    (h : k.lock t o = .ok (.acquired, k')) :
    ∃ m, k.monitor? o = some m ∧ m.canEnter t = true ∧
      k.Touch k' (onThread t (entered o)) (onObject o (·.enter t (max 1 info.waitCount))) := by
  have hlock := h
  unfold lock at hlock
  obtain ⟨e, he, -⟩ := bind_eq_ok.mp hlock
  rw [deref_eq_ok] at he
  cases hcan : e.monitor.canEnter t with
  | true =>
    obtain ⟨k₁, h₁, hedit⟩ := lock_of_canEnter he ht hcan
    rw [h] at h₁
    cases h₁
    exact ⟨e.monitor, monitor?_of_get? he, hcan, hedit.touchAt he rfl⟩
  | false =>
    obtain ⟨k₁, h₁, -⟩ := lock_of_not_canEnter he (by simp [ht]) hcan
    rw [h] at h₁
    cases h₁

/-- Thread `t` owns the monitor of `o` and has entered it `n` times; nothing is left of its wait. -/
structure Regains (k : Kernel) (t : ThreadId) (o : Ref) (n : Nat) : Prop where
  thread : ∃ info, k.threads.get? t = some info ∧ info.waitCount = 0 ∧ info.lockObject = none
  monitor : ∃ m, k.monitor? o = some m ∧ m.owner = some t ∧ m.count = n ∧ t ∉ m.waiters ∧ t ∉ m.requests

theorem Saves.not_owner (hk : k.Saves t o n) (howned : k.Owned) (hrun : k.CanRun t) :
    ∀ m ∈ k.monitor? o, m.owner ≠ some t := by
  obtain ⟨info, ht, -, hnot⟩ := hk.resolve_right fun hgone => hgone.1.not_canRun hrun
  intro m hm howner
  exact hnot ((owner_iff howned hm ht).mp howner)

theorem Saves.regains (hk : k.Saves t o n) (hn : 0 < n) (htidy : k.Tidy) (hroster : k.Rostered)
    (hrun : k.CanRun t) {o' : Ref} (hother : ∀ m ∈ k.monitor? o', m.owner ≠ some t)
    (h : k.lock t o' = .ok (.acquired, k')) : k'.Regains t o' n := by
  obtain ⟨info, ht, hcount, -⟩ := hk.resolve_right fun hgone => hgone.1.not_canRun hrun
  obtain ⟨m, hm, hcan, htouch⟩ := touch_of_acquired ht h
  -- the monitor is free, so that it counts from zero again
  have hfree : m.owner = none := by
    cases howner : m.owner with
    | none => rfl
    | some u =>
      unfold Monitor.canEnter at hcan
      have hu : u = t := by simpa [howner] using hcan
      rw [hu] at howner
      exact absurd howner (hother m hm)
  have hzero : m.count = 0 := by
    have hpos := (htidy.monitors o' m hm).count
    rw [hfree] at hpos
    simpa using hpos
  refine ⟨⟨_, htouch.thread ht, ?_⟩, ⟨_, htouch.monitor hm, ?_⟩⟩
  · rw [onThread_self]
    exact ⟨rfl, rfl⟩
  · rw [onObject_self]
    refine ⟨rfl, ?_, ?_, ?_⟩
    · simp only [Monitor.enter, hzero, hcount]
      omega
    · exact fun hw => hroster.not_waits ht (hrun.isFree ht) o' ⟨m, hm, hw⟩
    · simp [Monitor.enter]

/-- After a thread has waited on `o`, and as long as it neither gets a monitor nor waits on another object, it
does not own the monitor of `o`. As soon as it gets this monitor, or one that it does not own either, it has
entered it as often as it had entered that of `o` before. -/
theorem Built.reentry {k : Kernel} {op : Op} {t : ThreadId} {o : Ref} {m : Monitor}
    (hk : Built Op.OnOwnTurn k) (hturn : op.OnOwnTurn k) (hop : op.waiter? = some (t, o))
    (ho : k.monitor? o = some m) (howner : m.owner = some t) :
    ∃ k₁, k.perform op = .ok k₁ ∧ k₁.Waits t o ∧
      ∀ k₂, Runs (fun k op => op.OnOwnTurn k ∧ op.Defers t k) k₁ k₂ → k₂.CanRun t →
        (∀ m' ∈ k₂.monitor? o, m'.owner ≠ some t) ∧
        ∀ o' k₃, (∀ m' ∈ k₂.monitor? o', m'.owner ≠ some t) → k₂.lock t o' = .ok (.acquired, k₃) →
          k₃.Regains t o' m.count := by
  obtain ⟨k₁, h₁, hwaits, hsaves⟩ := (Owned.built hk).wait_saves hop ho howner
  refine ⟨k₁, h₁, hwaits, ?_⟩
  intro k₂ hruns hrun
  have hk₁ : Built Op.OnOwnTurn k₁ := hk.perform hturn h₁
  obtain ⟨howned, htidy, hroster, hsaves⟩ := hruns.saves (.built hk₁) hk₁.tidy
    (.built (hk₁.mono fun _ _ hop => hop.1)) hsaves
  have hpos : 0 < m.count := by
    rw [(hk.tidy.monitors o m ho).count, howner]
    rfl
  refine ⟨hsaves.not_owner howned hrun, ?_⟩
  intro o' k₃ hother hlock
  exact hsaves.regains hpos htidy hroster hrun hother hlock

def thrice : Kernel :=
  (withLimit none).performAll [.newArray .int 1 none none, .createThread "a" none none,
    .createThread "b" none none, .start 0 (.fresh 0 1), .start 1 (.fresh 0 1), .lock 0 ⟨0⟩, .lock 0 ⟨0⟩,
    .lock 0 ⟨0⟩]

def meanwhile : List Op :=
  [.lock 1 ⟨0⟩, .lock 1 ⟨0⟩, .timeOut 0, .lock 0 ⟨0⟩, .collect, .interrupt 0, .unlock 1 ⟨0⟩, .unlock 1 ⟨0⟩]

theorem reentry_thrice :
    Built Op.OnOwnTurn thrice ∧ thrice.monitor? ⟨0⟩ = some { owner := some 0, count := 3 } ∧
      ∃ k₁ k₂ k₃, thrice.perform (.timedWait 0 ⟨0⟩) = .ok k₁ ∧
        Runs (fun k op => op.OnOwnTurn k ∧ op.Defers 0 k) k₁ k₂ ∧ k₂.CanRun 0 ∧
        k₂.lock 0 ⟨0⟩ = .ok (.acquired, k₃) ∧ k₃.Regains 0 ⟨0⟩ 3 := by
  have hbuilt : Built Op.OnOwnTurn thrice := (Built.start none {}).performAllowed (by decide +kernel)
  have hmonitor : thrice.monitor? ⟨0⟩ = some { owner := some 0, count := 3 } := by decide +kernel
  have hturn : Op.OnOwnTurn thrice (.timedWait 0 ⟨0⟩) := by decide +kernel
  obtain ⟨k₁, h₁, -, hreentry⟩ := hbuilt.reentry hturn rfl hmonitor rfl
  have hwait : thrice.perform (.timedWait 0 ⟨0⟩) = .ok (thrice.performAll [.timedWait 0 ⟨0⟩]) :=
    perform_eq_performAll (by decide +kernel)
  rw [h₁] at hwait
  cases hwait
  have hruns : Runs (fun k op => op.OnOwnTurn k ∧ op.Defers 0 k) (thrice.performAll [.timedWait 0 ⟨0⟩])
      ((thrice.performAll [.timedWait 0 ⟨0⟩]).performAll meanwhile) :=
    Runs.performAllowed (by decide +kernel)
  have hrun : ((thrice.performAll [.timedWait 0 ⟨0⟩]).performAll meanwhile).CanRun 0 := by
    decide +kernel
  have hlock : (((thrice.performAll [.timedWait 0 ⟨0⟩]).performAll meanwhile).lock 0 ⟨0⟩).toOption.map
      (·.1) = some .acquired := by decide +kernel
  obtain ⟨⟨r, k₃⟩, hlock, rfl⟩ := Option.map_eq_some_iff.mp hlock
  rw [toOption_eq_some] at hlock
  obtain ⟨hother, hregains⟩ := hreentry _ hruns hrun
  exact ⟨hbuilt, hmonitor, _, _, k₃, h₁, hruns, hrun, hlock, hregains ⟨0⟩ k₃ hother hlock⟩

def thriceAndOnce : Kernel :=
  (withLimit none).performAll [.newArray .int 1 none none, .newArray .int 1 none none,
    .createThread "a" none none, .start 0 (.fresh 0 1), .lock 0 ⟨0⟩, .lock 0 ⟨0⟩, .lock 0 ⟨0⟩, .lock 0 ⟨1⟩]

def waitTwice : List Op := [.timedWait 0 ⟨0⟩, .timeOut 0, .timedWait 0 ⟨1⟩, .timeOut 0]

theorem reentry_forgets :
    Built Op.OnOwnTurn thriceAndOnce ∧
      thriceAndOnce.monitor? ⟨0⟩ = some { owner := some 0, count := 3 } ∧
      Runs (fun k op => op.OnOwnTurn k ∧ op.entrant? = none) thriceAndOnce (thriceAndOnce.performAll waitTwice) ∧
      (thriceAndOnce.performAll waitTwice).CanRun 0 ∧
      ∃ k', (thriceAndOnce.performAll waitTwice).lock 0 ⟨0⟩ = .ok (.acquired, k') ∧
        k'.monitor? ⟨0⟩ = some { owner := some 0, count := 1 } := by
  have hlock : ((thriceAndOnce.performAll waitTwice).lock 0 ⟨0⟩).toOption.map
      (fun r => (r.1, r.2.monitor? ⟨0⟩)) = some (.acquired, some { owner := some 0, count := 1 }) := by
    decide +kernel
  obtain ⟨⟨r, k'⟩, hlock, heq⟩ := Option.map_eq_some_iff.mp hlock
  obtain ⟨rfl, hmonitor⟩ := Prod.mk.inj heq
  exact ⟨(Built.start none {}).performAllowed (by decide +kernel), by decide +kernel,
    Runs.performAllowed (by decide +kernel), by decide +kernel, k', toOption_eq_some.mp hlock, hmonitor⟩

end Kernel

end Interleave
