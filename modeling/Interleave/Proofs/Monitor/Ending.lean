import Interleave.Proofs.Monitor.Waiting
import Interleave.Proofs.Schedule.Candidates

/-!
The end of a thread. A thread that has ended stays so, and nobody is offered to schedule it, unless it
was in a wait set when it ended: whoever notifies the waiters of that object wakes it up again.
-/

namespace Interleave.Kernel

def HasEnded (k : Kernel) (t : ThreadId) : Prop := ∃ info ∈ k.threads.get? t, info.state = .terminated

instance (k : Kernel) (t : ThreadId) : Decidable (k.HasEnded t) :=
  inferInstanceAs (Decidable (∃ info ∈ k.threads.get? t, info.state = .terminated))

variable {k k' : Kernel} {op : Op} {t : ThreadId} {o : Ref} {info : Thread}

theorem hasEnded_iff_of_get? (ht : k.threads.get? t = some info) :
    k.HasEnded t ↔ info.state = .terminated := by
  simp [HasEnded, ht]

theorem HasEnded.not_canRun (h : k.HasEnded t) : ¬ k.CanRun t := by
  obtain ⟨info, ht, hs⟩ := h
  intro hrun
  have hfree := hrun.isFree ht
  rw [hs] at hfree
  cases hfree

theorem state_awakeIf (info : Thread) (p : Prop) [Decidable p] :
    (if p then info.awake else info).state = .terminated ↔ info.state = .terminated := by
  split
  · simp [Thread.awake]
  · rfl

theorem state_ended (u : ThreadId) (requesters joiners : List ThreadId) (info : Thread) :
    (ended u requesters joiners t info).state = .terminated ↔
      t ∉ joiners ∧ (u = t ∨ info.state = .terminated) := by
  unfold ended
  dsimp only
  split
  · next hj => simp [hj]
  · next hj =>
    by_cases hu : u = t
    · subst hu
      simp [hj, Thread.atEnd]
    · rw [onThread_of_ne hu, state_awakeIf]
      simp [hj, hu]

theorem Touch.hasEnded {f : ThreadId → Thread → Thread} {g : Ref → Monitor → Monitor}
    (h : k.Touch k' f g) (ht : k.threads.get? t = some info) :
    k'.HasEnded t ↔ (f t info).state = .terminated :=
  hasEnded_iff_of_get? (h.thread ht)

theorem state_onThread {u : ThreadId} {f : Thread → Thread} (hne : u ≠ t)
    (hs : info.state = .terminated) : (onThread u f t info).state = .terminated := by
  rwa [onThread_of_ne hne]

theorem Turn.hasEnded_iff (h : k.Turn op k') (hop : op.OnTurn k) (ht : k.HasEnded t) :
    k'.HasEnded t ↔ t ∉ op.roused k := by
  obtain ⟨info, hinfo, hs⟩ := ht
  have hne : ∀ u, op.actor? = some u → u ≠ t := by
    rintro u hu rfl
    exact HasEnded.not_canRun ⟨info, hinfo, hs⟩ (hop u hu)
  have hkeeps : op.roused k = [] → ∀ info' : Thread, info'.state = .terminated →
      (info'.state = .terminated ↔ t ∉ op.roused k) := by
    intro hquiet info' hs'
    simp [hquiet, hs']
  cases h with
  | still hquiet h =>
    rw [h.hasEnded hinfo]
    exact hkeeps hquiet info hs
  | @proceed t₀ info₀ f hquiet ht₀ hf h =>
    rw [h.hasEnded hinfo]
    refine hkeeps hquiet _ ?_
    by_cases htt : t₀ = t
    · subst htt
      rw [hinfo] at ht₀
      cases ht₀
      rw [onThread_self]
      rcases hf.state with hs' | ⟨-, hfree | hact⟩
      · rw [hs', hs]
      · exact absurd hs (ThreadState.ne_terminated_of_isFree hfree)
      · exact absurd rfl (hne t₀ hact)
    · exact state_onThread htt hs
  | enter hact _ _ _ h =>
    subst hact
    rw [h.hasEnded hinfo]
    exact hkeeps rfl _ (state_onThread (hne _ rfl) hs)
  | block hact _ _ _ h =>
    subst hact
    rw [h.hasEnded hinfo]
    exact hkeeps rfl _ (state_onThread (hne _ rfl) hs)
  | leave hact _ _ _ h =>
    subst hact
    rw [h.hasEnded hinfo]
    exact hkeeps rfl info hs
  | release hact _ _ h =>
    subst hact
    rw [h.hasEnded hinfo]
    exact hkeeps rfl _ ((state_awakeIf _ _).mpr (state_onThread (hne _ rfl) hs))
  | wait hact _ _ _ h =>
    rw [h.hasEnded hinfo]
    refine hkeeps (by rcases hact with rfl | rfl <;> rfl) _ ((state_awakeIf _ _).mpr ?_)
    exact state_onThread (hne _ (by rcases hact with rfl | rfl <;> rfl)) hs
  | @expire t₀ _ _ _ _ _ hquiet ht₀ hwait _ _ _ h =>
    have htt : t₀ ≠ t := by
      rintro rfl
      rw [hinfo] at ht₀
      cases ht₀
      exact ThreadState.ne_terminated_of_isWaiting hwait hs
    rw [h.hasEnded hinfo]
    exact hkeeps hquiet _ (state_onThread htt hs)
  | notify _ _ _ _ _ h =>
    rw [h.hasEnded hinfo]
    split
    · next hroused => simp [hroused]
    · next hroused => simp [hroused, hs]
  | finish hact ht₀ halive ho _ h =>
    subst hact
    rw [h.hasEnded hinfo, state_ended, roused_terminate ht₀ halive ho]
    simp [hs]

theorem Turn.waits_of_hasEnded (h : k.Turn op k') (hop : op.OnTurn k) (ht : k.HasEnded t)
    (hw : k'.Waits t o) : k.Waits t o := by
  cases h with
  | still _ h => exact h.waits_of_waiters (fun _ _ => rfl) hw
  | proceed _ _ _ h => exact h.waits_of_waiters (fun _ _ => rfl) hw
  | enter _ _ _ _ h => exact h.waits_of_waiters (waiters_onObject fun _ => rfl) hw
  | block _ _ _ _ h => exact h.waits_of_waiters (waiters_onObject fun m => m.waiters_addRequest _) hw
  | leave _ _ _ _ h => exact h.waits_of_waiters (waiters_onObject fun _ => rfl) hw
  | release _ _ _ h => exact h.waits_of_waiters (waiters_onObject fun _ => rfl) hw
  | wait hact _ _ _ h =>
    refine (h.waits_addWaiter hw).resolve_right ?_
    rintro ⟨rfl, -⟩
    exact ht.not_canRun (hop t (by rcases hact with rfl | rfl <;> rfl))
  | expire _ _ _ _ _ _ h => exact (h.waits_rouse (fun m => .single m _) hw).1
  | notify _ _ _ _ hg h => exact (h.waits_rouse hg hw).1
  | finish _ _ _ ho hg h => exact (h.waits_finish ho hg hw).1

theorem waits_of_mem_waitersOf {u : ThreadId} (h : t ∈ k.waitersOf u o) : k.Waits t o := by
  unfold waitersOf at h
  split at h
  · next m hm =>
    split at h
    · exact ⟨m, hm, h⟩
    · cases h
  · cases h

theorem waits_of_mem_roused (h : t ∈ op.roused k) : ∃ o, k.Waits t o := by
  unfold Op.roused at h
  split at h
  · next u o waiter =>
    split at h
    · next hw =>
      rw [List.mem_singleton.mp h]
      exact ⟨o, waits_of_mem_waitersOf hw⟩
    · cases h
  · next u o => exact ⟨o, waits_of_mem_waitersOf (List.mem_of_head? (Option.mem_toList.mp h))⟩
  · next u o => exact ⟨o, waits_of_mem_waitersOf h⟩
  · next u =>
    split at h
    · next info _ =>
      split at h
      · cases hm : k.monitor? info.object with
        | none => simp [hm] at h
        | some m => exact ⟨info.object, m, hm, by simpa [hm] using h⟩
      · cases h
    · cases h
  · cases h

theorem not_mem_roused (h : ∀ o, ¬ k.Waits t o) : t ∉ op.roused k := by
  intro hroused
  obtain ⟨o, ho⟩ := waits_of_mem_roused hroused
  exact h o ho

theorem Spares.hasEnded (h : k.Spares k') (ht : k.HasEnded t) : k'.HasEnded t := by
  obtain ⟨info, hinfo, hs⟩ := ht
  exact ⟨info, h.threads t info hinfo, hs⟩

theorem hasEnded_perform_iff (howned : k.Owned) (htidy : k.Tidy) (hop : op.OnTurn k)
    (h : k.perform op = .ok k') (ht : k.HasEnded t) : k'.HasEnded t ↔ t ∉ op.roused k := by
  cases hs : op.stirs with
  | true =>
    have hturns := turns_of_perform howned (fun _ _ => htidy.lockObject_live) hs h
    exact (hturns.turn h).hasEnded_iff hop ht
  | false =>
    have hquiet : op.roused k = [] := by cases op <;> first | rfl | cases hs
    have hended : k'.HasEnded t := (@perform_grows False _ _ _ hs h False.elim False.elim).spares howned
      (fun _ _ _ hspares hended => hspares.hasEnded hended) ht
    simp [hquiet, hended]

theorem hasEnded_terminate (howned : k.Owned) (ht : k.threads.get? t = some info)
    (halive : info.isAlive = true) (h : k.perform (.terminate t) = .ok k') :
    (k'.HasEnded t ↔ t ∉ (Op.terminate t).roused k) ∧ ∀ o, k'.Waits t o → k.Waits t o := by
  obtain ⟨r, hr⟩ := snd_eq_ok.mp h
  obtain ⟨e, he⟩ := Option.isSome_iff_exists.mp (object_of_terminate howned hr ht halive)
  obtain ⟨k₁, g, h₁, hg, htouch⟩ := terminate_of_alive howned ht halive he
  rw [h] at h₁
  cases h₁
  have ho := monitor?_of_get? he
  constructor
  · rw [htouch.hasEnded ht, state_ended, roused_terminate ht halive ho]
    simp
  · exact fun o hw => (htouch.waits_finish ho hg hw).1

theorem Runs.hasEnded {waiting : Prop}
    (h : Runs (fun k op => op.OnTurn k ∧ (waiting → t ∉ op.roused k)) k k') (howned : k.Owned)
    (htidy : k.Tidy) (ht : k.HasEnded t) (hw : ¬ waiting → ∀ o, ¬ k.Waits t o) :
    k'.Owned ∧ k'.Tidy ∧ k'.HasEnded t ∧ (¬ waiting → ∀ o, ¬ k'.Waits t o) := by
  refine h.invariant (motive := fun k => k.HasEnded t ∧ (¬ waiting → ∀ o, ¬ k.Waits t o)) ?_ ?_ howned
    htidy ⟨ht, hw⟩
  · intro k op k' _ _ hop hturn ⟨ht, hw⟩
    have hroused : t ∉ op.roused k := by
      by_cases hwaiting : waiting
      · exact hop.2 hwaiting
      · exact not_mem_roused (hw hwaiting)
    refine ⟨(hturn.hasEnded_iff hop.1 ht).mpr hroused, ?_⟩
    exact fun hwaiting o ho => hw hwaiting o (hturn.waits_of_hasEnded hop.1 ht ho)
  · intro k k' _ hspares ⟨ht, hw⟩
    exact ⟨hspares.hasEnded ht, fun hwaiting o ho => hw hwaiting o (hspares.waits ho)⟩

theorem Tidy.canRun_of_mem_runnable (hk : k.Tidy) (ht : t ∈ k.threads.runnable) : k.CanRun t := by
  obtain ⟨info, hinfo, hrun, rfl⟩ := Roster.mem_runnable.mp ht
  obtain ⟨i, hi⟩ := List.getElem?_of_mem hinfo
  have hget : k.threads.get? i = some info := by
    rw [← hi]
    exact Array.getElem?_toList.symm
  rw [(hk.threads i info hget).id]
  exact ⟨info, hget, hrun⟩

/-- The end of a thread is final, unless it ends while it waits and is notified later. -/
theorem Built.ended_stays {k k₁ k₂ : Kernel} {t : ThreadId} {info : Thread} (hk : Built Op.OnTurn k)
    (ht : k.threads.get? t = some info) (halive : info.isAlive = true)
    (hend : k.perform (.terminate t) = .ok k₁)
    (hself : info.state.isWaiting = true → t ∉ (Op.terminate t).roused k)
    (hruns : Runs (fun k op => op.OnTurn k ∧ (info.state.isWaiting = true → t ∉ op.roused k)) k₁ k₂) :
    k₂.HasEnded t ∧ t ∉ k₂.threads.runnable ∧
      (∀ (s : Scheduler) (d : Dice) (path : Path) u occasion g after,
        s.decide k₂ d path u occasion = .ok (some g, after) → t ∈ g.choices →
          info.state.isWaiting = true ∧ ∃ o, occasion = .notify o ∧ k₂.Waits t o) ∧
      (∀ (s : Scheduler) (d : Dice) g after, s.root k₂ d = .ok (some g, after) → t ∉ g.choices) ∧
      ∀ op k₃, op.OnTurn k₂ → k₂.perform op = .ok k₃ → (k₃.HasEnded t ↔ t ∉ op.roused k₂) := by
  have howned := Owned.built hk
  have hroster := Rostered.built hk
  have hnot : ¬ info.state.isWaiting = true → ∀ o, ¬ k.Waits t o := by
    intro hwaiting o hw
    rcases hroster.awaits t o info hw ht with ⟨hs, -⟩ | hs
    · exact hwaiting hs
    · simp [Thread.isAlive, hs, ThreadState.isAlive] at halive
  obtain ⟨hended, hshrinks⟩ := hasEnded_terminate howned ht halive hend
  have hended₁ : k₁.HasEnded t := by
    rw [hended]
    intro hroused
    obtain ⟨o, ho⟩ := waits_of_mem_roused hroused
    by_cases hwaiting : info.state.isWaiting = true
    · exact hself hwaiting hroused
    · exact hnot hwaiting o ho
  obtain ⟨howned₂, htidy₂, hended₂, hnot₂⟩ := hruns.hasEnded (howned.perform hend)
    (hk.tidy.perform howned hend) hended₁ fun hwaiting o hw => hnot hwaiting o (hshrinks o hw)
  have hrunnable : t ∉ k₂.threads.runnable := fun hrun =>
    hended₂.not_canRun (htidy₂.canRun_of_mem_runnable hrun)
  refine ⟨hended₂, hrunnable, ?_, ?_, ?_⟩
  · intro s d path u occasion g after hg hchoice
    rcases Scheduler.offers_decide path u occasion g after hg t hchoice with hrun | ⟨o, e, hocc, he, hw⟩
    · exact absurd hrun hrunnable
    · have hwaits : k₂.Waits t o := ⟨e.monitor, monitor?_of_get? he, hw⟩
      refine ⟨?_, o, hocc, hwaits⟩
      by_contra hwaiting
      exact hnot₂ hwaiting o hwaits
  · exact fun s d g after hg hchoice => hrunnable (Scheduler.offers_root g after hg t hchoice)
  · exact fun op k₃ hop h => hasEnded_perform_iff howned₂ htidy₂ hop h hended₂

def awaited : Kernel :=
  (withLimit none).performAll [.newArray .int 1 none none, .createThread "a" none none,
    .createThread "b" none none, .createThread "c" none none, .start 0 (.fresh 0 1),
    .start 1 (.fresh 0 1), .start 2 (.fresh 0 1), .lock 2 ⟨0⟩, .wait 2 ⟨0⟩, .lock 1 ⟨0⟩, .wait 1 ⟨0⟩]

def notifyOne : List Op := [.lock 0 ⟨0⟩, .notify 0 ⟨0⟩, .unlock 0 ⟨0⟩]

theorem awaited_built : Built Op.OnTurn awaited := (Built.start none {}).performAllowed (by decide +kernel)

theorem perform_eq_performAll (h : (k.perform op).isOk = true) :
    k.perform op = .ok (k.performAll [op]) := by
  unfold performAll
  rw [List.foldlM_cons]
  cases hop : k.perform op with
  | ok k' => rfl
  | error e =>
    rw [hop] at h
    cases h

theorem ended_stays_awaited :
    (awaited.threads.get? 1).map (·.state) = some .waiting ∧
      ((awaited.performAll [.terminate 1]).performAll notifyOne).HasEnded 1 ∧
      1 ∉ ((awaited.performAll [.terminate 1]).performAll notifyOne).threads.runnable := by
  have hend : awaited.perform (.terminate 1) = .ok (awaited.performAll [.terminate 1]) :=
    perform_eq_performAll (by decide +kernel)
  have hfinal := @Built.ended_stays awaited (awaited.performAll [.terminate 1])
    ((awaited.performAll [.terminate 1]).performAll notifyOne) 1
    ((awaited.threads.get? 1).get (by decide +kernel)) awaited_built (by simp) (by decide +kernel) hend
    (fun _ => by decide +kernel) (Runs.performAllowed (by decide +kernel))
  exact ⟨by decide +kernel, hfinal.1, hfinal.2.1⟩

theorem ended_runs_again :
    (awaited.performAll [.terminate 1]).HasEnded 1 ∧
      Built Op.OnTurn (awaited.performAll [.terminate 1]) ∧
      Runs Op.OnTurn (awaited.performAll [.terminate 1])
        ((awaited.performAll [.terminate 1]).performAll (notifyOne ++ notifyOne)) ∧
      1 ∈ ((awaited.performAll [.terminate 1]).performAll (notifyOne ++ notifyOne)).threads.runnable := by
  refine ⟨by decide +kernel, ?_, Runs.performAllowed (by decide +kernel), by decide +kernel⟩
  exact awaited_built.performAllowed (by decide +kernel)

end Interleave.Kernel
