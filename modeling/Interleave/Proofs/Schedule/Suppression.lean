import Interleave.Proofs.Kernel.Nesting
import Interleave.Proofs.Schedule.Decision

/-!
When a thread simply goes on. Inside an atomic section it does so whatever it has done, unless it has left a
level, be it the outermost one or not. Outside it does so if nobody else can run, which is found out before
the policy has its say.
-/

namespace Interleave

/-- After it a thread can go on, unless it has blocked. -/
def Occasion.isPassing : Occasion → Bool
  | .wait _ | .park | .terminate | .suspend | .resume => false
  | _ => true

theorem Kernel.exists_left_out_iff {k : Kernel} (hk : k.threads.Numbered) {l : List ThreadId} (hnodup : l.Nodup)
    (hl : ∀ t ∈ l, k.CanRun t) : (∃ u, k.CanRun u ∧ u ∉ l) ↔ l.length < k.threads.runnableCount := by
  have hrunnable := Kernel.enumerates_runnable hk
  rw [← Roster.length_runnable]
  constructor
  · rintro ⟨u, hu, hout⟩
    have hsub : u :: l ⊆ k.threads.runnable := by
      intro v hv
      apply (hrunnable.mem_iff v).mpr
      rcases List.mem_cons.mp hv with rfl | hv
      · exact hu
      · exact hl v hv
    exact (List.subperm_of_subset (List.nodup_cons.mpr ⟨hout, hnodup⟩) hsub).length_le
  · intro hlt
    by_contra hnobody
    have hsub : k.threads.runnable ⊆ l := by
      intro u hu
      by_contra hout
      exact hnobody ⟨u, (hrunnable.mem_iff u).mp hu, hout⟩
    have hle := (List.subperm_of_subset hrunnable.nodup hsub).length_le
    omega

theorem Kernel.CanRun.get {k : Kernel} {t : ThreadId} (h : k.CanRun t) :
    ∃ info, k.threads.get t = .ok info ∧ info.isBlocked = false := by
  obtain ⟨info, hinfo, hrun⟩ := h
  refine ⟨info, Kernel.get_eq_ok.mpr hinfo, ?_⟩
  unfold Thread.isRunnable at hrun
  unfold Thread.isBlocked
  cases hstate : info.state <;> simp_all [ThreadState.isRunnable]

namespace Scheduler

variable {s : Scheduler} {k : Kernel} {d d' : Dice} {path : Path} {current : Option ThreadId} {t : ThreadId}
  {occasion : Occasion} {l : List ThreadId}

theorem worthDeciding_eq_true {n : Nat} :
    s.worthDeciding n = true ↔ 1 < n ∨ n = 1 ∧ s.breakSingleChoice = true := by
  simp [worthDeciding]

theorem worthDeciding_of_canRun (hk : k.threads.Numbered) (ht : k.CanRun t) :
    s.worthDeciding k.threads.runnableCount = true ↔
      s.breakSingleChoice = true ∨ ∃ u, k.CanRun u ∧ u ≠ t := by
  have hothers := Kernel.exists_left_out_iff hk (List.nodup_singleton t) (by simpa using ht)
  have hsome : k.threads.runnableCount ≠ 0 := by
    rw [← Roster.length_runnable]
    exact Nat.ne_of_gt (List.length_pos_of_mem (((Kernel.enumerates_runnable hk).mem_iff t).mpr ht))
  simp only [List.mem_singleton, List.length_singleton, ← ne_eq] at hothers
  rw [worthDeciding_eq_true, hothers]
  by_cases hcount : 1 < k.threads.runnableCount
  · simp [hcount]
  · have hone : k.threads.runnableCount = 1 := by omega
    simp [hone]

/-- There are several candidates, or there is one and single choices count, or there is one because the
policy has left somebody out. -/
def Worthwhile (s : Scheduler) (k : Kernel) (l : List ThreadId) : Prop :=
  1 < l.length ∨ l.length = 1 ∧ (s.breakSingleChoice = true ∨ ∃ u, k.CanRun u ∧ u ∉ l)

theorem worthDeciding_iff (hk : k.threads.Numbered) (hl : s.candidates k d current = .ok (l, d')) :
    s.worthDeciding k.threads.runnableCount = true ↔ s.Worthwhile k l := by
  obtain ⟨_, _, hl', harranges, hnil, -⟩ := s.candidates_eq_ok hk d current
  rw [hl] at hl'
  cases hl'
  have hsub : ∀ u ∈ l, u ∈ k.threads.runnable := fun u hu => Policy.mem_of_mem_filter hl hu
  have hle := (List.subperm_of_subset harranges.nodup hsub).length_le
  have hrunnable := Kernel.enumerates_runnable hk
  have hleft := Kernel.exists_left_out_iff hk harranges.nodup fun u hu => (hrunnable.mem_iff u).mp (hsub u hu)
  have hzero : l.length = 0 → k.threads.runnableCount = 0 := by
    intro hzero
    rw [← Roster.length_runnable, hnil (List.length_eq_zero_iff.mp hzero)]
    rfl
  rw [Roster.length_runnable] at hle
  unfold Worthwhile
  rw [worthDeciding_eq_true, hleft]
  cases s.breakSingleChoice with
  | true =>
    simp only [and_true, true_or]
    omega
  | false =>
    simp only [Bool.false_eq_true, and_false, or_false, false_or]
    omega

theorem announce_of_ne_nil {g : Generator} (h : g.choices ≠ []) :
    announce k d g = (some g, k.tell (.registered g), d) := by
  unfold announce
  rw [if_neg]
  simpa using h

theorem optional_eq (hk : k.threads.Numbered) (hl : s.candidates k d (some t) = .ok (l, d'))
    (kind : ChoiceKind) (access : Option ArrayAccess) :
    s.optional k d kind t access =
      if s.worthDeciding k.threads.runnableCount then
        let g : Generator := { kind, choices := l, creator := some t, access }
        .ok (some g, k.tell (.registered g), d')
      else
        .ok (none, k, d) := by
  unfold optional
  split
  · next hworth =>
    have hne : l ≠ [] := by
      rintro rfl
      simpa [Worthwhile] using (worthDeciding_iff hk hl).mp hworth
    rw [hl, ok_bind]
    exact congrArg Except.ok (announce_of_ne_nil hne)
  · rfl

theorem unlessAtomic_of_inside (hin : k.isAtomicFor t = true) (kind : ChoiceKind) (access : Option ArrayAccess) :
    s.unlessAtomic k d kind t access = .ok (none, k, d) :=
  if_pos hin

theorem decide_of_inside (hin : k.isAtomicFor t = true) (ht : k.CanRun t) (hpassing : occasion.isPassing = true)
    (hend : occasion ≠ .endAtomic) : s.decide k d path t occasion = .ok (none, k, d) := by
  have henter : ∀ kind, s.afterEnter k d kind t = .ok (none, k, d) := by
    intro kind
    obtain ⟨info, hget, hblocked⟩ := ht.get
    unfold afterEnter
    rw [hget, ok_bind, hblocked]
    exact unlessAtomic_of_inside hin kind none
  have hflag : ∀ (flag : Bool) kind access,
      (if flag then s.unlessAtomic k d kind t access else pure (none, k, d)) = .ok (none, k, d) := by
    intro flag kind access
    split
    · exact unlessAtomic_of_inside hin kind access
    · rfl
  cases occasion with
  | syncMethodEnter | monitorEnter => exact henter _
  | notify => exact if_pos hin
  | unpark | sharedField | interrupt => exact unlessAtomic_of_inside hin _ _
  | sharedArray | start | yield | sleep => exact hflag _ _ _
  | syncMethodExit | monitorExit | notifyAll | stop | beginAtomic => rfl
  | endAtomic => exact absurd rfl hend
  | wait | park | terminate | suspend | resume => cases hpassing

def paired : Kernel :=
  (Kernel.withLimit none).performAll [.createThread "a" none none, .createThread "b" none none,
    .start 0 (.fresh 0 1), .start 1 (.fresh 0 1)]

theorem paired_built : Kernel.Built (fun _ _ => True) paired := (Kernel.Built.start none {}).performAll (by simp)

def leaveInner (t : ThreadId) : List Op := [.beginAtomic t, .beginAtomic t, .endAtomic t]

def leaveOuter (t : ThreadId) : List Op := leaveInner t ++ [.endAtomic t]

/-- What gives rise to an optional decision outside of atomic sections. -/
def Asks (s : Scheduler) (k : Kernel) (path : Path) (t : ThreadId) : Occasion → Prop
  | .sharedField _ | .interrupt _ | .unpark _ | .suspend | .resume | .endAtomic => True
  | .sharedArray access => s.breaks.arrayAccess = true ∧ coversAccess t access path.newestFirst = false
  | .start _ => s.breaks.start = true
  | .yield => s.breaks.yield = true
  | .sleep => s.breaks.sleep = true
  | .monitorEnter _ | .syncMethodEnter _ => ∃ info, k.threads.get? t = some info ∧ info.isBlocked = false
  | _ => False

theorem unlessAtomic_of_outside (hout : k.isAtomicFor t = false) (kind : ChoiceKind)
    (access : Option ArrayAccess) : s.unlessAtomic k d kind t access = s.optional k d kind t access := by
  unfold unlessAtomic
  rw [hout]
  rfl

theorem decide_of_asks (hout : k.isAtomicFor t = false) (hasks : s.Asks k path t occasion) :
    ∃ kind access, s.decide k d path t occasion = s.optional k d kind t access := by
  have hflag : ∀ {flag : Bool} kind access, flag = true →
      (if flag then s.unlessAtomic k d kind t access else pure (none, k, d)) =
        s.optional k d kind t access := by
    rintro _ kind access rfl
    exact unlessAtomic_of_outside hout kind access
  have henter : ∀ kind, (∃ info, k.threads.get? t = some info ∧ info.isBlocked = false) →
      s.afterEnter k d kind t = s.optional k d kind t none := by
    rintro kind ⟨info, hinfo, hblocked⟩
    unfold afterEnter
    rw [Kernel.get_eq_ok.mpr hinfo, ok_bind, hblocked]
    exact unlessAtomic_of_outside hout kind none
  cases occasion with
  | sharedField | interrupt | unpark => exact ⟨_, _, unlessAtomic_of_outside hout _ _⟩
  | suspend | resume | endAtomic => exact ⟨_, _, rfl⟩
  | sharedArray => exact ⟨_, _, hflag _ _ (by simp [hasks.1, hasks.2])⟩
  | start | yield | sleep => exact ⟨_, _, hflag _ _ hasks⟩
  | monitorEnter | syncMethodEnter => exact ⟨_, _, henter _ hasks⟩
  | _ => exact hasks.elim

def favoured : Kernel := paired.performAll [.setPriority 1 9]

def favouring : Scheduler := { policy := { kind := .priority } }

end Scheduler

end Interleave
