import Interleave.Proofs.Kernel.Grow

/-!
Who is inside an atomic section, and how deep. Few operations have to do with it at all, and only the owner
can leave a level, so as long as nobody else begins a section a thread stays inside until it has left as
many levels as it has entered.
-/

namespace Interleave

namespace Kernel

variable {k k' : Kernel} {t u : ThreadId} {o : Ref} {a : AtomicSection} {n : Nat}

section Frame

variable (h : k.atomic = a)

include h

theorem atomic_updateThread {f : Thread → Thread} : Ensures (·.atomic = a) (k.updateThread t f) := by
  intro k' hk'
  obtain ⟨info, -, rfl⟩ := updateThread_eq_ok.mp hk'
  exact h

theorem atomic_updateMonitor {f : Monitor → Monitor} : Ensures (·.atomic = a) (k.updateMonitor o f) := by
  intro k' hk'
  obtain ⟨e, -, rfl⟩ := updateMonitor_eq_ok.mp hk'
  exact h

theorem atomic_ifOwner {α : Type} {error : KernelError} {f : Element → Except Fault (Attempt α)}
    (hf : ∀ e, Ensures (·.2.atomic = a) (f e)) :
    Ensures (·.2.atomic = a) (do
      if !(← k.isOwner t o) then
        return (.error error, k)
      f (← k.heap.deref o)) := by
  apply Ensures.after
  intro owns _
  apply Ensures.ite
  · exact .pure h
  · exact .after fun e _ => hf e

theorem atomic_wakeRequesters : Ensures (·.atomic = a) (k.wakeRequesters o) := by
  apply Ensures.after
  intro e _
  refine .foldlM (fun k₁ u h₁ => ?_) h
  exact atomic_updateThread h₁

theorem atomic_lock : Ensures (·.2.atomic = a) (k.lock t o) := by
  apply Ensures.after
  intro e _
  apply Ensures.ite
  · apply Ensures.after
    intro info _
    exact .bind (atomic_updateThread h) fun k₁ h₁ => .bind (atomic_updateMonitor h₁) fun k₂ h₂ => .pure h₂
  · exact .bind (atomic_updateMonitor h) fun k₁ h₁ => .bind (atomic_updateThread h₁) fun k₂ h₂ => .pure h₂

theorem atomic_unlock : Ensures (·.2.atomic = a) (k.unlock t o) := by
  apply atomic_ifOwner h
  intro e
  refine .bind (atomic_updateMonitor h) fun k₁ h₁ => .ite ?_ ?_
  · exact .bind (atomic_updateThread h₁) fun k₂ h₂ => .bind (atomic_wakeRequesters h₂) fun k₃ h₃ => .pure h₃
  · exact .pure h₁

theorem atomic_enterWait {s : ThreadState} : Ensures (·.2.atomic = a) (k.enterWait t o s) := by
  apply atomic_ifOwner h
  intro e
  refine .bind (atomic_updateMonitor h) fun k₁ h₁ => .bind (atomic_updateThread h₁) fun k₂ h₂ => ?_
  exact .bind (atomic_wakeRequesters h₂) fun k₃ h₃ => .pure h₃

theorem atomic_timeOut : Ensures (·.2.atomic = a) (k.timeOut t) := by
  apply Ensures.after
  intro info _
  split
  · exact .pure h
  · apply Ensures.ite
    · exact .bind (atomic_updateMonitor h) fun k₁ h₁ => .bind (atomic_updateThread h₁) fun k₂ h₂ => .pure h₂
    · exact .pure h

theorem atomic_notifyThread : Ensures (·.2.atomic = a) (k.notifyThread t o u) := by
  apply atomic_ifOwner h
  intro e
  apply Ensures.ite
  · exact .bind (atomic_updateMonitor h) fun k₁ h₁ => .bind (atomic_updateThread h₁) fun k₂ h₂ => .pure h₂
  · exact .bind (atomic_updateMonitor h) fun k₁ h₁ => .pure h₁

theorem atomic_notify : Ensures (·.2.atomic = a) (k.notify t o) := by
  apply atomic_ifOwner h
  intro e
  split
  · exact .pure h
  · refine .bind (atomic_notifyThread h) fun r hr => ?_
    split <;> exact .pure hr

theorem atomic_notifyEach {l : List ThreadId} : Ensures (·.2.atomic = a) (k.notifyEach t o l) := by
  induction l generalizing k with
  | nil => exact .pure h
  | cons waiter l ih =>
    refine .bind (atomic_notifyThread h) fun r hr => ?_
    split
    · exact .pure hr
    · exact ih hr

theorem atomic_notifyAll : Ensures (·.2.atomic = a) (k.notifyAll t o) := by
  apply atomic_ifOwner h
  intro e
  refine .bind (atomic_notifyEach h) fun r hr => ?_
  split <;> exact .pure hr

theorem atomic_unpark : Ensures (·.2.atomic = a) (k.unpark t) := by
  apply Ensures.after
  intro info _
  exact .bind (atomic_updateThread h) fun k₁ h₁ => .pure h₁

theorem atomic_interrupt : Ensures (·.atomic = a) (k.interrupt t) := by
  apply Ensures.after
  intro info _
  split
  iterate 2
    · refine .bind (atomic_updateThread h) fun k₁ h₁ => ?_
      split
      · exact .pure h₁
      · refine .bind (atomic_updateMonitor h₁) fun k₂ h₂ => .after fun e _ => ?_
        exact atomic_updateThread h₂
  · exact atomic_updateThread h
  · exact atomic_updateThread h
  · exact atomic_updateThread h

theorem atomic_startThread {frame : Frame} : Ensures (·.2.atomic = a) (k.startThread t frame) := by
  apply Ensures.after
  intro info _
  apply Ensures.ite
  · exact .bind (atomic_updateThread h) fun k₁ h₁ => .pure h₁
  · exact .pure h

theorem atomic_enterMethod {frame : Frame} : Ensures (·.2.atomic = a) (k.enterMethod t frame) := by
  apply Ensures.after
  intro info _
  apply Ensures.ite
  · exact .bind (atomic_updateThread h) fun k₁ h₁ => .pure h₁
  · exact .bind (atomic_updateThread h) fun k₁ h₁ => .pure h₁

theorem atomic_exitMethod : Ensures (·.2.atomic = a) (k.exitMethod t) := by
  apply Ensures.after
  intro info _
  refine .bind (atomic_updateThread h) fun k₁ h₁ => ?_
  split <;> exact .pure h₁

theorem atomic_instructionExecuted : Ensures (·.atomic = a) (k.instructionExecuted t) := by
  apply Ensures.after
  intro info _
  split <;> exact .pure h

theorem atomic_releaseHeld : Ensures (·.atomic = a) (releaseHeld t k o) :=
  .bind (atomic_updateMonitor h) fun _ h₁ => .bind (atomic_wakeRequesters h₁) fun _ h₂ => .pure h₂

theorem atomic_wakeJoiner : Ensures (·.atomic = a) (wakeJoiner o k t) := by
  refine .bind (atomic_updateMonitor h) fun k₁ h₁ => .bind (atomic_updateMonitor h₁) fun k₂ h₂ => ?_
  exact .bind (atomic_updateThread h₂) fun k₃ h₃ => .pure h₃

theorem atomic_terminateThread :
    Ensures (fun r => r.2.atomic = a ∨ a.owner = some t ∧ r.2.atomic = {}) (k.terminateThread t) := by
  apply Ensures.after
  intro info _
  apply Ensures.ite
  · exact .pure (.inl h)
  · have hfreed : Ensures (·.atomic = a) (info.lockedObjects.foldlM (releaseHeld t) k) :=
      .foldlM (fun _ _ => atomic_releaseHeld) h
    refine .bind hfreed fun k₁ h₁ => .bind (atomic_updateThread h₁) fun k₂ h₂ => .after fun e _ => ?_
    have hjoined : Ensures (·.atomic = a) (e.monitor.waiters.foldlM (wakeJoiner info.object) k₂) :=
      .foldlM (fun _ _ => atomic_wakeJoiner) h₂
    refine .bind hjoined fun k₃ h₃ => .pure ?_
    dsimp only
    split
    · next howner => exact .inr ⟨h₃ ▸ howner, rfl⟩
    · exact .inl h₃

end Frame

theorem atomic_grow {proper : Prop} (h : Grow proper k k') : k'.atomic = k.atomic := by
  cases h with
  | name hname | object hname | thread hname =>
    obtain ⟨_, _, _, rfl⟩ := newGlobalId_eq_ok.mp hname
    rfl
  | _ => rfl

theorem atomic_grows {proper : Prop} (h : Grows proper k k') : k'.atomic = k.atomic := by
  induction h with
  | refl => rfl
  | tail _ h ih => exact (atomic_grow h).trans ih

theorem atomic_perform {op : Op} (h : k.perform op = .ok k') :
    match op with
    | .beginAtomic t => k' = k.beginAtomic t
    | .endAtomic t => k' = (k.endAtomic t).2
    | .setBlockedInAtomic => k' = k.setBlockedInAtomic
    | .terminate t => k'.atomic = k.atomic ∨ k.atomic.owner = some t ∧ k'.atomic = {}
    | _ => k'.atomic = k.atomic := by
  have hsnd : ∀ {α : Type} {x : Except Fault (α × Kernel)}, Ensures (·.2.atomic = k.atomic) x →
      (x >>= fun r => pure r.2) = .ok k' → k'.atomic = k.atomic := by
    intro α x hx h
    obtain ⟨r, h⟩ := snd_eq_ok.mp h
    exact hx _ h
  cases op with
  | beginAtomic | endAtomic | setBlockedInAtomic =>
    cases h
    rfl
  | tell =>
    cases h
    rfl
  | terminate =>
    obtain ⟨r, h⟩ := snd_eq_ok.mp h
    exact atomic_terminateThread rfl _ h
  | start => exact hsnd (atomic_startThread rfl) h
  | enter => exact hsnd (atomic_enterMethod rfl) h
  | exit => exact hsnd (atomic_exitMethod rfl) h
  | lock => exact hsnd (atomic_lock rfl) h
  | unlock => exact hsnd (atomic_unlock rfl) h
  | wait | timedWait => exact hsnd (atomic_enterWait rfl) h
  | timeOut => exact hsnd (atomic_timeOut rfl) h
  | notifyThread => exact hsnd (atomic_notifyThread rfl) h
  | notify => exact hsnd (atomic_notify rfl) h
  | notifyAll => exact hsnd (atomic_notifyAll rfl) h
  | unpark => exact hsnd (atomic_unpark rfl) h
  | executed => exact atomic_instructionExecuted rfl _ h
  | interrupt => exact atomic_interrupt rfl _ h
  | setFrame | setPriority | setDaemon | sleep | endSleep | suspend | resume | park =>
    exact atomic_updateThread rfl _ h
  | _ => exact atomic_grows (@perform_grows False _ _ _ rfl h False.elim False.elim)

end Kernel

def AtomicSection.Sound (a : AtomicSection) : Prop := a.owner = none ↔ a.depth = 0

/-- How many levels deep `t` is after the operation if it was `n` levels deep before. -/
def Op.nesting (t : ThreadId) (n : Nat) : Op → Nat
  | .beginAtomic u => if u = t then n + 1 else n
  | .endAtomic u => if u = t then n - 1 else n
  | _ => n

namespace Kernel

variable {k k' : Kernel} {t u : ThreadId} {n : Nat} {op : Op}

theorem atomic_setBlockedInAtomic (k : Kernel) :
    k.setBlockedInAtomic.atomic.owner = k.atomic.owner ∧ k.setBlockedInAtomic.atomic.depth = k.atomic.depth := by
  unfold setBlockedInAtomic
  split <;> exact ⟨rfl, rfl⟩

theorem sound_beginAtomic (k : Kernel) (t : ThreadId) : (k.beginAtomic t).atomic.Sound := by
  unfold AtomicSection.Sound beginAtomic
  dsimp only
  split
  · split <;> simp
  · simp

theorem sound_endAtomic (hk : k.atomic.Sound) (t : ThreadId) : (k.endAtomic t).2.atomic.Sound := by
  unfold AtomicSection.Sound endAtomic
  split
  · simp
  · exact hk

theorem sound_perform (hk : k.atomic.Sound) (h : k.perform op = .ok k') : k'.atomic.Sound := by
  have heffect := atomic_perform h
  split at heffect
  · exact heffect ▸ sound_beginAtomic k _
  · exact heffect ▸ sound_endAtomic hk _
  · obtain ⟨howner, hdepth⟩ := atomic_setBlockedInAtomic k
    unfold AtomicSection.Sound
    rw [heffect, howner, hdepth]
    exact hk
  · rcases heffect with heq | ⟨-, heq⟩
    · exact heq ▸ hk
    · rw [heq]
      exact ⟨fun _ => rfl, fun _ => rfl⟩
  · exact heffect ▸ hk

theorem Built.sound {ok : Kernel → Op → Prop} (hk : Built ok k) : k.atomic.Sound := by
  -- what is put back was sound when it was captured
  induction hk with
  | start => exact ⟨fun _ => rfl, fun _ => rfl⟩
  | perform _ _ hk' ih => exact sound_perform ih hk'
  | adopt _ _ _ ih => exact ih
  | restore _ _ _ _ ih => exact ih

def Inside (k : Kernel) (t : ThreadId) (n : Nat) : Prop :=
  if n = 0 then k.atomic.owner ≠ some t else k.atomic.owner = some t ∧ k.atomic.depth = n

theorem isAtomicFor_iff : k.isAtomicFor t = true ↔ k.atomic.owner = some t := beq_iff_eq

theorem Inside.isAtomicFor_iff (h : k.Inside t n) : k.isAtomicFor t = true ↔ 0 < n := by
  rw [Kernel.isAtomicFor_iff]
  unfold Inside at h
  split at h
  · next hn => simp [h, hn]
  · next hn => simp [h.1, Nat.pos_of_ne_zero hn]

theorem Inside.congr (h : k.Inside t n) (howner : k'.atomic.owner = k.atomic.owner)
    (hdepth : k'.atomic.depth = k.atomic.depth) : k'.Inside t n := by
  unfold Inside at h ⊢
  rwa [howner, hdepth]

theorem inside_beginAtomic (hk : k.atomic.Sound) (h : k.Inside t n) : (k.beginAtomic t).Inside t (n + 1) := by
  unfold Inside at h ⊢
  rw [if_neg (Nat.succ_ne_zero n)]
  refine ⟨rfl, ?_⟩
  unfold beginAtomic
  dsimp only
  split at h
  · next hn =>
    subst hn
    split
    · next owner howner =>
      rw [if_neg]
      rintro rfl
      exact h howner
    · next hfree => rw [hk.mp hfree]
  · rw [h.1, h.2]
    exact if_pos rfl

theorem inside_endAtomic (h : k.Inside t n) : (k.endAtomic t).2.Inside t (n - 1) := by
  unfold Inside at h
  split at h
  · next hn =>
    have hout : k.isAtomicFor t = false := by
      rw [← Bool.not_eq_true, isAtomicFor_iff]
      exact h
    unfold endAtomic
    rw [if_neg (by simp [hout]), hn]
    exact h
  · unfold endAtomic
    rw [if_pos (isAtomicFor_iff.mpr h.1)]
    unfold Inside
    dsimp only
    rw [h.2]
    split
    · simp
    · exact ⟨rfl, rfl⟩

theorem inside_endAtomic_of_ne (hne : u ≠ t) (h : k.Inside t n) : (k.endAtomic u).2.Inside t n := by
  unfold endAtomic
  split
  · next hu =>
    have howner := isAtomicFor_iff.mp hu
    unfold Inside at h ⊢
    split at h
    · next hn =>
      rw [if_pos hn]
      dsimp only
      split
      · simp
      · exact fun heq => hne (Option.some.inj heq)
    · rw [howner] at h
      exact absurd (Option.some.inj h.1) hne
  · exact h

theorem inside_perform (hk : k.atomic.Sound) (hbegin : ∀ u, op = .beginAtomic u → u = t) (hend : op ≠ .terminate t)
    (h : k.perform op = .ok k') (hin : k.Inside t n) : k'.Inside t (op.nesting t n) := by
  have heffect := atomic_perform h
  cases op with
  | beginAtomic u =>
    obtain rfl := hbegin u rfl
    rw [heffect, Op.nesting, if_pos rfl]
    exact inside_beginAtomic hk hin
  | endAtomic u =>
    rw [heffect, Op.nesting]
    split
    · next hu =>
      subst hu
      exact inside_endAtomic hin
    · next hu => exact inside_endAtomic_of_ne hu hin
  | setBlockedInAtomic =>
    obtain ⟨howner, hdepth⟩ := atomic_setBlockedInAtomic k
    exact heffect ▸ hin.congr howner hdepth
  | terminate u =>
    rcases heffect with heq | ⟨howner, heq⟩
    · exact hin.congr (heq ▸ rfl) (heq ▸ rfl)
    · -- the section that is given up is not that of `t`, so `t` was outside and still is
      unfold Op.nesting Inside at *
      split at hin
      · next hn =>
        rw [if_pos hn, heq]
        exact nofun
      · rw [howner] at hin
        cases hin.1
        exact absurd rfl hend
  | _ => exact hin.congr (congrArg AtomicSection.owner heffect) (congrArg AtomicSection.depth heffect)

theorem inside_run {ops : List Op} (hk : k.atomic.Sound) (hbegin : ∀ u, .beginAtomic u ∈ ops → u = t)
    (hend : .terminate t ∉ ops) (hrun : ops.foldlM perform k = .ok k') (hin : k.Inside t n) :
    k'.Inside t (ops.foldl (Op.nesting t) n) := by
  induction ops generalizing k n with
  | nil =>
    cases hrun
    exact hin
  | cons op ops ih =>
    rw [List.foldlM_cons] at hrun
    obtain ⟨k₁, h₁, hrun⟩ := bind_eq_ok.mp hrun
    have hin₁ := inside_perform hk (fun u hu => hbegin u (hu ▸ List.mem_cons_self))
      (fun hop => hend (hop ▸ List.mem_cons_self)) h₁ hin
    refine ih (sound_perform hk h₁) ?_ ?_ hrun hin₁
    · exact fun u hu => hbegin u (List.mem_cons_of_mem op hu)
    · exact fun ht => hend (List.mem_cons_of_mem op ht)

end Kernel

end Interleave
