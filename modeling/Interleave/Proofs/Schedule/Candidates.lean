import Interleave.Proofs.Except
import Interleave.Schedule.Scheduler

/-!
Whom a decision offers. Policies add nobody to the candidates, so apart from the choice among several
waiters every decision is one among threads that can run.
-/

namespace Interleave

namespace Policy

variable {k : Kernel} {d d' : Dice} {current : Option ThreadId} {t : ThreadId} {l l' : List ThreadId}

theorem mem_of_mem_rotate (h : t ∈ rotate current l) : t ∈ l := by
  unfold rotate at h
  split at h
  · exact h
  · split at h
    · exact h
    · rcases List.mem_append.mp h with h | h
      · exact List.mem_of_mem_drop h
      · exact List.mem_of_mem_take h

theorem mem_of_mem_ranked {ranked : List (ThreadId × Int32)}
    (h : l.mapM (fun t => do return (t, (← k.threads.get t).priority)) = .ok ranked)
    {p : Int32} (ht : (t, p) ∈ ranked) : t ∈ l := by
  induction l generalizing ranked with
  | nil =>
    rw [List.mapM_nil] at h
    cases h
    cases ht
  | cons u l ih =>
    rw [List.mapM_cons] at h
    obtain ⟨_, hfirst, h⟩ := bind_eq_ok.mp h
    obtain ⟨info, _, hpair⟩ := bind_eq_ok.mp hfirst
    obtain ⟨rest, hrest, h⟩ := bind_eq_ok.mp h
    cases hpair
    cases h
    rcases List.mem_cons.mp ht with heq | ht
    · cases heq
      exact List.mem_cons_self
    · exact List.mem_cons_of_mem u (ih hrest ht)

theorem mem_of_mem_foremost (h : foremost k l = .ok l') (ht : t ∈ l') : t ∈ l := by
  obtain ⟨ranked, hranked, h⟩ := bind_eq_ok.mp h
  split at h
  · cases h
    cases ht
  · cases h
    obtain ⟨⟨t', p⟩, hmem, rfl⟩ := List.mem_map.mp ht
    exact mem_of_mem_ranked hranked (List.mem_filter.mp hmem).1

theorem mem_of_mem_filter {p : Policy} (h : p.filter k d current l = .ok (l', d')) (ht : t ∈ l') : t ∈ l := by
  unfold filter at h
  split at h
  · cases h
    exact ht
  · cases h
    exact mem_of_mem_rotate ht
  · obtain ⟨kept, hkept, h⟩ := bind_eq_ok.mp h
    cases h
    exact mem_of_mem_foremost hkept ht
  · cases h
    exact (d.shuffler.perm d.state l).mem_iff.mp ht

end Policy

theorem Roster.mem_runnable {r : Roster} {t : ThreadId} :
    t ∈ r.runnable ↔ ∃ info ∈ r.toList, info.isRunnable = true ∧ info.id = t := by
  simp [runnable, and_assoc]

theorem Roster.mem_runnable_of_runnableWithout {r : Roster} {t u : ThreadId}
    (h : t ∈ r.runnableWithout u) : t ∈ r.runnable := by
  unfold runnableWithout at h
  obtain ⟨info, hinfo, rfl⟩ := List.mem_map.mp h
  rw [List.mem_filter, Bool.and_eq_true] at hinfo
  exact mem_runnable.mpr ⟨info, hinfo.1, hinfo.2.1, rfl⟩

def Occasion.amongRunnable : Occasion → Bool
  | .notify _ | .terminate => false
  | _ => true

namespace Scheduler

def Offers (p : ThreadId → Prop) (r : Except Fault (Option Generator × Kernel × Dice)) : Prop :=
  ∀ g after, r = .ok (some g, after) → ∀ t ∈ g.choices, p t

def Yields (q : Generator → Prop) (r : Except Fault (Option Generator × Kernel × Dice)) : Prop :=
  Ensures (fun p => ∀ g ∈ p.1, q g) r

inductive Decides (s : Scheduler) (k : Kernel) (d : Dice) (t : ThreadId) : Occasion → Generator → Prop where
  | waiters {o : Ref} {e : Element} (he : k.heap.get? o = some e) (hne : e.monitor.waiters ≠ []) :
    Decides s k d t (.notify o)
      { kind := .notify, choices := e.monitor.waiters, creator := some t, schedules := false }
  | ended {l : List ThreadId} {d' : Dice}
    (hl : s.policy.filter k d (some t) (k.threads.runnableWithout t) = .ok (l, d')) (hne : l ≠ []) :
    Decides s k d t .terminate { kind := .terminate, choices := l, creator := some t }
  | runnable {occasion : Occasion} {k₀ : Kernel} {kind : ChoiceKind} {access : Option ArrayAccess}
    {l : List ThreadId} {d' : Dice} (hoccasion : occasion.amongRunnable = true)
    (hkind : kind ∉ [.root, .notify, .terminate]) (hthreads : k₀.threads = k.threads)
    (hl : s.candidates k₀ d (some t) = .ok (l, d')) (hne : l ≠ []) :
    Decides s k d t occasion { kind, choices := l, creator := some t, access }

variable {s : Scheduler} {k : Kernel} {d : Dice} {q : Generator → Prop} {t : ThreadId} {occasion : Occasion}
  {kind : ChoiceKind}

theorem Yields.of_eq {r : Except Fault (Option Generator × Kernel × Dice)} {g : Generator}
    {after : Kernel × Dice} (h : Yields q r) (hr : r = .ok (some g, after)) : q g :=
  h (some g, after) hr g rfl

theorem yields_none : Yields q (pure (none, k, d)) := Ensures.pure nofun

theorem yields_announce {g : Generator} (h : g.choices ≠ [] → q g) : Yields q (pure (announce k d g)) := by
  apply Ensures.pure
  intro g' hg
  unfold announce at hg
  split at hg
  · cases hg
  · next hne =>
    cases hg
    exact h (by simpa using hne)

section Runnable

variable (hoccasion : occasion.amongRunnable = true) (hkind : kind ∉ [.root, .notify, .terminate])

include hoccasion hkind

theorem yields_optional (access : Option ArrayAccess) :
    Yields (s.Decides k d t occasion) (s.optional k d kind t access) :=
  Ensures.ite (Ensures.after fun _ h => yields_announce (.runnable hoccasion hkind rfl h)) yields_none

theorem yields_forced : Yields (s.Decides k d t occasion) (s.forced k d kind t) := by
  have hthreads : (if k.isAtomicFor t then k.setBlockedInAtomic else k).threads = k.threads := by
    unfold Kernel.setBlockedInAtomic
    split
    · split <;> rfl
    · rfl
  exact Ensures.after fun _ h => yields_announce (.runnable hoccasion hkind hthreads h)

theorem yields_unlessAtomic (access : Option ArrayAccess) :
    Yields (s.Decides k d t occasion) (s.unlessAtomic k d kind t access) :=
  Ensures.ite yields_none (yields_optional hoccasion hkind access)

theorem yields_afterEnter : Yields (s.Decides k d t occasion) (s.afterEnter k d kind t) :=
  Ensures.after fun _ _ =>
    Ensures.ite (yields_forced hoccasion hkind) (yields_unlessAtomic hoccasion hkind none)

end Runnable

theorem yields_afterEnd : Yields (s.Decides k d t .terminate) (s.afterEnd k d t) :=
  Ensures.ite (Ensures.after fun _ h => yields_announce (.ended h)) yields_none

theorem yields_amongWaiters (o : Ref) : Yields (s.Decides k d t (.notify o)) (amongWaiters k d t o) := by
  refine Ensures.ite yields_none (Ensures.after fun e he => ?_)
  have he : k.heap.get? o = some e := by
    unfold Heap.deref at he
    split at he
    · cases he
      assumption
    · cases he
  split
  · exact yields_none
  · exact yields_none
  · exact yields_announce (.waiters he)

theorem decides_of_decide {path : Path} {g : Generator} {after : Kernel × Dice}
    (h : s.decide k d path t occasion = .ok (some g, after)) : s.Decides k d t occasion g := by
  cases occasion with
  | notify o => exact (yields_amongWaiters o).of_eq h
  | terminate => exact yields_afterEnd.of_eq h
  | syncMethodEnter | monitorEnter => exact (yields_afterEnter rfl (by decide)).of_eq h
  | wait | park => exact (yields_forced rfl (by decide)).of_eq h
  | unpark | sharedField | interrupt => exact (yields_unlessAtomic rfl (by decide) _).of_eq h
  | sharedArray | start | yield | sleep =>
    exact Yields.of_eq (Ensures.ite (yields_unlessAtomic rfl (by decide) _) yields_none) h
  | suspend | resume | endAtomic => exact (yields_optional rfl (by decide) _).of_eq h
  | syncMethodExit | monitorExit | notifyAll | stop | beginAtomic => cases h

theorem root_eq_some {g : Generator} {after : Kernel × Dice} (h : s.root k d = .ok (some g, after)) :
    ∃ l d', s.candidates k d none = .ok (l, d') ∧ l ≠ [] ∧ g = .root l := by
  have hyields : Yields (fun g => ∃ l d', s.candidates k d none = .ok (l, d') ∧ l ≠ [] ∧ g = .root l)
      (s.root k d) :=
    Ensures.after fun _ hl => yields_announce fun hne => ⟨_, _, hl, hne, rfl⟩
  exact hyields.of_eq h

theorem offers_root : Offers (· ∈ k.threads.runnable) (s.root k d) := by
  intro g after hg u hu
  obtain ⟨l, d', hl, -, rfl⟩ := root_eq_some hg
  exact Policy.mem_of_mem_filter hl hu

theorem offers_decide (path : Path) (t : ThreadId) (occasion : Occasion) :
    Offers (fun u => u ∈ k.threads.runnable ∨
        ∃ o e, occasion = .notify o ∧ k.heap.get? o = some e ∧ u ∈ e.monitor.waiters)
      (s.decide k d path t occasion) := by
  intro g after hg u hu
  cases decides_of_decide hg with
  | waiters he => exact .inr ⟨_, _, rfl, he, hu⟩
  | ended hl => exact .inl (Roster.mem_runnable_of_runnableWithout (Policy.mem_of_mem_filter hl hu))
  | runnable _ _ hthreads hl => exact .inl (hthreads ▸ Policy.mem_of_mem_filter hl hu)

end Scheduler

end Interleave
