import Interleave.Proofs.Schedule.Arrangement

/-!
Whom a decision is among. The one after a notification is among all who wait, in the order in which they
have come. Every other one is among those who can run, arranged as the policy says, and after the end of a
thread among those of them who are left.
-/

namespace Interleave

namespace Kernel

/-- Threads are found under their numbers, and no wait set has a thread twice. -/
structure Listed (k : Kernel) : Prop where
  threads : k.threads.Numbered
  waiters : ∀ o e, k.heap.get? o = some e → e.monitor.waiters.Nodup

variable {k k' : Kernel} {t : ThreadId}

theorem Built.listed {ok : Kernel → Op → Prop} (hk : Built ok k) : k.Listed where
  threads := fun t info ht => (hk.tidy.threads t info ht).id
  waiters := fun o e he => (hk.tidy.monitors o e.monitor (monitor?_of_get? he)).waiters

theorem CanRun.isSome (h : k.CanRun t) : (k.threads.get? t).isSome = true := by
  obtain ⟨info, ht, -⟩ := h
  rw [Option.mem_def.mp ht]
  rfl

theorem canRun_congr (h : k'.threads = k.threads) : k'.CanRun = k.CanRun := by
  unfold CanRun
  rw [h]

end Kernel

structure Generator.IsFresh (g : Generator) : Prop where
  cursor : g.cursor = none
  nonempty : g.choices ≠ []
  nodup : g.choices.Nodup

namespace Scheduler

variable {s : Scheduler} {k : Kernel} {d d' : Dice} {current : Option ThreadId} {l : List ThreadId}

theorem candidates_eq_ok (s : Scheduler) (hk : k.threads.Numbered) (d : Dice) (current : Option ThreadId) :
    ∃ l d', s.candidates k d current = .ok (l, d') ∧ s.policy.Arranges k.threads current k.CanRun l ∧
      (l = [] → k.threads.runnable = []) ∧ (s.policy.kind ≠ .priority → l.Perm k.threads.runnable) := by
  have hrunnable := Kernel.enumerates_runnable hk
  apply Policy.filter_arranges s.policy d current hrunnable
  intro t ht
  exact Kernel.CanRun.isSome ((hrunnable.mem_iff t).mp ht)

theorem arranges_candidates (hk : k.threads.Numbered) (h : s.candidates k d current = .ok (l, d')) :
    s.policy.Arranges k.threads current k.CanRun l := by
  obtain ⟨_, _, hl, harranges, -⟩ := s.candidates_eq_ok hk d current
  rw [h] at hl
  cases hl
  exact harranges

theorem arranges_ended (hk : k.threads.Numbered) {t : ThreadId}
    (h : s.policy.filter k d (some t) (k.threads.runnableWithout t) = .ok (l, d')) :
    s.policy.Arranges k.threads (some t) (fun u => k.CanRun u ∧ u ≠ t) l := by
  have hleft := Kernel.enumerates_runnableWithout hk t
  have hknown : ∀ u ∈ k.threads.runnableWithout t, (k.threads.get? u).isSome = true := by
    intro u hu
    exact ((hleft.mem_iff u).mp hu).1.isSome
  obtain ⟨_, _, hl, harranges, -⟩ := Policy.filter_arranges s.policy d (some t) hleft hknown
  rw [h] at hl
  cases hl
  exact harranges

/-- Every decision offers exactly whom it should, in the order in which it should, whatever the policy is and
however the dice fall. -/
theorem choices_exact {s : Scheduler} {k : Kernel} (hk : k.Listed) (d : Dice) :
    (∀ g after, s.root k d = .ok (some g, after) →
      g.IsFresh ∧ g.kind = .root ∧ s.policy.Arranges k.threads none k.CanRun g.choices) ∧
    ∀ path t occasion g after, s.decide k d path t occasion = .ok (some g, after) →
      g.IsFresh ∧ match occasion with
        | .notify o => g.kind = .notify ∧ g.schedules = false ∧
          ∃ e, k.heap.get? o = some e ∧ g.choices = e.monitor.waiters
        | .terminate => g.kind = .terminate ∧
          s.policy.Arranges k.threads (some t) (fun u => k.CanRun u ∧ u ≠ t) g.choices
        | _ => g.kind ∉ [.root, .notify, .terminate] ∧
          s.policy.Arranges k.threads (some t) k.CanRun g.choices := by
  constructor
  · intro g after hg
    obtain ⟨l, d', hl, hne, rfl⟩ := root_eq_some hg
    have harranges := arranges_candidates hk.threads hl
    exact ⟨⟨rfl, hne, harranges.nodup⟩, rfl, harranges⟩
  · intro path t occasion g after hg
    cases decides_of_decide hg with
    | @waiters o e he hne => exact ⟨⟨rfl, hne, hk.waiters o e he⟩, rfl, rfl, e, he, rfl⟩
    | ended hl hne =>
      have harranges := arranges_ended hk.threads hl
      exact ⟨⟨rfl, hne, harranges.nodup⟩, rfl, harranges⟩
    | runnable hoccasion hkind hthreads hl hne =>
      have harranges := arranges_candidates (hthreads ▸ hk.threads) hl
      rw [hthreads, Kernel.canRun_congr hthreads] at harranges
      refine ⟨⟨rfl, hne, harranges.nodup⟩, ?_⟩
      split
      · cases hoccasion
      · cases hoccasion
      · exact ⟨hkind, harranges⟩

theorem exists_of_choices {r : Except Fault (Option Generator × Kernel × Dice)}
    (h : (r.toOption.bind (·.1)).map (·.choices) = some l) :
    ∃ g after, r = .ok (some g, after) ∧ g.choices = l := by
  obtain ⟨g, hg, rfl⟩ := Option.map_eq_some_iff.mp h
  match r with
  | .ok (some g', after) =>
    cases hg
    exact ⟨g, after, rfl, rfl⟩
  | .ok (none, _) | .error _ => cases hg

def attended : Kernel :=
  Kernel.awaited.performAll [.createThread "d" none none, .createThread "e" none none, .start 3 (.fresh 0 1),
    .start 4 (.fresh 0 1)]

def rotating : Scheduler := { policy := { kind := .roundRobin } }

def shuffling : Scheduler := { policy := { kind := .randomized } }

def reversing : Dice where
  shuffler := {
    seeded := UInt64.toNat
    draw := fun state l => (l.reverse, state)
    perm := fun _ l => l.reverse_perm }
  state := 0

theorem choices_exact_attended :
    attended.Listed ∧
      (∃ g after, rotating.decide attended reversing {} 3 (.sharedField ⟨0⟩) = .ok (some g, after) ∧
        g.choices = [4, 0, 3] ∧
        rotating.policy.Arranges attended.threads (some 3) attended.CanRun g.choices) ∧
      (∃ g after, rotating.decide attended reversing {} 3 .terminate = .ok (some g, after) ∧
        g.choices = [4, 0] ∧
        rotating.policy.Arranges attended.threads (some 3) (fun u => attended.CanRun u ∧ u ≠ 3) g.choices) ∧
      (∃ g after, rotating.decide attended reversing {} 3 (.notify ⟨0⟩) = .ok (some g, after) ∧
        g.choices = [2, 1] ∧ g.schedules = false) ∧
      ∃ g after, shuffling.root attended reversing = .ok (some g, after) ∧ g.choices = [4, 3, 0] ∧
        shuffling.policy.Arranges attended.threads none attended.CanRun g.choices := by
  have hlisted : attended.Listed := (Kernel.awaited_built.performAllowed (by decide +kernel)).listed
  have hexact := (choices_exact (s := rotating) hlisted reversing).2
  refine ⟨hlisted, ?_, ?_, ?_, ?_⟩
  · obtain ⟨g, after, hg, hchoices⟩ := exists_of_choices
      (r := rotating.decide attended reversing {} 3 (.sharedField ⟨0⟩)) (l := [4, 0, 3]) (by decide +kernel)
    exact ⟨g, after, hg, hchoices, (hexact _ _ _ g after hg).2.2⟩
  · obtain ⟨g, after, hg, hchoices⟩ := exists_of_choices
      (r := rotating.decide attended reversing {} 3 .terminate) (l := [4, 0]) (by decide +kernel)
    exact ⟨g, after, hg, hchoices, (hexact _ _ _ g after hg).2.2⟩
  · obtain ⟨g, after, hg, hchoices⟩ := exists_of_choices
      (r := rotating.decide attended reversing {} 3 (.notify ⟨0⟩)) (l := [2, 1]) (by decide +kernel)
    exact ⟨g, after, hg, hchoices, (hexact _ _ _ g after hg).2.2.1⟩
  · obtain ⟨g, after, hg, hchoices⟩ := exists_of_choices
      (r := shuffling.root attended reversing) (l := [4, 3, 0]) (by decide +kernel)
    exact ⟨g, after, hg, hchoices, ((choices_exact hlisted reversing).1 g after hg).2.2⟩

end Scheduler

end Interleave
