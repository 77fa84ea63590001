import Interleave.Proofs.Search.Discovery
import Mathlib.Data.Set.Card

/-!
Searches end. Between two new states a search only takes choices that are left on its path and drops
generators, so it goes on for ever only if it finds new states for ever. A budget forbids that, and so does
a program whose states have finitely many encodings.
-/

namespace Interleave

namespace Search

def Halts (s : Search) (p : Program) : Prop :=
  ∃ n, s.run p n ≠ .ok none ∧ ∀ fuel ≥ n, s.run p fuel = s.run p n

variable {s s' : Search} {p : Program}

theorem run_of_running (h : s.step p = .ok (.running s')) (fuel : Nat) :
    s.run p (fuel + 1) = s'.run p fuel := by
  rw [run, h, ok_bind]

theorem run_of_not_running (h : ∀ s', s.step p ≠ .ok (.running s')) (fuel : Nat) :
    s.run p (fuel + 1) = (s.step p).map some := by
  rw [run]
  cases hstep : s.step p with
  | error e => rfl
  | ok r =>
    cases r with
    | running s' => exact absurd hstep (h s')
    | finished s' => rfl
    | failed e x => rfl

theorem halts_of_step (h : ∀ s', s.step p = .ok (.running s') → s'.Halts p) : s.Halts p := by
  by_cases hrunning : ∃ s', s.step p = .ok (.running s')
  · obtain ⟨s', hstep⟩ := hrunning
    obtain ⟨n, hends, hrun⟩ := h s' hstep
    refine ⟨n + 1, run_of_running hstep n ▸ hends, fun fuel hfuel => ?_⟩
    obtain ⟨fuel, rfl⟩ := Nat.exists_eq_add_of_le' (Nat.le_of_add_left_le hfuel)
    rw [run_of_running hstep, run_of_running hstep]
    exact hrun fuel (Nat.le_of_add_le_add_right hfuel)
  · rw [not_exists] at hrunning
    refine ⟨1, ?_, fun fuel hfuel => ?_⟩
    · rw [run_of_not_running hrunning]
      cases s.step p <;> nofun
    · obtain ⟨fuel, rfl⟩ := Nat.exists_eq_add_of_le' hfuel
      rw [run_of_not_running hrunning, run_of_not_running hrunning]

theorem budget_of_step (h : s.step p = .ok (.running s')) :
    (∀ m ∈ s.limits.maxTransitions, s.outcome.stats.transitions < m.toNat) ∧
      ∀ m ∈ s.limits.maxStates, s.table.size < m.toNat := by
  have hbudget : s.budgetExhausted = none := by
    unfold step at h
    split at h
    · split at h
      · cases h
      · next hbudget => exact hbudget
    · cases h
  unfold budgetExhausted at hbudget
  split at hbudget
  · cases hbudget
  · next htransitions =>
    split at hbudget
    · cases hbudget
    · next hstates =>
      constructor
      · intro m hm
        rw [Option.mem_def.mp hm] at htransitions
        simpa using htransitions
      · intro m hm
        rw [Option.mem_def.mp hm] at hstates
        simpa using hstates

end Search

namespace Explorer

variable {x : Explorer} {p : Program} {s s' : Search}

theorem Searches.halts (rank : Search → Nat) (hrank : ∀ s s', x.Searches p s →
      s.step p = .ok (.running s') → rank s' < rank s ∨
        rank s' ≤ rank s ∧ s'.path.pending < s.path.pending)
    {s : Search} (hs : x.Searches p s) : s.Halts p := by
  apply Search.halts_of_step
  intro s' hstep
  have hfalls := hrank s s' hs hstep
  exact Searches.halts rank hrank (hs.step hstep)
termination_by (rank s, s.path.pending)
decreasing_by
  rcases hfalls with hlt | ⟨hle, hlt⟩
  · exact .left _ _ hlt
  · rcases Nat.lt_or_eq_of_le hle with hless | heq
    · exact .left _ _ hless
    · rw [heq]
      exact .right _ hlt

theorem Searches.halts_of_maxTransitions {m : UInt64} (hm : x.limits.maxTransitions = some m)
    (hs : x.Searches p s) : s.Halts p := by
  refine hs.halts (fun s => m.toNat - s.outcome.stats.transitions) fun s s' hs hstep => ?_
  have hbudget : s.outcome.stats.transitions < m.toNat := by
    refine (Search.budget_of_step hstep).1 m ?_
    rw [hs.traced.limits]
    exact hm
  rcases Search.idles_or_discovers hstep with hidles | ⟨sig, hdiscovers⟩
  · have hle := hidles.transitions
    exact .inr ⟨by omega, hidles.pending⟩
  · have heq := hdiscovers.transitions
    exact .inl (by omega)

theorem Searches.halts_of_maxStates {m : UInt64} (hm : x.limits.maxStates = some m)
    (hs : x.Searches p s) : s.Halts p := by
  refine hs.halts (fun s => m.toNat - s.table.size) fun s s' hs hstep => ?_
  have hbudget : s.table.size < m.toNat := by
    refine (Search.budget_of_step hstep).2 m ?_
    rw [hs.traced.limits]
    exact hm
  rcases Search.idles_or_discovers hstep with hidles | ⟨sig, hdiscovers⟩
  · rw [hidles.table]
    exact .inr ⟨Nat.le_refl _, hidles.pending⟩
  · have hsize := hdiscovers.size
    exact .inl (by omega)

theorem Searches.contains_node (hs : x.Searches p s) :
    ∀ node ∈ s.nodes, s.table.contains node.signature = true := by
  refine hs.induction (fun s hstart => ?_) (fun s s' hidles ih => ?_) (fun s s' sig _ hdiscovers ih => ?_)
  · obtain ⟨k, k', d, g, serializer, sig, reclaimed, -, -, -, rfl⟩ := start_eq_running hstart
    intro node hnode
    obtain rfl := List.mem_singleton.mp hnode
    exact (x.table.contains_of_visit sig).2.1
  · rw [hidles.table]
    exact fun node hnode => ih node (hidles.nodes node hnode)
  · obtain ⟨-, hnew, hold, -⟩ := s.table.contains_of_visit sig
    rw [hdiscovers.table, ← (StateTable.visit_of_new hdiscovers.isNew).2]
    intro node hnode
    rcases hdiscovers.nodes node hnode with hnode | rfl
    · exact hold _ (ih node hnode)
    · exact hnew

/-- The encodings that the transitions of the search lead to. -/
def produced (x : Explorer) (p : Program) : Set (List Int32) :=
  { w | ∃ st i st', x.Tries p st i st' ∧ st'.kernel.encode = .ok w }

theorem Searches.mem_produced (hs : x.Searches p s) {sig : Signature} (h : s.Discovers p sig s') :
    sig.words ∈ x.produced p ∧ sig = .ofWords sig.words := by
  -- even a signature from the cache is that of a state that has been visited
  obtain ⟨node, g, st, serializer, harrival⟩ := h.arrival
  have hsig : st.kernel.signature = .ok sig := by
    rcases Serializer.signature_eq_ok harrival.signature with hsig | ⟨hcached, -⟩
    · exact hsig
    · obtain rfl : node.signature = sig := Option.some.inj hcached
      obtain ⟨rest, hnodes⟩ := harrival.newest
      have hcontains := hs.contains_node node (hnodes ▸ List.mem_cons_self)
      rw [(StateTable.visit_of_new h.isNew).1] at hcontains
      cases hcontains
  obtain ⟨w, hw, rfl⟩ := Kernel.signature_eq_ok.mp hsig
  refine ⟨⟨_, _, _, ⟨s, node, g, st, serializer, .ofWords w, hs, harrival, rfl, rfl, rfl⟩, ?_⟩, rfl⟩
  exact hw

theorem Searches.halts_of_finite (hfinite : (x.produced p).Finite) (hs : x.Searches p s) : s.Halts p := by
  -- the encodings that have not been found yet
  refine hs.halts (fun s => { w ∈ x.produced p | .ofWords w ∉ s.table.states }.ncard)
    fun s s' hs hstep => ?_
  rcases Search.idles_or_discovers hstep with hidles | ⟨sig, hdiscovers⟩
  · rw [hidles.table]
    exact .inr ⟨Nat.le_refl _, hidles.pending⟩
  · obtain ⟨hmem, hsig⟩ := hs.mem_produced hdiscovers
    have hfresh : sig ∉ s.table.states := by
      intro hold
      have hcontains := StateTable.contains_of_mem hold
      rw [(StateTable.visit_of_new hdiscovers.isNew).1] at hcontains
      cases hcontains
    refine .inl (Set.ncard_lt_ncard ?_ (hfinite.subset (Set.sep_subset _ _)))
    have hsubset : { w ∈ x.produced p | .ofWords w ∉ s'.table.states } ⊆
        { w ∈ x.produced p | .ofWords w ∉ s.table.states } := by
      rw [hdiscovers.table]
      exact fun w ⟨hw, hnone⟩ => ⟨hw, fun hold => hnone (by simp [hold])⟩
    refine (Set.ssubset_iff_of_subset hsubset).mpr ⟨sig.words, ⟨hmem, hsig ▸ hfresh⟩, ?_⟩
    rw [hdiscovers.table]
    exact fun ⟨_, hnone⟩ => hnone (by simp [← hsig])

/-- If there is a budget, or the transitions lead to finitely many encodings, a search ends after a number of
steps, whatever the program does and whatever generators its transitions return. -/
theorem explore_terminates {x : Explorer} {p : Program}
    (h : x.limits.maxTransitions ≠ none ∨ x.limits.maxStates ≠ none ∨ (x.produced p).Finite) :
    ∃ n, x.explore p n ≠ .ok none ∧ ∀ fuel ≥ n, x.explore p fuel = x.explore p n := by
  have hhalts : ∀ s, x.Searches p s → s.Halts p := by
    intro s hs
    rcases h with h | h | h
    · obtain ⟨m, hm⟩ := Option.ne_none_iff_exists'.mp h
      exact hs.halts_of_maxTransitions hm
    · obtain ⟨m, hm⟩ := Option.ne_none_iff_exists'.mp h
      exact hs.halts_of_maxStates hm
    · exact hs.halts_of_finite h
  simp only [explore_eq]
  cases hstart : x.start p with
  | error e => exact ⟨0, nofun, fun _ _ => rfl⟩
  | ok first =>
    cases first with
    | failed e y => exact ⟨0, nofun, fun _ _ => rfl⟩
    | finished s => exact ⟨0, nofun, fun _ _ => rfl⟩
    | running s =>
      obtain ⟨n, hends, hrun⟩ := hhalts s ⟨s, hstart, .refl⟩
      simp only [ok_bind]
      refine ⟨n, fun hnone => ?_, fun fuel hfuel => by rw [hrun fuel hfuel]⟩
      obtain ⟨last?, hlast, hnone⟩ := bind_eq_ok.mp hnone
      cases last? with
      | none => exact hends hlast
      | some last =>
        obtain ⟨-, -, -, hstopped⟩ := Search.run_eq_some hlast
        cases last with
        | running s' => exact hstopped s' rfl
        | finished s' => cases hnone
        | failed e y => cases hnone

theorem finite_produced {n : Nat} {l : List Search}
    (hl : closure? (Search.following p) n (x.first p) = some l) : (x.produced p).Finite := by
  have hlisted := (l.filterMap (Search.attempted? p)).finite_toSet.image
    fun m => m.2.2.kernel.encode.toOption.getD []
  refine hlisted.subset ?_
  rintro w ⟨st, i, st', htries, hw⟩
  refine ⟨(st, i, st'), htries.mem_filterMap hl, ?_⟩
  simp [hw, Except.toOption]

def spinning : Script where
  fields := ["x"]
  threads := #[{ code := #[.load "x", .jumpIf 1 3, .jump 0] }, { code := #[.store "x" 1] }]

theorem explored_spinning : ∃ r ∈ explored? exactConfig spinning.program 30,
    r.2.1.stats.revisited = 1 ∧
    ∃ l, closure? (Search.following spinning.program) 30 (r.1.first spinning.program) = some l := by
  have h : ∃ r ∈ explored? exactConfig spinning.program 30, r.2.1.stats.revisited = 1 ∧
      (closure? (Search.following spinning.program) 30 (r.1.first spinning.program)).isSome = true := by
    decide +kernel
  obtain ⟨r, hr, hrevisited, hlisted⟩ := h
  exact ⟨r, hr, hrevisited, Option.isSome_iff_exists.mp hlisted⟩

theorem explore_terminates_spinning : ∃ x, withKernel (.ofConfig exactConfig) exactConfig = .ok x ∧
    x.limits.maxTransitions = none ∧ x.limits.maxStates = none ∧ (x.produced spinning.program).Finite ∧
    ∃ n, x.explore spinning.program n ≠ .ok none ∧
      ∀ fuel ≥ n, x.explore spinning.program fuel = x.explore spinning.program n := by
  obtain ⟨⟨x, o, y⟩, hr, -, l, hl⟩ := explored_spinning
  obtain ⟨hx, -⟩ := explored?_eq_some hr
  have hlimits := limits_withKernel hx
  have hfinite := finite_produced hl
  exact ⟨x, hx, by rw [hlimits]; rfl, by rw [hlimits]; rfl, hfinite,
    explore_terminates (.inr (.inr hfinite))⟩

end Explorer

end Interleave
