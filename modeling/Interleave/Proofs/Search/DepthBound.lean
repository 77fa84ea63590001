import Interleave.Proofs.Search.Discovery

/-!
What a search with a depth limit finds. A new state at the end of a path that is as long as the limit allows
is cut off, and this is not made up for if a shorter path leads to the state later. So the table need not have
every state within the limit, but it has all that executions reach without going on from a state that was
cut off.
-/

namespace Interleave

theorem Path.depth_setTop {path : Path} {g g' : Generator} (htop : path.top? = some g) :
    (path.setTop g').depth = path.depth := by
  obtain ⟨older, hpath⟩ := List.head?_eq_some_iff.mp htop
  unfold setTop depth
  rw [hpath]
  rfl

namespace Search

variable {s s' : Search} {p : Program}

theorem done_of_finished (htransitions : s.limits.maxTransitions = none)
    (hstates : s.limits.maxStates = none) (h : s.step p = .ok (.finished s')) :
    s' = s ∧ (s.nodes = [] ∨ s.path.top? = none) := by
  cases step_cases h with
  | done hdone => exact ⟨rfl, hdone⟩
  | exhausted reason hbudget =>
    unfold budgetExhausted at hbudget
    rw [htransitions, hstates] at hbudget
    cases hbudget

theorem depth_of_step (h : s.step p = .ok (.running s')) :
    s'.path.depth ≤ s.path.depth ∨ s.atDepthLimit = false ∧ s'.path.depth = s.path.depth + 1 := by
  cases step_cases h with
  | pop => exact .inl (List.tail_sublist s.path.newestFirst).length_le
  | seen harrival => exact .inl (Nat.le_of_eq (Path.depth_setTop harrival.top))
  | @new node g st serializer sig harrival reclaimed =>
    have hdepth : (s.arrived { g with cursor := some g.processed } st serializer sig reclaimed).path.depth =
        s.path.depth := Path.depth_setTop harrival.top
    generalize hs' : Search.enterNewState _ p sig st.next node.blockedInAtomic = s'
    cases hs' ▸ enterNewState_cases _ p sig st.next node.blockedInAtomic with
    | violation => exact .inl (Nat.le_of_eq hdepth)
    | terminal => exact .inl (Nat.le_of_eq hdepth)
    | limited => exact .inl (Nat.le_of_eq hdepth)
    | expanded _ _ _ hlimit =>
      refine .inr ⟨?_, congrArg (· + 1) hdepth⟩
      unfold atDepthLimit at hlimit ⊢
      rw [hdepth] at hlimit
      exact hlimit

theorem off_stack_of_steps {sig : Signature} (h : s.Steps p s') (hin : s.table.contains sig = true) :
    s'.table.contains sig = true ∧
      ((∀ node ∈ s.nodes, node.signature ≠ sig) → ∀ node ∈ s'.nodes, node.signature ≠ sig) := by
  -- what is in the table stays there, and so it is never new again
  induction h with
  | refl => exact ⟨hin, id⟩
  | @tail s₁ s₂ _ hstep ih =>
    obtain ⟨hin₁, hout₁⟩ := ih
    rcases idles_or_discovers hstep with hidles | ⟨sig', hdiscovers⟩
    · rw [hidles.table]
      exact ⟨hin₁, fun hout node hnode => hout₁ hout node (hidles.nodes node hnode)⟩
    · obtain ⟨hnew, htable⟩ := StateTable.visit_of_new hdiscovers.isNew
      rw [hdiscovers.table, ← htable]
      refine ⟨(s₁.table.contains_of_visit sig').2.2.1 sig hin₁, fun hout node hnode => ?_⟩
      rcases hdiscovers.nodes node hnode with hnode | rfl
      · exact hout₁ hout node hnode
      · rintro rfl
        rw [hin₁] at hnew
        cases hnew

end Search

namespace Explorer

section

variable (x : Explorer) (p : Program) (k₀ : Kernel)

inductive ReachableThrough (q : Standing → Prop) : Standing → Prop where
  | initial {st : Standing} (h : x.begin k₀ = .ok st) : ReachableThrough q st
  | step {st st' : Standing} {i : Nat} (h : ReachableThrough q st) (hst : p.Passes st) (hq : q st)
    (htakes : x.Takes p st i st') : ReachableThrough q st'

/-- The search has cut off the state with this encoding. -/
def Abandons (st : Standing) : Prop := ∃ st' sig, x.CutsOff p st' sig ∧ st.kernel.signature = .ok sig

def Accounts (first : Signature) (s : Search) : Prop :=
  ∀ sig ∈ s.table.states, x.Settled p k₀ s.table first sig ∨ (∃ node ∈ s.nodes, node.signature = sig) ∨
    ∃ st, x.CutsOff p st sig

structure Bounded (table : StateTable) (first : Signature) : Prop where
  exact : table.matching = .exact
  hasFirst : first ∈ table.states
  settled : ∀ sig ∈ table.states, x.Settled p k₀ table first sig ∨ ∃ st, x.CutsOff p st sig

end

variable {x : Explorer} {p : Program} {k₀ : Kernel} {first sig : Signature}

theorem ReachableThrough.reachable {q : Standing → Prop} {st : Standing}
    (h : x.ReachableThrough p k₀ q st) : x.Reachable p k₀ st := by
  induction h with
  | initial h => exact .initial h
  | step _ hst _ htakes ih => exact .step ih hst htakes

theorem Reachable.through {st : Standing} (h : x.Reachable p k₀ st) :
    x.ReachableThrough p k₀ (¬ x.Abandons p ·) st ∨
      ∃ st₁, x.Reachable p k₀ st₁ ∧ st₁.path.depth < st.path.depth ∧ x.Abandons p st₁ := by
  induction h with
  | initial h => exact .inl (.initial h)
  | @step st st' i hst hpasses htakes ih =>
    have hdepth : st'.path.depth = st.path.depth + 1 := by
      obtain ⟨g, c, -, -, htake⟩ := htakes
      rw [(take_eq_ok htake).1]
      rfl
    rcases ih with hthrough | ⟨st₁, hst₁, hlt, habandons⟩
    · by_cases habandons : x.Abandons p st
      · exact .inr ⟨st, hst, by omega, habandons⟩
      · exact .inl (hthrough.step hpasses habandons htakes)
    · exact .inr ⟨st₁, hst₁, by omega, habandons⟩

theorem Searches.depth_le {s : Search} {d : UInt64} (h : x.Searches p s) (hd : x.limits.maxDepth = some d)
    (hpos : 1 ≤ d.toNat) : s.path.depth ≤ d.toNat := by
  obtain ⟨s₀, hstart, hsteps⟩ := h
  induction hsteps with
  | refl =>
    obtain ⟨g, hpath⟩ := path_of_start hstart
    rw [hpath]
    exact hpos
  | @tail s s' hsteps hstep ih =>
    rcases Search.depth_of_step hstep with hle | ⟨hlow, heq⟩
    · exact Nat.le_trans hle ih
    · unfold Search.atDepthLimit at hlow
      rw [(Searches.traced ⟨s₀, hstart, hsteps⟩).limits, hd] at hlow
      have hlt : s.path.depth < d.toNat := by simpa using hlow
      omega

theorem CutsOff.execution {st : Standing} {d : UInt64} (h : x.CutsOff p st sig)
    (hd : x.limits.maxDepth = some d) (hpos : 1 ≤ d.toNat) :
    ∃ trace, x.Execution p trace st ∧ trace.length = d.toNat := by
  obtain ⟨s, g, s', hs, hopens, hpath⟩ := h
  have ⟨hstep, _, _, _, harrival, _⟩ := hopens
  obtain ⟨⟨trace, hst⟩, -, -⟩ := hs.traced.execution harrival
  refine ⟨trace, hst, Nat.le_antisymm ?_ ?_⟩
  · rw [← hst.trace_path.2, ← hpath]
    exact (hs.step hstep).depth_le hd hpos
  · obtain ⟨⟨d', hd', hle⟩, -⟩ := hopens.of_path_eq hpath
    rw [hs.traced.limits, hd] at hd'
    cases hd'
    rwa [← hst.trace_path.2]

theorem Searches.contains_signature {s : Search} (h : x.Searches p s) :
    ∀ node ∈ s.nodes, s.table.contains node.signature = true := by
  refine h.induction (fun s hstart => ?_) (fun s s' hidles ih => ?_) (fun s s' sig _ hdiscovers ih => ?_)
  · obtain ⟨_, _, _, _, _, sig, _, -, -, -, rfl⟩ := start_eq_running hstart
    intro node hnode
    obtain rfl := List.mem_singleton.mp hnode
    exact (x.table.contains_of_visit sig).2.1
  · rw [hidles.table]
    exact fun node hnode => ih node (hidles.nodes node hnode)
  · rw [hdiscovers.table, ← (StateTable.visit_of_new hdiscovers.isNew).2]
    obtain ⟨-, hin, hmono, -⟩ := s.table.contains_of_visit sig
    intro node hnode
    rcases hdiscovers.nodes node hnode with hnode | rfl
    · exact hmono _ (ih node hnode)
    · exact hin

theorem CutsOff.off_stack {st : Standing} (h : x.CutsOff p st sig) {s : Search} (hs : x.Searches p s) :
    ∀ node ∈ s.nodes, node.signature ≠ sig := by
  obtain ⟨s₁, g, s₂, hs₁, hopens, hpath⟩ := h
  have ⟨hstep, _, _, _, _, hnew, _⟩ := hopens
  -- until then the signature is not in the table, which has those of all nodes
  have hbefore : ∀ s, x.Searches p s → s.Steps p s₁ → ∀ node ∈ s.nodes, node.signature ≠ sig := by
    rintro s hs hsteps node hnode rfl
    have hin := (Search.off_stack_of_steps hsteps (hs.contains_signature node hnode)).1
    rw [(StateTable.visit_of_new hnew).1] at hin
    cases hin
  obtain ⟨s₀, hstart, hsteps⟩ := hs
  obtain ⟨s₀', hstart', hsteps₁⟩ := hs₁
  rw [hstart] at hstart'
  cases hstart'
  rcases Search.steps_total hsteps hsteps₁ with hlater | hearlier
  · exact hbefore s ⟨s₀, hstart, hsteps⟩ hlater
  · rcases hearlier.cases_head with rfl | ⟨s₂', hstep', hrest⟩
    · exact hbefore s₁ ⟨s₀, hstart, hsteps⟩ .refl
    · rw [hstep] at hstep'
      cases hstep'
      obtain ⟨-, -, htable, hnodes⟩ := hopens.of_path_eq hpath
      refine (Search.off_stack_of_steps hrest ?_).2 ?_
      · rw [htable]
        exact (s₁.table.contains_of_visit sig).2.1
      · rw [hnodes]
        exact hbefore s₁ ⟨s₀, hstart, hsteps₁⟩ .refl

namespace Accounts

variable {s s' : Search} {node : Node} {g : Generator} {st : Standing} {serializer : Serializer}

theorem entered (hs : x.Invariant p k₀ first s) (hp : p.IsTracked)
    (h : s.Arrival p node g st serializer sig) (hnew : (s.table.visit sig).1.isNew = true) {reclaimed : Nat}
    (hentered : (s.arrived { g with cursor := some g.processed } st serializer sig reclaimed).Entered p
      sig st.next s') (hstep : s.step p = .ok (.running s')) :
    x.Settled p k₀ s'.table first sig ∨ (∃ node ∈ s'.nodes, node.signature = sig) ∨
      ∃ st, x.CutsOff p st sig := by
  obtain ⟨htries, -, hst⟩ := hs.tries hp h
  have hreaches : x.Reaches p k₀ (s.announced { g with cursor := some g.processed } st sig) :=
    .inr (.inr ⟨_, _, .inr htries⟩)
  cases hentered with
  | violation hcheck => exact .inl ⟨_, hreaches, hst, .inl ⟨hs.ne_first hnew, hcheck⟩⟩
  | terminal _ hnext => exact .inl ⟨_, hreaches, hst, .inr (.inl hnext)⟩
  | limited _ hcheck hnext =>
    exact .inr (.inr ⟨st, s, _, _, hs.searches, ⟨hstep, node, g, serializer, h, hnew, hnext, hcheck⟩,
      h.path.symm⟩)
  | expanded => exact .inr (.inl ⟨_, .head _, rfl⟩)

theorem step (h : x.Accounts p k₀ first s) (hs : x.Invariant p k₀ first s) (hp : p.IsTracked)
    (hstep : s.step p = .ok (.running s')) : x.Accounts p k₀ first s' := by
  have hstep' := hstep
  cases Search.step_cases hstep with
  | @pop node rest g hnodes htop hdone =>
    obtain ⟨st₀, -, -, hst₀, -⟩ := hs.top hnodes htop
    have hnodes' : (s.popGenerator g).nodes = rest := congrArg List.tail hnodes
    intro sig hsig
    rcases h sig hsig with hsettled | ⟨node', hnode', rfl⟩ | hcut
    · exact .inl hsettled
    · rw [hnodes] at hnode'
      rcases List.mem_cons.mp hnode' with rfl | hnode'
      · exact .inl (hst₀.settled hdone)
      · exact .inr (.inl ⟨node', hnodes' ▸ hnode', rfl⟩)
    · exact .inr (.inr hcut)
  | seen harrival reclaimed hseen =>
    intro sig' hsig'
    dsimp only [Search.arrived, Search.setStats] at hsig' ⊢
    rw [(StateTable.visit_of_seen hseen).2] at hsig' ⊢
    exact h sig' hsig'
  | @new node g st serializer sig harrival reclaimed hnew =>
    generalize hs' : Search.enterNewState _ p sig st.next node.blockedInAtomic = s' at hstep' ⊢
    have hentered := hs' ▸ Search.enterNewState_cases _ p sig st.next node.blockedInAtomic
    obtain ⟨htable, hnodes⟩ := hentered.frame
    intro sig' hsig'
    have hmem : sig' ∈ s.table.states ∨ sig' = sig := by
      rw [htable] at hsig'
      dsimp only [Search.arrived] at hsig'
      rw [(StateTable.visit_of_new hnew).2] at hsig'
      simpa using hsig'
    rcases hmem with hold | rfl
    · rcases h sig' hold with hsettled | ⟨node', hnode', rfl⟩ | hcut
      · rw [htable]
        exact .inl (hsettled.mono (s.table.contains_of_visit sig).2.2.1)
      · exact .inr (.inl ⟨node', hnodes node' hnode', rfl⟩)
      · exact .inr (.inr hcut)
    · exact entered hs hp harrival hnew hentered hstep'

theorem steps (h : x.Accounts p k₀ first s) (hs : x.Invariant p k₀ first s) (hp : p.IsTracked)
    (hdep : x.DependsOnEncoding p k₀) (hsteps : s.Steps p s') : x.Accounts p k₀ first s' := by
  induction hsteps with
  | refl => exact h
  | tail hsteps hstep ih => exact ih.step (hs.steps hp hdep hsteps) hp hstep

end Accounts

section

variable (hserializer : x.serializer = {}) (htable : x.table = { matching := .exact })
  (hp : p.IsTracked) (hdep : x.DependsOnEncoding p k₀) (hk₀ : x.HoldsInitial p k₀)

include hserializer htable hp hdep hk₀

theorem Searches.invariant {s : Search} (h : x.Searches p s) :
    ∃ first, k₀.signature = .ok first ∧ x.Invariant p k₀ first s ∧ x.Accounts p k₀ first s := by
  obtain ⟨s₀, hstart, hsteps⟩ := h
  obtain ⟨first, hfirst, hs₀⟩ := Invariant.start hserializer htable hk₀ hdep hstart
  have haccounts : x.Accounts p k₀ first s₀ := by
    intro sig hsig
    exact (hs₀.settled (depthLimited_start (.inl hstart)) sig hsig).imp_right .inl
  exact ⟨first, hfirst, hs₀.steps hp hdep hsteps, haccounts.steps hs₀ hp hdep hsteps⟩

theorem CutsOff.signature {st : Standing} (h : x.CutsOff p st sig) : st.kernel.signature = .ok sig := by
  obtain ⟨s, g, s', hs, ⟨-, node, g₀, serializer, harrival, -⟩, -⟩ := h
  obtain ⟨first, -, hinvariant, -⟩ := hs.invariant hserializer htable hp hdep hk₀
  rw [← (hinvariant.tries hp harrival).2.2]
  exact Kernel.signature_eq_of_snapshot rfl

theorem Bounded.contains {table : StateTable} (h : x.Bounded p k₀ table first)
    (hfirst : k₀.signature = .ok first) {st : Standing}
    (hst : x.ReachableThrough p k₀ (¬ x.Abandons p ·) st) :
    ∃ sig, st.kernel.signature = .ok sig ∧ table.contains sig = true := by
  induction hst with
  | initial hbegin =>
    exact ⟨first, (signature_begin hbegin).1.trans hfirst, StateTable.contains_of_mem h.hasFirst⟩
  | @step st st' i hst hpasses hkept htakes ih =>
    obtain ⟨sig, hsig, hcontains⟩ := ih
    have hmem : sig ∈ table.states := by
      refine mem_states_of_contains h.exact hsig hcontains fun sig' hsig' => ?_
      rcases h.settled sig' hsig' with ⟨st₀, -, hst₀, -⟩ | ⟨st₀, hcut⟩
      · exact ⟨st₀.kernel, hst₀⟩
      · exact ⟨st₀.kernel, hcut.signature hserializer htable hp hdep hk₀⟩
    rcases h.settled sig hmem with hsettled | ⟨st₀, hcut⟩
    · exact hsettled.contains hdep hfirst hst.reachable hsig hpasses htakes
    · exact absurd ⟨st₀, sig, hcut, hsig⟩ hkept

theorem bounded_explore {y : Explorer} {fuel : Nat} {o : SearchOutcome}
    (htransitions : x.limits.maxTransitions = none) (hstates : x.limits.maxStates = none)
    (hrun : x.explore p fuel = .ok (some (.ok o, y))) :
    ∃ first, k₀.signature = .ok first ∧ x.Bounded p k₀ y.table first := by
  obtain ⟨s, hend, rfl, rfl⟩ := explore_eq_ok hrun
  rcases hend with hstart | ⟨s₀, s₁, hstart, hsteps, hlast⟩
  · obtain ⟨first, hfirst, hfinished⟩ := Finished.start hserializer htable hk₀ hstart
    exact ⟨first, hfirst, hfinished.exact, hfinished.hasFirst,
      fun sig hsig => .inl (hfinished.settled sig hsig)⟩
  · have hs₁ : x.Searches p s₁ := ⟨s₀, hstart, hsteps⟩
    obtain ⟨first, hfirst, hinvariant, haccounts⟩ := hs₁.invariant hserializer htable hp hdep hk₀
    rw [← hinvariant.limits] at htransitions hstates
    obtain ⟨rfl, hdone⟩ := Search.done_of_finished htransitions hstates hlast
    refine ⟨first, hfirst, hinvariant.exact, hinvariant.hasFirst, fun sig hsig => ?_⟩
    refine (haccounts sig hsig).imp_right fun hrest => hrest.resolve_left ?_
    rintro ⟨node, hnode, -⟩
    rw [hinvariant.nodes_eq_nil hdone] at hnode
    cases hnode

end

/-- If what a program does shows in the encodings of its states, a search with the exact table and a depth
limit finds whatever executions reach without going on from a state that was cut off. If it misses a state,
then a state that fewer choices lead to was cut off. Only states at the end of an execution with as many
choices as the limit allows are cut off, and they are not expanded when they are met again. -/
theorem explore_withinDepth {k : Kernel} {c : Config} {r : Shuffler} {x y : Explorer} {p : Program} {k₀ : Kernel}
    {d : UInt64} {fuel : Nat} {o : SearchOutcome} (hx : withKernel k c r = .ok x)
    (hexact : c.search.stateTable = "exact") (hd : c.search.maxDepth = some d) (hpos : 1 ≤ d.toNat)
    (hstates : c.search.maxStates = none) (htransitions : c.search.maxTransitions = none)
    (hp : p.IsTracked) (hdep : x.DependsOnEncoding p k₀) (hk₀ : x.HoldsInitial p k₀)
    (hrun : x.explore p fuel = .ok (some (.ok o, y))) :
    (∀ st, x.ReachableThrough p k₀ (¬ x.Abandons p ·) st →
        ∃ sig, st.kernel.signature = .ok sig ∧ y.table.contains sig = true) ∧
      (∀ st, x.Reachable p k₀ st →
        (∃ sig, st.kernel.signature = .ok sig ∧ y.table.contains sig = true) ∨
        ∃ st₁, x.Reachable p k₀ st₁ ∧ st₁.path.depth < st.path.depth ∧ x.Abandons p st₁) ∧
      ∀ st sig, x.CutsOff p st sig → st.kernel.signature = .ok sig ∧
        (∃ trace, x.Execution p trace st ∧ trace.length = d.toNat) ∧
        ∀ s, x.Searches p s → ∀ node ∈ s.nodes, node.signature ≠ sig := by
  obtain ⟨hserializer, htable⟩ := withKernel_eq_ok hx hexact
  have hlimits := limits_withKernel hx
  rw [← hlimits] at hd hstates htransitions
  obtain ⟨first, hfirst, hbounded⟩ :=
    bounded_explore hserializer htable hp hdep hk₀ htransitions hstates hrun
  have hcontains : ∀ st, x.ReachableThrough p k₀ (¬ x.Abandons p ·) st →
      ∃ sig, st.kernel.signature = .ok sig ∧ y.table.contains sig = true :=
    fun st hst => hbounded.contains hserializer htable hp hdep hk₀ hfirst hst
  refine ⟨hcontains, fun st hst => ?_, fun st sig hcut => ?_⟩
  · exact hst.through.imp_left (hcontains st)
  · exact ⟨hcut.signature hserializer htable hp hdep hk₀, hcut.execution hd hpos, fun _ => hcut.off_stack⟩

def relay : Script where
  threads := #[{ code := #[.join 1, .start 2 2] }, { code := #[] }, { code := #[], starts := false }]

def threeDeepConfig : Config where
  search := { maxDepth := some 3, stateTable := "exact", gcAfterTransition := false }

theorem explored_relay : ∃ r ∈ explored? threeDeepConfig relay.program 30,
    (∃ l ∈ r.1.listing? relay.program r.2.2.kernel 30, l.Consistent relay.program) ∧
    ∃ l ∈ r.1.executions? relay.program r.2.2.kernel 30, ∃ st ∈ l, st.path.depth = 3 ∧
      ∃ sig ∈ st.kernel.signature.toOption, r.2.2.table.contains sig = false := by
  decide +kernel

theorem explore_withinDepth_relay : ∃ x o y,
    withKernel (.ofConfig threeDeepConfig) threeDeepConfig = .ok x ∧
    x.explore relay.program 30 = .ok (some (.ok o, y)) ∧
    (∀ st, x.ReachableThrough relay.program y.kernel (¬ x.Abandons relay.program ·) st →
      ∃ sig, st.kernel.signature = .ok sig ∧ y.table.contains sig = true) ∧
    (∃ st, x.Reachable relay.program y.kernel st ∧ st.path.depth < 3 ∧ x.Abandons relay.program st) ∧
    ∀ st sig, x.CutsOff relay.program st sig → st.kernel.signature = .ok sig ∧
      (∃ trace, x.Execution relay.program trace st ∧ trace.length = 3) ∧
      ∀ s, x.Searches relay.program s → ∀ node ∈ s.nodes, node.signature ≠ sig := by
  obtain ⟨⟨x, o, y⟩, hr, hlisting, l, hl, st, hst, hdepth, sig, hsig, hmissing⟩ := explored_relay
  obtain ⟨hx, hrun⟩ := explored?_eq_some hr
  obtain ⟨hcontains, hbelow, hcut⟩ := explore_withinDepth hx rfl rfl (by decide) rfl rfl relay.isTracked
    (dependsOnEncoding_of_listing hlisting) (holdsInitial_explore hrun) hrun
  refine ⟨x, o, y, hx, hrun, hcontains, ?_, hcut⟩
  rcases hbelow st (reachable_of_mem_executions hl hst) with ⟨sig', hsig', hfound⟩ |
    ⟨st₁, hst₁, hlt, habandons⟩
  · rw [toOption_eq_some.mp hsig] at hsig'
    cases hsig'
    rw [hmissing] at hfound
    cases hfound
  · exact ⟨st₁, hst₁, hdepth ▸ hlt, habandons⟩

theorem explore_misses_relay : ∃ x o y,
    withKernel (.ofConfig threeDeepConfig) threeDeepConfig = .ok x ∧ relay.program.IsTracked ∧
    x.explore relay.program 30 = .ok (some (.ok o, y)) ∧
    x.DependsOnEncoding relay.program y.kernel ∧ x.HoldsInitial relay.program y.kernel ∧
    ∃ st sig, x.Reachable relay.program y.kernel st ∧ st.path.depth ≤ 3 ∧
      st.kernel.signature = .ok sig ∧ y.table.contains sig = false := by
  obtain ⟨⟨x, o, y⟩, hr, hlisting, l, hl, st, hst, hdepth, sig, hsig, hmissing⟩ := explored_relay
  obtain ⟨hx, hrun⟩ := explored?_eq_some hr
  exact ⟨x, o, y, hx, relay.isTracked, hrun, dependsOnEncoding_of_listing hlisting,
    holdsInitial_explore hrun, st, sig, reachable_of_mem_executions hl hst, Nat.le_of_eq hdepth,
    toOption_eq_some.mp hsig, hmissing⟩

end Explorer

end Interleave
