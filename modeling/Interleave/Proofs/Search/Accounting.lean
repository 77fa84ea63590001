import Interleave.Proofs.Search.Termination

/-!
The counters of a search. Every state in the table is on the path, where its generator has choices left, or it
has been dealt with in exactly one way; every transition has led to a new state or to one that was there before,
and has used up one choice. So when the path is empty the counters add up.
-/

namespace Interleave

def Generator.remaining (g : Generator) : Nat := g.total - g.processed

def SearchOutcome.settled (o : SearchOutcome) : Nat :=
  o.violations.length + o.stats.depthLimited + o.endStates.length + o.deadlocks.length + o.stats.backtracks

namespace Path

def remaining (path : Path) : Nat := (path.newestFirst.map Generator.remaining).sum

def newerThan (path older : Path) : List Generator := path.newestFirst.take (path.depth - older.depth)

theorem newerThan_of_depth_le {path older : Path} (h : path.depth ≤ older.depth) :
    path.newerThan older = [] := by
  unfold newerThan
  rw [Nat.sub_eq_zero_of_le h, List.take_zero]

theorem newerThan_push {path older : Path} (h : path.depth = older.depth) (g : Generator) :
    (path.push g).newerThan older = [g] := by
  have hone : (path.push g).depth - older.depth = 1 := by
    rw [← h]
    exact Nat.add_sub_cancel_left _ _
  unfold newerThan
  rw [hone]
  rfl

end Path

namespace Search

/-- The generators that are put on the path in the next `fuel` steps. -/
def pushed (p : Program) : Nat → Search → List Generator
  | 0, _ => []
  | fuel + 1, s =>
    match s.step p with
    | .ok (.running s') => s'.path.newerThan s.path ++ pushed p fuel s'
    | _ => []

inductive Filed (s : Search) (sig : Signature) (s' : Search) : Prop where
  | settled (hpath : s'.path = s.path) (hsettled : s'.outcome.settled = s.outcome.settled + 1)
    (hend : s'.outcome.endStates = s.outcome.endStates ∨
      s'.outcome.endStates = s.outcome.endStates ++ [sig.hash])
  | expanded (g : Generator) (hpath : s'.path = s.path.push g)
    (hsettled : s'.outcome.settled = s.outcome.settled)
    (hend : s'.outcome.endStates = s.outcome.endStates)

structure Balanced (s : Search) (gs : List Generator) : Prop where
  states : s.outcome.stats.newStates = s.table.size
  initial : 0 < s.outcome.stats.newStates
  transitions : s.outcome.stats.transitions + 1 = s.outcome.stats.newStates + s.outcome.stats.revisited
  settled : s.outcome.stats.newStates = s.outcome.settled + s.path.depth
  choices : s.outcome.stats.transitions + s.path.remaining = (gs.map Generator.remaining).sum

structure Distinguishes (s : Search) : Prop where
  nodup : s.outcome.endStates.Nodup
  mem : ∀ hash ∈ s.outcome.endStates, ∃ sig ∈ s.table.states, sig.hash = hash

variable {s s' : Search} {p : Program} {sig : Signature} {gs : List Generator}

theorem settled_recordTerminal (s : Search) (sig : Signature) :
    (s.recordTerminal sig).path = s.path ∧
      (s.recordTerminal sig).outcome.settled = s.outcome.settled + 1 ∧
      ((s.recordTerminal sig).outcome.endStates = s.outcome.endStates ∨
        (s.recordTerminal sig).outcome.endStates = s.outcome.endStates ++ [sig.hash]) := by
  unfold recordTerminal
  split
  · refine ⟨rfl, ?_, .inl rfl⟩
    simp only [SearchOutcome.settled, List.length_append, List.length_singleton]
    omega
  · refine ⟨rfl, ?_, .inr rfl⟩
    simp only [SearchOutcome.settled, List.length_append, List.length_singleton]
    omega

theorem filed_enterNewState (s : Search) (p : Program) (sig : Signature) (next : Transition)
    (parentBlocked : Bool) : s.Filed sig (s.enterNewState p sig next parentBlocked) := by
  rw [enterNewState_eq]
  cases p.check s.kernel with
  | some message =>
    refine .settled rfl ?_ (.inl rfl)
    simp only [SearchOutcome.settled, counted, List.length_append, List.length_singleton]
    omega
  | none =>
    cases next with
    | halt =>
      -- a state is counted before it is recorded, which changes nothing that is looked at here
      obtain ⟨hpath, hsettled, hend⟩ := (s.counted parentBlocked).settled_recordTerminal sig
      exact .settled hpath hsettled hend
    | branch g =>
      dsimp only
      split
      · refine .settled rfl ?_ (.inl rfl)
        simp only [SearchOutcome.settled, counted, setStats]
        omega
      · exact .expanded g rfl rfl rfl

theorem Filed.settled_add_depth (h : s.Filed sig s') :
    s'.outcome.settled + s'.path.depth = s.outcome.settled + s.path.depth + 1 := by
  cases h with
  | settled hpath hmore =>
    rw [hpath, hmore]
    omega
  | expanded g hpath hsame =>
    have hdeeper : (s.path.push g).depth = s.path.depth + 1 := rfl
    rw [hpath, hsame, hdeeper]
    omega

theorem Filed.remaining (h : s.Filed sig s') {older : Path} (hdepth : s.path.depth = older.depth) :
    s'.path.remaining = s.path.remaining + ((s'.path.newerThan older).map Generator.remaining).sum := by
  cases h with
  | settled hpath =>
    rw [hpath, Path.newerThan_of_depth_le (Nat.le_of_eq hdepth)]
    rfl
  | expanded g hpath =>
    have hmore : (s.path.push g).remaining = g.remaining + s.path.remaining := rfl
    rw [hpath, Path.newerThan_push hdepth, hmore, Nat.add_comm]
    rfl

theorem Arrival.remaining {node : Node} {g : Generator} {st : Standing} {serializer : Serializer}
    (h : s.Arrival p node g st serializer sig) (reclaimed : Nat) :
    (s.arrived { g with cursor := some g.processed } st serializer sig reclaimed).path.remaining + 1 =
        s.path.remaining ∧
      (s.arrived { g with cursor := some g.processed } st serializer sig reclaimed).path.depth =
        s.path.depth := by
  obtain ⟨older, hpath⟩ := List.head?_eq_some_iff.mp h.top
  obtain ⟨c, hc, -⟩ := h.take
  have hlt := (List.getElem?_eq_some_iff.mp hc).1
  have hmoved : Generator.processed { g with cursor := some g.processed } = g.processed + 1 := rfl
  constructor
  · dsimp only [arrived, Path.setTop, Path.remaining]
    rw [hpath, List.tail_cons, List.map_cons, List.sum_cons, List.map_cons, List.sum_cons]
    dsimp only [Generator.remaining, Generator.total]
    rw [hmoved]
    omega
  · dsimp only [arrived, Path.setTop, Path.depth]
    rw [hpath]
    rfl

theorem path_setStats (s : Search) (f : SearchStats → SearchStats) : (s.setStats f).path = s.path := rfl

theorem finished_eq (h : s.step p = .ok (.finished s')) :
    ∃ aborted, s' = { s with outcome := { s.outcome with aborted } } := by
  cases step_cases h with
  | done => exact ⟨s.outcome.aborted, rfl⟩
  | exhausted reason => exact ⟨some reason, rfl⟩

namespace Balanced

theorem pop (hs : s.Balanced gs) {g : Generator} (htop : s.path.top? = some g)
    (hdone : g.choices.length ≤ g.processed) : (s.popGenerator g).Balanced gs := by
  obtain ⟨older, hpath⟩ := List.head?_eq_some_iff.mp htop
  have hdepth : s.path.depth = (s.popGenerator g).path.depth + 1 := by
    dsimp only [popGenerator, tell, setStats, Path.pop, Path.depth]
    rw [hpath]
    rfl
  have hremaining : (s.popGenerator g).path.remaining = s.path.remaining := by
    dsimp only [popGenerator, tell, setStats, Path.pop, Path.remaining]
    rw [hpath, List.tail_cons, List.map_cons, List.sum_cons]
    dsimp only [Generator.remaining, Generator.total]
    omega
  have hsettled : (s.popGenerator g).outcome.settled = s.outcome.settled + 1 := rfl
  refine ⟨hs.states, hs.initial, hs.transitions, ?_, ?_⟩
  · rw [hsettled]
    have hold := hs.settled
    dsimp only [popGenerator, tell, setStats] at *
    omega
  · rw [hremaining]
    exact hs.choices

theorem seen (hs : s.Balanced gs) {node : Node} {g : Generator} {st : Standing} {serializer : Serializer}
    (h : s.Arrival p node g st serializer sig) (reclaimed : Nat)
    (hseen : (s.table.visit sig).1.isNew = false) :
    ((s.arrived { g with cursor := some g.processed } st serializer sig reclaimed).setStats fun stats =>
      { stats with revisited := stats.revisited + 1 }).Balanced gs := by
  obtain ⟨hremaining, hdepth⟩ := h.remaining reclaimed
  obtain ⟨-, htable⟩ := StateTable.visit_of_seen hseen
  obtain ⟨hstates, hinitial, htransitions, hsettled, hchoices⟩ := hs
  refine ⟨?_, hinitial, ?_, ?_, ?_⟩
  · dsimp only [setStats, arrived]
    rw [htable]
    exact hstates
  · dsimp only [setStats, arrived]
    omega
  · exact hsettled.trans (congrArg (s.outcome.settled + ·) hdepth.symm)
  · dsimp only [setStats, arrived] at hremaining ⊢
    omega

theorem new (hs : s.Balanced gs) {node : Node} {g : Generator} {st : Standing} {serializer : Serializer}
    (h : s.Arrival p node g st serializer sig) (reclaimed : Nat)
    (hnew : (s.table.visit sig).1.isNew = true)
    (hs' : s' = (s.arrived { g with cursor := some g.processed } st serializer sig reclaimed).enterNewState
      p sig st.next node.blockedInAtomic) : s'.Balanced (gs ++ s'.path.newerThan s.path) := by
  obtain ⟨hremaining, hdepth⟩ := h.remaining reclaimed
  obtain ⟨-, htable⟩ := StateTable.visit_of_new hnew
  obtain ⟨hstates, hinitial, htransitions, hsettled, hchoices⟩ := hs
  generalize hs₁ : s.arrived { g with cursor := some g.processed } st serializer sig reclaimed = s₁ at *
  have hstats₁ : s₁.outcome.stats = { s.outcome.stats with
      transitions := s.outcome.stats.transitions + 1
      reclaimed := s.outcome.stats.reclaimed + reclaimed } := by
    rw [← hs₁]
    rfl
  have hsettled₁ : s₁.outcome.settled = s.outcome.settled := by
    rw [← hs₁]
    rfl
  have htable₁ : s₁.table.size = s.table.size + 1 := by
    rw [← hs₁]
    dsimp only [arrived]
    rw [htable]
    exact Array.size_push sig
  obtain ⟨maxDepth, depthLimited, hstats⟩ := s₁.stats_enterNewState p sig st.next node.blockedInAtomic
  have htable' := (s₁.enterNewState_cases p sig st.next node.blockedInAtomic).frame.1
  have hfiled := s₁.filed_enterNewState p sig st.next node.blockedInAtomic
  rw [← hs'] at hstats htable' hfiled
  rw [hstats₁] at hstats
  have hplaced := hfiled.settled_add_depth
  have hleft := hfiled.remaining hdepth
  rw [hsettled₁, hdepth] at hplaced
  refine ⟨?_, ?_, ?_, ?_, ?_⟩
  · rw [hstats, htable', htable₁, ← hstates]
  · rw [hstats]
    exact Nat.succ_pos _
  · rw [hstats]
    dsimp only
    omega
  · rw [hstats]
    dsimp only
    omega
  · rw [hstats, List.map_append, List.sum_append, hleft, ← hchoices]
    dsimp only
    omega

theorem step (hs : s.Balanced gs) (h : s.step p = .ok (.running s')) :
    s'.Balanced (gs ++ s'.path.newerThan s.path) := by
  cases step_cases h with
  | @pop _ _ g _ htop hdone =>
    have hshorter : (s.popGenerator g).path.depth ≤ s.path.depth := by
      dsimp only [popGenerator, tell, setStats, Path.pop, Path.depth]
      rw [List.length_tail]
      exact Nat.sub_le _ _
    rw [Path.newerThan_of_depth_le hshorter, List.append_nil]
    exact hs.pop htop hdone
  | seen harrival reclaimed hseen =>
    rw [path_setStats, Path.newerThan_of_depth_le (Nat.le_of_eq (harrival.remaining reclaimed).2),
      List.append_nil]
    exact hs.seen harrival reclaimed hseen
  | new harrival reclaimed hnew => exact hs.new harrival reclaimed hnew rfl

theorem finished (hs : s.Balanced gs) (h : s.step p = .ok (.finished s')) : s'.Balanced gs := by
  obtain ⟨aborted, rfl⟩ := finished_eq h
  exact ⟨hs.states, hs.initial, hs.transitions, hs.settled, hs.choices⟩

theorem run {fuel : Nat} (hs : s.Balanced gs) (h : s.run p fuel = .ok (some (.finished s'))) :
    s'.Balanced (gs ++ s.pushed p fuel) := by
  induction fuel generalizing s gs with
  | zero => cases h
  | succ fuel ih =>
    obtain ⟨r, hstep, h⟩ := bind_eq_ok.mp h
    unfold pushed
    rw [hstep]
    cases r with
    | failed e x => cases h
    | finished s₁ =>
      cases h
      dsimp only
      rw [List.append_nil]
      exact hs.finished hstep
    | running s₁ =>
      dsimp only
      rw [← List.append_assoc]
      exact ih (hs.step hstep) h

end Balanced

theorem growth_of_step (h : s.step p = .ok (.running s')) :
    s'.outcome.stats.transitions ≤ s.outcome.stats.transitions + 1 ∧ s'.table.size ≤ s.table.size + 1 := by
  constructor
  · cases step_cases h with
    | pop => exact Nat.le_succ _
    | seen => exact Nat.le_refl _
    | @new node g st serializer sig _ reclaimed =>
      obtain ⟨maxDepth, depthLimited, hstats⟩ := stats_enterNewState
        (s.arrived { g with cursor := some g.processed } st serializer sig reclaimed) p sig st.next
        node.blockedInAtomic
      rw [hstats]
      exact Nat.le_refl _
  · rcases idles_or_discovers h with hidles | ⟨sig, hdiscovers⟩
    · rw [hidles.table]
      exact Nat.le_succ _
    · exact Nat.le_of_eq hdiscovers.size

namespace Distinguishes

theorem of_eq (hs : s.Distinguishes) (htable : s'.table = s.table)
    (hend : s'.outcome.endStates = s.outcome.endStates) : s'.Distinguishes := by
  refine ⟨hend ▸ hs.nodup, ?_⟩
  rw [hend, htable]
  exact hs.mem

theorem discover (hs : s.Distinguishes) (hmatching : s.table.matching = .hashed)
    (hnew : (s.table.visit sig).1.isNew = true) (htable : s'.table = (s.table.visit sig).2)
    (hend : s'.outcome.endStates = s.outcome.endStates ∨
      s'.outcome.endStates = s.outcome.endStates ++ [sig.hash]) : s'.Distinguishes := by
  obtain ⟨hfresh, hpush⟩ := StateTable.visit_of_new hnew
  have hstates : s'.table.states = s.table.states.push sig := by rw [htable, hpush]
  have hold : ∀ hash ∈ s.outcome.endStates, hash ≠ sig.hash := by
    rintro hash hhash rfl
    obtain ⟨sig', hsig', heq⟩ := hs.mem sig.hash hhash
    have hcontains : s.table.contains sig = true := by
      refine StateTable.contains_iff.mpr ⟨sig', hsig', ?_⟩
      rw [hmatching]
      exact beq_iff_eq.mpr heq.symm
    rw [hfresh] at hcontains
    cases hcontains
  have hmem : ∀ hash ∈ s.outcome.endStates, ∃ sig' ∈ s'.table.states, sig'.hash = hash := by
    intro hash hhash
    obtain ⟨sig', hsig', heq⟩ := hs.mem hash hhash
    exact ⟨sig', hstates ▸ Array.mem_push_of_mem sig hsig', heq⟩
  rcases hend with hend | hend
  · exact ⟨hend ▸ hs.nodup, hend ▸ hmem⟩
  · constructor
    · rw [hend, ← List.concat_eq_append]
      exact hs.nodup.concat fun hhash => hold _ hhash rfl
    · rw [hend]
      intro hash hhash
      rcases List.mem_append.mp hhash with hhash | hhash
      · exact hmem hash hhash
      · rw [List.mem_singleton.mp hhash]
        exact ⟨sig, hstates ▸ Array.mem_push_self, rfl⟩

theorem step (hs : s.Distinguishes) (hmatching : s.table.matching = .hashed)
    (h : s.step p = .ok (.running s')) : s'.Distinguishes ∧ s'.table.matching = .hashed := by
  cases step_cases h with
  | pop => exact ⟨hs.of_eq rfl rfl, hmatching⟩
  | seen _ _ hseen =>
    obtain ⟨-, htable⟩ := StateTable.visit_of_seen hseen
    exact ⟨hs.of_eq htable rfl, (congrArg StateTable.matching htable).trans hmatching⟩
  | @new node g st serializer sig _ reclaimed hnew =>
    obtain ⟨-, hpush⟩ := StateTable.visit_of_new hnew
    generalize hs₁ : s.arrived { g with cursor := some g.processed } st serializer sig reclaimed = s₁
    have hend₁ : s₁.outcome.endStates = s.outcome.endStates := by
      rw [← hs₁]
      rfl
    have htable₁ : s₁.table = (s.table.visit sig).2 := by
      rw [← hs₁]
      rfl
    have htable := (s₁.enterNewState_cases p sig st.next node.blockedInAtomic).frame.1.trans htable₁
    refine ⟨hs.discover hmatching hnew htable ?_, ?_⟩
    · rw [← hend₁]
      cases s₁.filed_enterNewState p sig st.next node.blockedInAtomic with
      | settled _ _ hend => exact hend
      | expanded _ _ _ hend => exact .inl hend
    · rw [htable, hpush]
      exact hmatching

theorem steps (hs : s.Distinguishes) (hmatching : s.table.matching = .hashed) (h : s.Steps p s') :
    s'.Distinguishes := by
  have hboth : s'.Distinguishes ∧ s'.table.matching = .hashed := by
    induction h with
    | refl => exact ⟨hs, hmatching⟩
    | tail _ hstep ih => exact ih.1.step ih.2 hstep
  exact hboth.1

end Distinguishes

end Search

namespace Explorer

/-- The generators that a search puts on its path, beginning with that of the first decision. -/
def pushed (x : Explorer) (p : Program) (fuel : Nat) : List Generator :=
  match x.start p with
  | .ok (.running s) => s.path.newestFirst ++ s.pushed p fuel
  | _ => []

variable {x y : Explorer} {p : Program} {s : Search} {matching : Matching}

theorem balanced_start (htable : x.table = { matching }) (h : x.start p = .ok (.running s)) :
    s.Balanced s.path.newestFirst ∧ s.Distinguishes ∧ s.table.matching = matching := by
  obtain ⟨k, k', d, g, serializer, sig, reclaimed, -, -, -, rfl⟩ := start_eq_running h
  have hstates : (x.opened k k' d serializer sig reclaimed).table = { matching, states := #[sig] } :=
    states_opened k k' d serializer reclaimed htable
  refine ⟨⟨?_, Nat.one_pos, rfl, rfl, Nat.zero_add _⟩, ⟨.nil, nofun⟩, ?_⟩
  · exact congrArg StateTable.size hstates.symm
  · exact congrArg StateTable.matching hstates

theorem balanced_finished (htable : x.table = { matching }) (h : x.start p = .ok (.finished s)) :
    s.Balanced [] ∧ s.path.newestFirst = [] ∧ s.outcome.endStates.Nodup := by
  obtain ⟨k, k', d, serializer, sig, reclaimed, -, -, -, rfl⟩ := start_eq_finished h
  have hstates : (x.opened k k' d serializer sig reclaimed).table = { matching, states := #[sig] } :=
    states_opened k k' d serializer reclaimed htable
  obtain ⟨hpath, hsettled, hend⟩ := (x.opened k k' d serializer sig reclaimed).settled_recordTerminal sig
  obtain ⟨endStates, deadlocks, heq⟩ := (x.opened k k' d serializer sig reclaimed).recordTerminal_eq sig
  rw [heq] at hpath hsettled hend ⊢
  refine ⟨⟨?_, Nat.one_pos, rfl, hsettled.symm, rfl⟩, rfl, ?_⟩
  · exact congrArg StateTable.size hstates.symm
  · rcases hend with hend | hend
    · exact hend ▸ .nil
    · exact hend ▸ List.nodup_singleton sig.hash

theorem Searches.within_budget (htable : x.table = { matching }) (hs : x.Searches p s) :
    (∀ m ∈ x.limits.maxTransitions, s.outcome.stats.transitions ≤ m.toNat) ∧
      ∀ m ∈ x.limits.maxStates, s.table.size ≤ max 1 m.toNat := by
  -- a step is made only if something is left of the budgets
  obtain ⟨s₀, hstart, hsteps⟩ := hs
  rcases hsteps.cases_tail with rfl | ⟨s₁, hsteps, hstep⟩
  · obtain ⟨k, k', d, g, serializer, sig, reclaimed, -, -, -, rfl⟩ := start_eq_running hstart
    have hsize : (x.opened k k' d serializer sig reclaimed).table.size = 1 :=
      congrArg StateTable.size (states_opened k k' d serializer reclaimed htable)
    exact ⟨fun m _ => Nat.zero_le _, fun m _ => Nat.le_trans (Nat.le_of_eq hsize) (Nat.le_max_left _ _)⟩
  · have hlimits : s₁.limits = x.limits := (Searches.traced ⟨s₀, hstart, hsteps⟩).limits
    obtain ⟨htransitions, hstates⟩ := Search.budget_of_step hstep
    obtain ⟨hmade, hgrown⟩ := Search.growth_of_step hstep
    rw [hlimits] at htransitions hstates
    refine ⟨fun m hm => ?_, fun m hm => ?_⟩
    · have hleft := htransitions m hm
      omega
    · have hleft := hstates m hm
      omega

theorem balanced_of_explore (htable : x.table = { matching }) {fuel : Nat} {o : SearchOutcome}
    (hrun : x.explore p fuel = .ok (some (.ok o, y))) :
    ∃ s : Search, s.outcome = o ∧ s.table = y.table ∧ s.Balanced (x.pushed p fuel) ∧
      (∀ m ∈ x.limits.maxTransitions, o.stats.transitions ≤ m.toNat) ∧
      (∀ m ∈ x.limits.maxStates, y.table.size ≤ max 1 m.toNat) ∧
      (o.aborted = none → s.path.newestFirst = []) ∧ (matching = .hashed → o.endStates.Nodup) := by
  obtain ⟨last, hend, hlast⟩ := explore_eq_some hrun
  obtain ⟨s, rfl, rfl, rfl⟩ := Progress.result?_eq_ok hlast
  refine ⟨s, rfl, rfl, ?_⟩
  unfold pushed
  rcases hend with hstart | ⟨s₀, hstart, hrun⟩
  · rw [hstart]
    obtain ⟨hbalanced, hpath, hnodup⟩ := balanced_finished htable hstart
    have htransitions : s.outcome.stats.transitions = 0 :=
      Nat.eq_zero_of_add_eq_zero_right hbalanced.choices
    have hsize : s.table.size = 1 := by
      have hstates := hbalanced.states
      have hinitial := hbalanced.initial
      have hsum := hbalanced.transitions
      omega
    refine ⟨hbalanced, fun m _ => ?_, fun m _ => ?_, fun _ => hpath, fun _ => hnodup⟩
    · exact htransitions ▸ Nat.zero_le _
    · exact hsize ▸ Nat.le_max_left _ _
  · rw [hstart]
    obtain ⟨hbalanced, hdistinct, hmatching⟩ := balanced_start htable hstart
    obtain ⟨s₁, hsteps, hlast, -⟩ := Search.run_eq_some hrun
    have hs₁ : x.Searches p s₁ := ⟨s₀, hstart, hsteps⟩
    obtain ⟨htransitions, hstates⟩ := hs₁.within_budget htable
    refine ⟨hbalanced.run hrun, ?_, ?_, ?_, ?_⟩
    · obtain ⟨aborted, rfl⟩ := Search.finished_eq hlast
      exact htransitions
    · obtain ⟨aborted, rfl⟩ := Search.finished_eq hlast
      exact hstates
    · intro haborted
      have hempty := hs₁.path_of_finished hlast haborted
      obtain ⟨aborted, rfl⟩ := Search.finished_eq hlast
      exact hempty
    · intro hhashed
      have hnodup := (hdistinct.steps (hmatching.trans hhashed) hsteps).nodup
      obtain ⟨aborted, rfl⟩ := Search.finished_eq hlast
      exact hnodup

/-- When a search returns, its counters account for every state in the table and for every transition, and no
budget is exceeded. If it was not stopped, each state has been dealt with in exactly one way, and the transitions
are the choices that its generators had left when they were put on the path. With a table that goes by
fingerprints no end state is reported twice. -/
theorem explore_accounts {k : Kernel} {c : Config} {r : Shuffler} {x y : Explorer} {p : Program} {fuel : Nat}
    {o : SearchOutcome} (hx : withKernel k c r = .ok x) (hrun : x.explore p fuel = .ok (some (.ok o, y))) :
    o.stats.newStates = y.table.size ∧ 0 < o.stats.newStates ∧
      o.stats.transitions = o.stats.newStates - 1 + o.stats.revisited ∧
      (∀ m, c.search.maxTransitions = some m → o.stats.transitions ≤ m.toNat) ∧
      (∀ m, c.search.maxStates = some m → y.table.size ≤ max 1 m.toNat) ∧
      (o.aborted = none →
        o.stats.newStates = o.violations.length + o.stats.depthLimited + o.endStates.length +
          o.deadlocks.length + o.stats.backtracks ∧
        o.stats.transitions = ((x.pushed p fuel).map Generator.remaining).sum) ∧
      (Matching.ofName? c.search.stateTable = some .hashed → o.endStates.Nodup) := by
  obtain ⟨_, _, matching, -, -, hname, heq⟩ := withKernel_cases hx
  have htable : x.table = { matching } := by rw [heq]
  obtain ⟨s, rfl, hsame, hbalanced, htransitions, hstates, hpath, hnodup⟩ := balanced_of_explore htable hrun
  rw [limits_withKernel hx] at htransitions hstates
  have hsum := hbalanced.transitions
  have hinitial := hbalanced.initial
  refine ⟨hsame ▸ hbalanced.states, hinitial, by omega, htransitions, hstates, ?_, ?_⟩
  · intro haborted
    have hdepth : s.path.depth = 0 := congrArg List.length (hpath haborted)
    have hremaining : s.path.remaining = 0 :=
      congrArg (fun gs => (gs.map Generator.remaining).sum) (hpath haborted)
    have hsettled := hbalanced.settled
    have hchoices := hbalanced.choices
    rw [hdepth] at hsettled
    rw [hremaining] at hchoices
    exact ⟨hsettled, hchoices⟩
  · intro hhashed
    rw [hhashed] at hname
    exact hnodup (Option.some.inj hname).symm

def undecided : Script where
  fields := ["x"]
  threads := #[{ code := #[.load "x", .jumpIf 1 4, .jumpIf 2 5, .jump 6, .park, .store "x" 3] },
    { code := #[.store "x" 0, .store "x" 1, .store "x" 2] }]
  check := some (.never "x" 3)

def thriftyConfig : Config where
  search := { maxStates := some 11, maxTransitions := some 11, stateTable := "exact", gcAfterTransition := false }

theorem explored_undecided : ∃ r ∈ explored? thriftyConfig undecided.program 30,
    r.2.1.aborted = none ∧ r.2.1.stats.revisited = 1 ∧ r.2.2.table.size = 10 ∧
    r.2.1.violations.length = 1 ∧ r.2.1.deadlocks.length = 1 := by
  decide +kernel

theorem explore_accounts_undecided : ∃ x o y,
    withKernel (.ofConfig thriftyConfig) thriftyConfig = .ok x ∧
    x.explore undecided.program 30 = .ok (some (.ok o, y)) ∧ o.aborted = none ∧ o.stats.newStates = 10 ∧
    o.stats.transitions = 10 ∧ 1 + o.stats.depthLimited + o.endStates.length + 1 + o.stats.backtracks = 10 ∧
    ((x.pushed undecided.program 30).map Generator.remaining).sum = 10 := by
  obtain ⟨⟨x, o, y⟩, hr, haborted, hrevisited, hsize, hviolations, hdeadlocks⟩ := explored_undecided
  obtain ⟨hx, hrun⟩ := explored?_eq_some hr
  obtain ⟨hstates, -, htransitions, -, -, hcomplete, -⟩ := explore_accounts hx hrun
  obtain ⟨hsettled, hchoices⟩ := hcomplete haborted
  dsimp only at hrevisited hsize hviolations hdeadlocks
  rw [hstates, hsize, hrevisited] at htransitions
  rw [hstates, hsize, hviolations, hdeadlocks] at hsettled
  exact ⟨x, o, y, hx, hrun, haborted, hstates.trans hsize, htransitions, hsettled.symm,
    hchoices.symm.trans htransitions⟩

end Explorer

end Interleave
