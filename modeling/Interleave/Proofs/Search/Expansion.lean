import Interleave.Proofs.Search.Traces

/-!
What it means that a search is complete. A generator stays on the path until all of its choices have been
taken. So if no budget has been used up, every new state that is in order is expanded, unless the depth limit
forbids it; the search counts the states for which it does.
-/

namespace Interleave

theorem Path.push_ne_self (path : Path) (g : Generator) : path.push g ≠ path := by
  intro h
  exact absurd (congrArg depth h) (Nat.succ_ne_self _)

namespace Search

def Opens (s : Search) (p : Program) (st : Standing) (sig : Signature) (g : Generator) (s' : Search) : Prop :=
  s.step p = .ok (.running s') ∧ ∃ node g₀ serializer, s.Arrival p node g₀ st serializer sig ∧
    (s.table.visit sig).1.isNew = true ∧ st.next = .branch g ∧
    p.check (s.announced { g₀ with cursor := some g₀.processed } st sig).kernel = none

def Executes (s : Search) (p : Program) (older : Path) (g : Generator) (i : Nat) : Prop :=
  ∃ g₁ node st serializer sig s', s.path = older.push g₁ ∧ g₁.reset = g.reset ∧ g₁.processed = i ∧
    s.Arrival p node g₁ st serializer sig ∧ s.step p = .ok (.running s')

def ExecutesBelow (s : Search) (p : Program) (older : Path) (g : Generator) (n : Nat) : Prop :=
  ∀ i, g.processed ≤ i → i < n → ∃ s₁, s.Steps p s₁ ∧ s₁.Executes p older g i

/-- The decision `g` is put on the path `older`, and all the choices that it has left are taken. -/
def Expands (s : Search) (p : Program) (older : Path) (g : Generator) : Prop :=
  s.path = older.push g ∧ s.ExecutesBelow p older g g.choices.length

variable {s s' s₁ s₂ : Search} {p : Program} {st : Standing} {sig : Signature} {g : Generator}

theorem Arrival.unique {node node' : Node} {g' : Generator} {st' : Standing}
    {serializer serializer' : Serializer} {sig' : Signature} (h : s.Arrival p node g st serializer sig)
    (h' : s.Arrival p node' g' st' serializer' sig') :
    node' = node ∧ g' = g ∧ st' = st ∧ serializer' = serializer ∧ sig' = sig := by
  obtain ⟨rest, hnodes⟩ := h.newest
  obtain ⟨rest', hnodes'⟩ := h'.newest
  rw [hnodes] at hnodes'
  cases hnodes'
  have htop := h'.top
  rw [h.top] at htop
  cases htop
  obtain ⟨c, hc, htake⟩ := h.take
  obtain ⟨c', hc', htake'⟩ := h'.take
  rw [hc] at hc'
  cases hc'
  rw [htake] at htake'
  cases htake'
  have hsig := h'.signature
  rw [h.signature] at hsig
  cases hsig
  exact ⟨rfl, rfl, rfl, rfl, rfl⟩

theorem Arrival.path {node : Node} {serializer : Serializer} (h : s.Arrival p node g st serializer sig) :
    st.path = s.path.setTop { g with cursor := some g.processed } := by
  obtain ⟨c, -, htake⟩ := h.take
  rw [(Explorer.take_eq_ok htake).1]
  rfl

theorem atDepthLimit_iff : s.atDepthLimit = true ↔ ∃ d ∈ s.limits.maxDepth, d.toNat ≤ s.path.depth := by
  unfold atDepthLimit
  rw [Option.any_eq_true]
  simp

theorem Opens.cases (h : s.Opens p st sig g s') :
    ((∃ d ∈ s.limits.maxDepth, d.toNat ≤ st.path.depth) ∧ s'.path = st.path ∧
        s'.outcome.stats.depthLimited = s.outcome.stats.depthLimited + 1 ∧
        s'.table = (s.table.visit sig).2 ∧ s'.nodes = s.nodes) ∨
      ((¬ ∃ d ∈ s.limits.maxDepth, d.toNat ≤ st.path.depth) ∧ s'.path = st.path.push g ∧
        s'.outcome.stats.depthLimited = s.outcome.stats.depthLimited) := by
  obtain ⟨hstep, node, g₀, serializer, harrival, hnew, hnext, hcheck⟩ := h
  have hpath := harrival.path
  cases step_cases hstep with
  | pop _ htop hdone =>
    obtain ⟨c, hc, -⟩ := harrival.take
    rw [harrival.top] at htop
    cases htop
    exact absurd (List.getElem?_eq_some_iff.mp hc).1 (Nat.not_lt.mpr hdone)
  | seen harrival' reclaimed hseen =>
    obtain ⟨rfl, rfl, rfl, rfl, rfl⟩ := harrival'.unique harrival
    rw [hnew] at hseen
    cases hseen
  | new harrival' reclaimed =>
    obtain ⟨rfl, rfl, rfl, rfl, rfl⟩ := harrival'.unique harrival
    have hlimit : (s.arrived { g₀ with cursor := some g₀.processed } st serializer sig
        reclaimed).atDepthLimit = true ↔ ∃ d ∈ s.limits.maxDepth, d.toNat ≤ st.path.depth := by
      rw [hpath]
      exact atDepthLimit_iff
    rw [← hlimit, hpath]
    generalize hs' : Search.enterNewState _ p sig st.next node.blockedInAtomic = s'
    cases hs' ▸ enterNewState_cases _ p sig st.next node.blockedInAtomic with
    | violation hviolated => exact absurd hcheck hviolated
    | terminal _ hhalt =>
      rw [hnext] at hhalt
      cases hhalt
    | limited ho _ _ hcut => exact .inl ⟨hcut, rfl, ho, rfl, rfl⟩
    | expanded _ hg' ho hlow =>
      rw [hnext] at hg'
      cases hg'
      exact .inr ⟨Bool.eq_false_iff.mp hlow, rfl, ho⟩

theorem Opens.of_path_eq (h : s.Opens p st sig g s') (hpath : s'.path = st.path) :
    (∃ d ∈ s.limits.maxDepth, d.toNat ≤ st.path.depth) ∧
      s'.outcome.stats.depthLimited = s.outcome.stats.depthLimited + 1 ∧
      s'.table = (s.table.visit sig).2 ∧ s'.nodes = s.nodes := by
  rcases h.cases with ⟨hlimit, -, hkept⟩ | ⟨-, hpush, -⟩
  · exact ⟨hlimit, hkept⟩
  · exact absurd (hpush.symm.trans hpath) (Path.push_ne_self st.path g)

theorem depthLimited_of_step (h : s.step p = .ok (.running s')) :
    s'.outcome.stats.depthLimited = s.outcome.stats.depthLimited ∨
      ∃ st sig g, s.Opens p st sig g s' ∧ s'.path = st.path := by
  have hstep := h
  cases step_cases h with
  | pop => exact .inl rfl
  | seen => exact .inl rfl
  | @new node g₀ st serializer sig harrival reclaimed hnew =>
    generalize hs' : Search.enterNewState _ p sig st.next node.blockedInAtomic = s' at hstep ⊢
    cases hs' ▸ enterNewState_cases _ p sig st.next node.blockedInAtomic with
    | violation _ ho => exact .inl ho
    | terminal _ _ ho => exact .inl ho
    | limited _ hcheck hnext =>
      exact .inr ⟨st, sig, _, ⟨hstep, node, g₀, serializer, harrival, hnew, hnext, hcheck⟩,
        harrival.path.symm⟩
    | expanded _ _ ho => exact .inl ho

theorem path_of_step (h : s.step p = .ok (.running s')) :
    (∃ g older, s.path.newestFirst = g :: older ∧ g.choices.length ≤ g.processed ∧
        s'.path.newestFirst = older) ∨
      ∃ node g older st serializer sig newer, s.Arrival p node g st serializer sig ∧
        s.path.newestFirst = g :: older ∧
        s'.path.newestFirst = newer ++ { g with cursor := some g.processed } :: older := by
  cases step_cases h with
  | pop hnodes htop hdone =>
    obtain ⟨older, hpath⟩ := List.head?_eq_some_iff.mp htop
    refine .inl ⟨_, older, hpath, hdone, ?_⟩
    dsimp only [popGenerator, tell, setStats, Path.pop]
    rw [hpath]
    rfl
  | @seen node g st serializer sig harrival reclaimed =>
    obtain ⟨older, hpath⟩ := List.head?_eq_some_iff.mp harrival.top
    refine .inr ⟨node, g, older, st, serializer, sig, [], harrival, hpath, ?_⟩
    dsimp only [arrived, setStats, Path.setTop]
    rw [hpath]
    rfl
  | @new node g st serializer sig harrival reclaimed =>
    obtain ⟨older, hpath⟩ := List.head?_eq_some_iff.mp harrival.top
    have hset : (s.arrived { g with cursor := some g.processed } st serializer sig reclaimed).path =
        ⟨{ g with cursor := some g.processed } :: older⟩ := by
      dsimp only [arrived, Path.setTop]
      rw [hpath]
      rfl
    generalize hs' : Search.enterNewState _ p sig st.next node.blockedInAtomic = s'
    refine .inr ⟨node, g, older, st, serializer, sig, ?_⟩
    cases hs' ▸ enterNewState_cases _ p sig st.next node.blockedInAtomic with
    | violation => exact ⟨[], harrival, hpath, congrArg Path.newestFirst hset⟩
    | terminal => exact ⟨[], harrival, hpath, congrArg Path.newestFirst hset⟩
    | limited => exact ⟨[], harrival, hpath, congrArg Path.newestFirst hset⟩
    | @expanded _ g' =>
      exact ⟨[g'], harrival, hpath, congrArg (g' :: ·) (congrArg Path.newestFirst hset)⟩

def Pursues (s : Search) (p : Program) (older : Path) (g : Generator) (s₁ : Search) : Prop :=
  (∃ newer g₁, s₁.path.newestFirst = newer ++ g₁ :: older.newestFirst ∧ g₁.reset = g.reset ∧
      s.ExecutesBelow p older g g₁.processed) ∨
    s.ExecutesBelow p older g g.choices.length

theorem Pursues.step {older : Path} (h : s.Pursues p older g s₁) (hsteps : s.Steps p s₁)
    (hstep : s₁.step p = .ok (.running s₂)) : s.Pursues p older g s₂ := by
  rcases h with ⟨newer, g₁, hpath, hg₁, hbelow⟩ | hall
  · have hchoices : g₁.choices = g.choices := congrArg (·.choices) hg₁
    rcases path_of_step hstep with ⟨g', older', hpath', hdone, hpath₂⟩ |
      ⟨node, g', older', st, serializer, sig, newer', harrival, hpath', hpath₂⟩
    · rw [hpath'] at hpath
      cases newer with
      | nil =>
        -- the decision itself is dropped
        cases hpath
        exact .inr fun i hi hlt => hbelow i hi (Nat.lt_of_lt_of_le (hchoices ▸ hlt) hdone)
      | cons _ newer =>
        cases hpath
        exact .inl ⟨newer, g₁, hpath₂, hg₁, hbelow⟩
    · cases newer with
      | nil =>
        -- the next choice of the decision itself is taken
        have hlies : s₁.path = older.push g₁ := congrArg Path.mk hpath
        rw [hpath'] at hpath
        cases hpath
        refine .inl ⟨newer', _, hpath₂, hg₁, fun i hi hlt => ?_⟩
        rcases Nat.lt_succ_iff_lt_or_eq.mp hlt with hlt | rfl
        · exact hbelow i hi hlt
        · exact ⟨s₁, hsteps, _, node, st, serializer, sig, s₂, hlies, hg₁, rfl, harrival, hstep⟩
      | cons g₂ newer =>
        rw [hpath'] at hpath
        cases hpath
        refine .inl ⟨newer' ++ { g' with cursor := some g'.processed } :: newer, g₁, ?_, hg₁, hbelow⟩
        rw [hpath₂, List.append_assoc]
        rfl
  · exact .inr hall

theorem Pursues.steps {older : Path} (hpath : s.path = older.push g) (h : s.Steps p s₁) :
    s.Pursues p older g s₁ := by
  induction h with
  | refl =>
    refine .inl ⟨[], g, congrArg Path.newestFirst hpath, rfl, fun i hi hlt => ?_⟩
    exact absurd hi (Nat.not_le.mpr hlt)
  | tail hsteps hstep ih => exact ih.step hsteps hstep

theorem expands_of_steps {older : Path} (hpath : s.path = older.push g) (h : s.Steps p s₁)
    (hempty : s₁.path.newestFirst = []) : s.Expands p older g := by
  refine ⟨hpath, (Pursues.steps hpath h).resolve_left ?_⟩
  rintro ⟨newer, g₁, hlies, -⟩
  rw [hempty] at hlies
  cases newer <;> cases hlies

theorem depthLimited_mono (h : s.Steps p s₁) :
    s.outcome.stats.depthLimited ≤ s₁.outcome.stats.depthLimited := by
  induction h with
  | refl => exact Nat.le_refl _
  | tail _ hstep ih =>
    refine Nat.le_trans ih ?_
    rcases depthLimited_of_step hstep with heq | ⟨st, sig, g, hopens, -⟩
    · exact Nat.le_of_eq heq.symm
    · rcases hopens.cases with ⟨-, -, heq, -⟩ | ⟨-, -, heq⟩
      · exact heq ▸ Nat.le_succ _
      · exact Nat.le_of_eq heq.symm

theorem steps_total {s₀ : Search} (h : s₀.Steps p s) (h₁ : s₀.Steps p s₁) : s.Steps p s₁ ∨ s₁.Steps p s := by
  have hunique : Relator.RightUnique fun s s' : Search => s.step p = .ok (.running s') := by
    intro a b c hb hc
    rw [hb] at hc
    cases hc
    rfl
  exact Relation.ReflTransGen.total_of_right_unique hunique h h₁

theorem steps_to_end {s₀ : Search} (h : s₀.Steps p s) (h₁ : s₀.Steps p s₁)
    (hlast : s₁.step p = .ok (.finished s₂)) : s.Steps p s₁ := by
  rcases steps_total h h₁ with hsteps | hsteps
  · exact hsteps
  · -- the last step ends the search
    rcases hsteps.cases_head with rfl | ⟨s', hstep, -⟩
    · exact .refl
    · rw [hlast] at hstep
      cases hstep

end Search

namespace Explorer

/-- The search has come to the new state in which `st` stands, which is in order and has a decision open, but
has not put the decision on its path. -/
def CutsOff (x : Explorer) (p : Program) (st : Standing) (sig : Signature) : Prop :=
  ∃ s g s', x.Searches p s ∧ s.Opens p st sig g s' ∧ s'.path = st.path

variable {x y : Explorer} {p : Program}

theorem Stacked.length_eq {k : Kernel} {nodes : List Node} {gs : List Generator}
    (h : x.Stacked p k nodes gs) : nodes.length = gs.length := by
  induction h with
  | nil => rfl
  | cons _ _ _ _ _ _ _ ih => rw [List.length_cons, List.length_cons, ih]

theorem Searches.traced {s : Search} (h : x.Searches p s) : x.Traced p s := by
  obtain ⟨s₀, hstart, hsteps⟩ := h
  exact (Traced.start hstart).steps hsteps

theorem Searches.step {s s' : Search} (h : x.Searches p s) (hstep : s.step p = .ok (.running s')) :
    x.Searches p s' := by
  obtain ⟨s₀, hstart, hsteps⟩ := h
  exact ⟨s₀, hstart, hsteps.tail hstep⟩

theorem Searches.path_of_finished {s s' : Search} (h : x.Searches p s)
    (hlast : s.step p = .ok (.finished s')) (haborted : s'.outcome.aborted = none) :
    s.path.newestFirst = [] := by
  cases Search.step_cases hlast with
  | exhausted => cases haborted
  | done hdone =>
    rcases hdone with hnodes | htop
    · have hlength := h.traced.stack.length_eq
      rw [hnodes] at hlength
      exact List.length_eq_zero_iff.mp hlength.symm
    · exact List.head?_eq_none_iff.mp htop

theorem Searches.steps_to_end {s s₀ s₁ s₂ : Search} (h : x.Searches p s)
    (hstart : x.start p = .ok (.running s₀)) (hsteps : s₀.Steps p s₁)
    (hlast : s₁.step p = .ok (.finished s₂)) : s.Steps p s₁ := by
  obtain ⟨s₀', hstart', hsteps'⟩ := h
  rw [hstart] at hstart'
  cases hstart'
  exact Search.steps_to_end hsteps' hsteps hlast

theorem path_of_start {s : Search} (hstart : x.start p = .ok (.running s)) :
    ∃ g, s.path = Path.push {} g := by
  obtain ⟨_, _, _, g, _, _, _, -, -, -, rfl⟩ := start_eq_running hstart
  exact ⟨g, rfl⟩

theorem depthLimited_start {s : Search}
    (hstart : x.start p = .ok (.running s) ∨ x.start p = .ok (.finished s)) :
    s.outcome.stats.depthLimited = 0 := by
  rcases hstart with hstart | hstart
  · obtain ⟨_, _, _, _, _, _, _, -, -, -, rfl⟩ := start_eq_running hstart
    rfl
  · obtain ⟨k, k', d, serializer, sig, reclaimed, -, -, -, rfl⟩ := start_eq_finished hstart
    obtain ⟨_, _, heq⟩ := (x.opened k k' d serializer sig reclaimed).recordTerminal_eq sig
    rw [heq]
    rfl

theorem CutsOff.depthLimited {st : Standing} {sig : Signature} (h : x.CutsOff p st sig) :
    ∃ s', x.Searches p s' ∧ 0 < s'.outcome.stats.depthLimited := by
  obtain ⟨s, g, s', hs, hopens, hpath⟩ := h
  refine ⟨s', hs.step hopens.1, ?_⟩
  rw [(hopens.of_path_eq hpath).2.1]
  exact Nat.succ_pos _

theorem Searches.depthLimited {s : Search} (h : x.Searches p s) (hnone : ∀ st sig, ¬ x.CutsOff p st sig) :
    s.outcome.stats.depthLimited = 0 := by
  obtain ⟨s₀, hstart, hsteps⟩ := h
  induction hsteps with
  | refl => exact depthLimited_start (.inl hstart)
  | tail hsteps hstep ih =>
    rcases Search.depthLimited_of_step hstep with heq | ⟨st, sig, g, hopens, hpath⟩
    · exact heq.trans ih
    · exact absurd ⟨_, g, _, ⟨s₀, hstart, hsteps⟩, hopens, hpath⟩ (hnone st sig)

theorem depthLimited_eq_zero_iff {fuel : Nat} {o : SearchOutcome}
    (hrun : x.explore p fuel = .ok (some (.ok o, y))) :
    o.stats.depthLimited = 0 ↔ ∀ st sig, ¬ x.CutsOff p st sig := by
  obtain ⟨s, hend, rfl, -⟩ := explore_eq_ok hrun
  rcases hend with hstart | ⟨s₀, s₁, hstart, hsteps, hlast⟩
  · refine iff_of_true (depthLimited_start (.inr hstart)) ?_
    rintro st sig ⟨_, _, _, ⟨s₀, hstart', -⟩, -⟩
    rw [hstart] at hstart'
    cases hstart'
  · have hend : s.outcome.stats.depthLimited = s₁.outcome.stats.depthLimited := by
      cases Search.step_cases hlast with
      | done => rfl
      | exhausted => rfl
    rw [hend]
    constructor
    · intro hzero st sig hcuts
      obtain ⟨s', hs', hpos⟩ := hcuts.depthLimited
      have hle := Search.depthLimited_mono (hs'.steps_to_end hstart hsteps hlast)
      rw [hzero] at hle
      exact absurd hle (Nat.not_le.mpr hpos)
    · exact Searches.depthLimited ⟨s₀, hstart, hsteps⟩

theorem Searches.expands {fuel : Nat} {o : SearchOutcome} {s : Search} {older : Path} {g : Generator}
    (h : x.Searches p s) (hrun : x.explore p fuel = .ok (some (.ok o, y))) (hcomplete : o.isComplete = true)
    (hpath : s.path = older.push g) : s.Expands p older g := by
  obtain ⟨s₂, hend, rfl, -⟩ := explore_eq_ok hrun
  rcases hend with hstart | ⟨s₀, s₁, hstart, hsteps, hlast⟩
  · obtain ⟨s₀, hstart', -⟩ := h
    rw [hstart] at hstart'
    cases hstart'
  · have hempty := Searches.path_of_finished ⟨s₀, hstart, hsteps⟩ hlast
      (Option.isNone_iff_eq_none.mp hcomplete)
    exact Search.expands_of_steps hpath (h.steps_to_end hstart hsteps hlast) hempty

/-- If a search is complete, then it has taken all choices of the first decision and of every decision that was
open in a new state which is in order, except where the path was as long as the limit allows. So it has taken
all choices if and only if it says, besides, that no state was cut off. -/
theorem explore_expands {x y : Explorer} {p : Program} {fuel : Nat} {o : SearchOutcome}
    (hrun : x.explore p fuel = .ok (some (.ok o, y))) (hcomplete : o.isComplete = true) :
    (∀ s, x.start p = .ok (.running s) → ∃ g, s.Expands p {} g) ∧
      (∀ s st sig g s', x.Searches p s → s.Opens p st sig g s' → s'.Expands p st.path g ∨
        s'.path = st.path ∧ ∃ d ∈ x.limits.maxDepth, d.toNat ≤ st.path.depth) ∧
      (o.stats.depthLimited = 0 ↔ ∀ s st sig g s', x.Searches p s → s.Opens p st sig g s' →
        s'.Expands p st.path g) := by
  have hopens : ∀ s st sig g s', x.Searches p s → s.Opens p st sig g s' → s'.Expands p st.path g ∨
      s'.path = st.path ∧ ∃ d ∈ x.limits.maxDepth, d.toNat ≤ st.path.depth := by
    intro s st sig g s' hs hopens
    rcases hopens.cases with ⟨hlimit, hpath, -⟩ | ⟨-, hpath, -⟩
    · rw [hs.traced.limits] at hlimit
      exact .inr ⟨hpath, hlimit⟩
    · exact .inl ((hs.step hopens.1).expands hrun hcomplete hpath)
  refine ⟨?_, hopens, ?_⟩
  · intro s hstart
    obtain ⟨g, hpath⟩ := path_of_start hstart
    exact ⟨g, Searches.expands ⟨s, hstart, .refl⟩ hrun hcomplete hpath⟩
  · rw [depthLimited_eq_zero_iff hrun]
    constructor
    · intro hnone s st sig g s' hs hopens'
      refine (hopens s st sig g s' hs hopens').resolve_right fun hcut => ?_
      exact hnone st sig ⟨s, g, s', hs, hopens', hcut.1⟩
    · rintro hall st sig ⟨s, g, s', hs, hopens', hpath⟩
      exact Path.push_ne_self st.path g ((hall s st sig g s' hs hopens').1.symm.trans hpath)

theorem explore_expands_twoNodes : ∃ x o y, withKernel (.ofConfig exactConfig) exactConfig = .ok x ∧
    x.explore twoNodes.program 30 = .ok (some (.ok o, y)) ∧ y.table.size = 6 ∧
    ∀ s st sig g s', x.Searches twoNodes.program s → s.Opens twoNodes.program st sig g s' →
      s'.Expands twoNodes.program st.path g := by
  obtain ⟨⟨x, o, y⟩, hr, haborted, hdepth, hsize, -⟩ := explored_twoNodes
  obtain ⟨hx, hrun⟩ := explored?_eq_some hr
  have hcomplete : o.isComplete = true := Option.isNone_iff_eq_none.mpr haborted
  exact ⟨x, o, y, hx, hrun, hsize, (explore_expands hrun hcomplete).2.2.mp hdepth⟩

def twoIdle : Script where
  threads := #[{ code := #[] }, { code := #[] }]

def shallowConfig : Config where
  search := { maxDepth := some 1, stateTable := "exact", gcAfterTransition := false }

theorem explored_twoIdle : ∃ r ∈ explored? shallowConfig twoIdle.program 30,
    r.2.1.isComplete = true ∧ r.2.1.stats.depthLimited = 2 := by
  decide +kernel

theorem explore_complete_twoIdle : ∃ x o y, withKernel (.ofConfig shallowConfig) shallowConfig = .ok x ∧
    x.explore twoIdle.program 30 = .ok (some (.ok o, y)) ∧ o.isComplete = true ∧
    ∃ s st sig g s', x.Searches twoIdle.program s ∧ s.Opens twoIdle.program st sig g s' ∧
      ¬ s'.Expands twoIdle.program st.path g := by
  obtain ⟨⟨x, o, y⟩, hr, hcomplete, hdepth⟩ := explored_twoIdle
  obtain ⟨hx, hrun⟩ := explored?_eq_some hr
  dsimp only at hdepth
  have hcuts : ¬ ∀ st sig, ¬ x.CutsOff twoIdle.program st sig := by
    rw [← depthLimited_eq_zero_iff hrun, hdepth]
    decide
  push Not at hcuts
  obtain ⟨st, sig, s, g, s', hs, hopens, hpath⟩ := hcuts
  refine ⟨x, o, y, hx, hrun, hcomplete, s, st, sig, g, s', hs, hopens, fun hexpands => ?_⟩
  exact Path.push_ne_self st.path g (hexpands.1.symm.trans hpath)

end Explorer

end Interleave
