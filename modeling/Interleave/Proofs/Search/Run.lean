import Interleave.Proofs.Except
import Interleave.Search.Explorer
import Mathlib.Logic.Relation

/-!
What a search does, step by step. A step drops the newest generator, or it goes back to the state in which
that generator arose and takes the next choice there.
-/

namespace Interleave

/-- A state of the program together with the way it was reached and what is to happen next. -/
structure Standing where
  kernel : Kernel
  dice : Dice
  next : Transition
  path : Path

namespace Generator

theorem advance_eq_some {g g' : Generator} {c : ThreadId} (h : g.advance = (some c, g')) :
    g.choices[g.processed]? = some c ∧ g' = { g with cursor := some g.processed } := by
  unfold advance at h
  split at h
  · obtain ⟨hc, rfl⟩ := Prod.mk.inj h
    exact ⟨hc, rfl⟩
  · cases h

theorem advance_eq_none {g g' : Generator} (h : g.advance = (none, g')) :
    g.choices.length ≤ g.processed := by
  unfold advance at h
  split at h
  · obtain ⟨hc, -⟩ := Prod.mk.inj h
    exact List.getElem?_eq_none_iff.mp hc
  · next hmore =>
    unfold hasMore total at hmore
    simpa using hmore

end Generator

namespace Explorer

variable (x : Explorer)

def tidy (k : Kernel) : Except Fault Kernel := do
  if x.limits.gcAfterTransition then
    return (← k.collect).2
  else
    return k

def initialKernel (p : Program) : Except Fault (Except SearchError Kernel) := do
  match ← p.init x.kernel with
  | (.error e, _) => return .error e
  | (.ok _, k) => return .ok (← x.tidy k)

def begin (k : Kernel) : Except Fault Standing := do
  let (g?, k, d) ← x.scheduler.root k x.dice
  return ⟨k, d, .ofGenerator? g?, {}⟩

def take (p : Program) (st : Standing) (g : Generator) (i : Nat) (choice : ThreadId) :
    Except Fault (Except SearchError Standing) := do
  let path := st.path.push { g with cursor := some i }
  let (t, dataChoice) := Search.runner g choice
  match ← p.step ⟨x.scheduler, path, dataChoice⟩ t st.kernel st.dice with
  | (.error e, _) => return .error e
  | (.ok next, k, d) => return .ok ⟨← x.tidy k, d, next, path⟩

def Takes (p : Program) (st : Standing) (i : Nat) (st' : Standing) : Prop :=
  ∃ g c, st.next = .branch g ∧ g.choices[i]? = some c ∧ x.take p st g i c = .ok (.ok st')

variable {x} {y : Explorer} {n : Nat}

theorem collectGarbage_eq_ok (h : x.collectGarbage = .ok (n, y)) :
    x.tidy x.kernel = .ok y.kernel ∧ y = { x with kernel := y.kernel } := by
  unfold collectGarbage at h
  unfold tidy
  split at h
  · next hgc =>
    obtain ⟨⟨stats, k⟩, hk, h⟩ := bind_eq_ok.mp h
    cases h
    rw [if_pos hgc, hk]
    exact ⟨rfl, rfl⟩
  · next hgc =>
    cases h
    rw [if_neg hgc]
    exact ⟨rfl, rfl⟩

theorem visitState_eq_ok {sig : Signature} {visit : Visit} (h : x.visitState = .ok (sig, visit, y)) :
    ∃ serializer, x.serializer.signature x.kernel = .ok (sig, serializer) ∧
      visit = (x.table.visit sig).1 ∧ y = { x with serializer, table := (x.table.visit sig).2 } := by
  obtain ⟨⟨sig', serializer⟩, hsig, h⟩ := bind_eq_ok.mp h
  cases h
  exact ⟨serializer, hsig, rfl, rfl⟩

end Explorer

namespace Search

def resumed (s : Search) (node : Node) (g : Generator) : Standing where
  kernel := (s.kernel.restore node.snapshot).tell (.advanced g)
  dice := s.dice
  next := .branch g.reset
  path := s.path.pop

def announced (s : Search) (g : Generator) (st : Standing) (sig : Signature) : Standing :=
  { st with
    kernel := st.kernel.tell (.advancedState (s.path.setTop g).depth (s.table.visit sig).1.isNew) }

def arrived (s : Search) (g : Generator) (st : Standing) (serializer : Serializer) (sig : Signature)
    (reclaimed : Nat) : Search :=
  { s with
    kernel := (s.announced g st sig).kernel
    dice := st.dice
    serializer
    table := (s.table.visit sig).2
    path := s.path.setTop g
    outcome.stats := { s.outcome.stats with
      transitions := s.outcome.stats.transitions + 1
      reclaimed := s.outcome.stats.reclaimed + reclaimed } }

variable {s s' : Search} {p : Program}

theorem take_resumed {node : Node} {g : Generator} {i : Nat} {c : ThreadId} {next : Transition}
    {k k' : Kernel} {d : Dice} (hi : g.cursor = some i)
    (hstep : p.step ⟨s.scheduler, s.path.setTop g, (runner g c).2⟩ (runner g c).1 (s.resumed node g).kernel
      s.dice = .ok (.ok next, k, d)) (htidy : s.toExplorer.tidy k = .ok k') :
    s.toExplorer.take p (s.resumed node g) g.reset i c = .ok (.ok ⟨k', d, next, s.path.setTop g⟩) := by
  have hg : { g.reset with cursor := some i } = g := by
    rw [← hi]
    rfl
  unfold Explorer.take
  rw [hg]
  exact bind_eq_ok.mpr ⟨_, hstep, bind_eq_ok.mpr ⟨_, htidy, rfl⟩⟩

theorem tryChoice_eq_ok {node : Node} {g : Generator} {i : Nat} {c : ThreadId} {r : Progress}
    (hi : g.cursor = some i) (h : s.tryChoice p node g c = .ok r) :
    (∃ e x, r = .failed e x) ∨ ∃ st serializer sig reclaimed,
      s.toExplorer.take p (s.resumed node g) g.reset i c = .ok (.ok st) ∧
      (s.serializer.prime (s.kernel.restore node.snapshot) node.signature).signature st.kernel =
        .ok (sig, serializer) ∧
      let s' := s.arrived g st serializer sig reclaimed
      ((s.table.visit sig).1.isNew = true ∧
          r = .running (s'.enterNewState p sig st.next node.blockedInAtomic) ∨
        (s.table.visit sig).1.isNew = false ∧
          r = .running (s'.setStats fun stats => { stats with revisited := stats.revisited + 1 })) := by
  obtain ⟨⟨result, k, d⟩, hstep, h⟩ := bind_eq_ok.mp h
  cases result with
  | error e =>
    cases h
    exact .inl ⟨e, _, rfl⟩
  | ok next =>
    obtain ⟨⟨reclaimed, x⟩, hgc, h⟩ := bind_eq_ok.mp h
    obtain ⟨⟨sig, visit, y⟩, hvisit, h⟩ := bind_eq_ok.mp h
    obtain ⟨htidy, hx⟩ := Explorer.collectGarbage_eq_ok hgc
    obtain ⟨serializer, hsig, rfl, rfl⟩ := Explorer.visitState_eq_ok hvisit
    rw [hx] at hsig h
    -- garbage has been collected and the signature found before the observers are told
    refine .inr ⟨⟨x.kernel, d, next, s.path.setTop g⟩, serializer, sig, reclaimed,
      take_resumed hi hstep htidy, hsig, ?_⟩
    have harrived : (if (s.table.visit sig).1.isNew then
        pure (.running ((s.arrived g ⟨x.kernel, d, next, s.path.setTop g⟩ serializer sig reclaimed).enterNewState
          p sig next node.blockedInAtomic))
      else pure (.running ((s.arrived g ⟨x.kernel, d, next, s.path.setTop g⟩ serializer sig
          reclaimed).setStats fun stats => { stats with revisited := stats.revisited + 1 }))) =
        (Except.ok r : Except Fault Progress) := h
    split at harrived
    · next hnew =>
      cases harrived
      exact .inl ⟨hnew, rfl⟩
    · next hnew =>
      cases harrived
      exact .inr ⟨by simpa using hnew, rfl⟩

structure Arrival (s : Search) (p : Program) (node : Node) (g : Generator) (st : Standing)
    (serializer : Serializer) (sig : Signature) : Prop where
  newest : ∃ rest, s.nodes = node :: rest
  top : s.path.top? = some g
  take : ∃ c, g.choices[g.processed]? = some c ∧
    s.toExplorer.take p (s.resumed node { g with cursor := some g.processed }) g.reset g.processed c =
      .ok (.ok st)
  signature : (s.serializer.prime (s.kernel.restore node.snapshot) node.signature).signature st.kernel =
    .ok (sig, serializer)

inductive StepResult (s : Search) (p : Program) : Progress → Prop where
  | done (h : s.nodes = [] ∨ s.path.top? = none) : StepResult s p (.finished s)
  | exhausted (reason : AbortReason) (hbudget : s.budgetExhausted = some reason) :
    StepResult s p (.finished { s with outcome.aborted := some reason })
  | pop {node : Node} {rest : List Node} {g : Generator} (hnodes : s.nodes = node :: rest)
    (htop : s.path.top? = some g) (hdone : g.choices.length ≤ g.processed) :
    StepResult s p (.running (s.popGenerator g))
  | seen {node : Node} {g : Generator} {st : Standing} {serializer : Serializer} {sig : Signature}
    (h : s.Arrival p node g st serializer sig) (reclaimed : Nat)
    (hseen : (s.table.visit sig).1.isNew = false) :
    StepResult s p (.running ((s.arrived { g with cursor := some g.processed } st serializer sig
      reclaimed).setStats fun stats => { stats with revisited := stats.revisited + 1 }))
  | new {node : Node} {g : Generator} {st : Standing} {serializer : Serializer} {sig : Signature}
    (h : s.Arrival p node g st serializer sig) (reclaimed : Nat)
    (hnew : (s.table.visit sig).1.isNew = true) :
    StepResult s p (.running ((s.arrived { g with cursor := some g.processed } st serializer sig
      reclaimed).enterNewState p sig st.next node.blockedInAtomic))
  | failed (e : SearchError) (x : Explorer) : StepResult s p (.failed e x)

theorem step_cases {r : Progress} (h : s.step p = .ok r) : s.StepResult p r := by
  unfold step at h
  split at h
  · next node rest g hnodes htop =>
    split at h
    · next reason hbudget =>
      cases h
      exact .exhausted reason hbudget
    · split at h
      · next hadvance =>
        cases h
        exact .pop hnodes htop (Generator.advance_eq_none hadvance)
      · next c g' hadvance =>
        obtain ⟨hc, rfl⟩ := Generator.advance_eq_some hadvance
        rcases tryChoice_eq_ok rfl h with
          ⟨e, x, rfl⟩ | ⟨st, serializer, sig, reclaimed, htake, hsig, hres⟩
        · exact .failed e x
        · have harrival : s.Arrival p node g st serializer sig :=
            ⟨⟨rest, hnodes⟩, htop, ⟨c, hc, htake⟩, hsig⟩
          rcases hres with ⟨hnew, rfl⟩ | ⟨hseen, rfl⟩
          · exact .new harrival reclaimed hnew
          · exact .seen harrival reclaimed hseen
  · next hnone =>
    cases h
    apply StepResult.done
    cases hnodes : s.nodes with
    | nil => exact .inl rfl
    | cons node rest =>
      apply Or.inr
      cases htop : s.path.top? with
      | none => rfl
      | some g => exact (hnone node rest g hnodes htop).elim

def counted (s : Search) (parentBlocked : Bool) : Search :=
  { s with
    outcome := { s.outcome with
      blockedInAtomic := s.outcome.blockedInAtomic ++
        if s.kernel.atomic.blocked && !parentBlocked then [s.path.trace] else []
      stats := { s.outcome.stats with newStates := s.outcome.stats.newStates + 1 } } }

theorem enterNewState_eq (s : Search) (p : Program) (sig : Signature) (next : Transition)
    (parentBlocked : Bool) : s.enterNewState p sig next parentBlocked =
      match p.check s.kernel, next with
      | some message, _ =>
        { s.counted parentBlocked with
          outcome.violations := s.outcome.violations ++ [⟨message, s.path.trace⟩] }
      | none, .halt => (s.counted parentBlocked).recordTerminal sig
      | none, .branch g =>
        if s.atDepthLimit then
          (s.counted parentBlocked).setStats fun st => { st with depthLimited := st.depthLimited + 1 }
        else
          (s.counted parentBlocked).pushGenerator g sig := by
  unfold enterNewState
  extract_lets _ _ noted
  have hnoted : noted = s.counted parentBlocked := by
    unfold counted
    by_cases hblocked : s.kernel.atomic.blocked && !parentBlocked
    · rw [if_pos hblocked]
      exact if_pos hblocked
    · rw [if_neg hblocked, List.append_nil]
      exact if_neg hblocked
  clear_value noted
  subst hnoted
  have hkernel : (s.counted parentBlocked).kernel = s.kernel := rfl
  rw [hkernel]
  cases p.check s.kernel with
  | some message => rfl
  | none =>
    cases next with
    | halt => rfl
    | branch g => rfl

theorem recordTerminal_eq (s : Search) (sig : Signature) : ∃ endStates deadlocks, s.recordTerminal sig =
    { s with outcome := { s.outcome with endStates, deadlocks } } := by
  unfold recordTerminal
  split
  · exact ⟨_, _, rfl⟩
  · exact ⟨_, _, rfl⟩

inductive Entered (s : Search) (p : Program) (sig : Signature) (next : Transition) : Search → Prop where
  | violation {o : SearchOutcome} (hcheck : p.check s.kernel ≠ none)
    (ho : o.stats.depthLimited = s.outcome.stats.depthLimited) :
    Entered s p sig next { s with outcome := o }
  | terminal {o : SearchOutcome} (hcheck : p.check s.kernel = none) (hnext : next = .halt)
    (ho : o.stats.depthLimited = s.outcome.stats.depthLimited) :
    Entered s p sig next { s with outcome := o }
  | limited {o : SearchOutcome} {g : Generator}
    (ho : o.stats.depthLimited = s.outcome.stats.depthLimited + 1) (hcheck : p.check s.kernel = none)
    (hnext : next = .branch g) (hlimit : s.atDepthLimit = true) :
    Entered s p sig next { s with outcome := o }
  | expanded {o : SearchOutcome} {g : Generator} (hcheck : p.check s.kernel = none)
    (hnext : next = .branch g) (ho : o.stats.depthLimited = s.outcome.stats.depthLimited)
    (hlimit : s.atDepthLimit = false) : Entered s p sig next (({ s with outcome := o } : Search).pushGenerator g sig)

theorem enterNewState_cases (s : Search) (p : Program) (sig : Signature) (next : Transition)
    (parentBlocked : Bool) : s.Entered p sig next (s.enterNewState p sig next parentBlocked) := by
  rw [enterNewState_eq]
  cases hcheck : p.check s.kernel with
  | some message => exact .violation (by simp [hcheck]) rfl
  | none =>
    cases next with
    | halt =>
      dsimp only
      obtain ⟨endStates, deadlocks, heq⟩ := (s.counted parentBlocked).recordTerminal_eq sig
      rw [heq]
      exact .terminal hcheck rfl rfl
    | branch g =>
      dsimp only
      split
      · next hlimit => exact .limited rfl hcheck rfl hlimit
      · next hlimit => exact .expanded hcheck rfl rfl (Bool.eq_false_iff.mpr hlimit)

theorem Entered.frame {sig : Signature} {next : Transition} (h : s.Entered p sig next s') :
    s'.table = s.table ∧ ∀ node ∈ s.nodes, node ∈ s'.nodes := by
  cases h with
  | violation => exact ⟨rfl, fun _ => id⟩
  | terminal => exact ⟨rfl, fun _ => id⟩
  | limited => exact ⟨rfl, fun _ => id⟩
  | expanded => exact ⟨rfl, fun _ => .tail _⟩

theorem stats_enterNewState (s : Search) (p : Program) (sig : Signature) (next : Transition)
    (parentBlocked : Bool) : ∃ maxDepth depthLimited,
      (s.enterNewState p sig next parentBlocked).outcome.stats = { s.outcome.stats with
        newStates := s.outcome.stats.newStates + 1, maxDepth, depthLimited } := by
  rw [enterNewState_eq]
  cases p.check s.kernel with
  | some message => exact ⟨_, _, rfl⟩
  | none =>
    cases next with
    | halt =>
      dsimp only
      obtain ⟨endStates, deadlocks, heq⟩ := (s.counted parentBlocked).recordTerminal_eq sig
      rw [heq]
      exact ⟨_, _, rfl⟩
    | branch g =>
      dsimp only
      split
      · exact ⟨_, _, rfl⟩
      · exact ⟨_, _, rfl⟩

abbrev Steps (p : Program) : Search → Search → Prop :=
  Relation.ReflTransGen fun s s' => s.step p = .ok (.running s')

theorem initial_of_step (h : s.step p = .ok (.running s')) : s'.initial = s.initial := by
  cases step_cases h with
  | pop => rfl
  | seen => rfl
  | @new node _ st _ sig _ _ _ =>
    generalize hs' : Search.enterNewState _ p sig st.next node.blockedInAtomic = s'
    cases hs' ▸ enterNewState_cases _ p sig st.next node.blockedInAtomic with
    | violation => rfl
    | terminal => rfl
    | limited => rfl
    | expanded => rfl

theorem initial_of_finished (h : s.step p = .ok (.finished s')) : s'.initial = s.initial := by
  cases step_cases h with
  | done => rfl
  | exhausted => rfl

theorem initial_of_steps (h : s.Steps p s') : s'.initial = s.initial := by
  induction h with
  | refl => rfl
  | tail _ h ih => rw [initial_of_step h, ih]

theorem run_eq_some {fuel : Nat} {r : Progress} (h : s.run p fuel = .ok (some r)) :
    ∃ s', s.Steps p s' ∧ s'.step p = .ok r ∧ ∀ s'', r ≠ .running s'' := by
  induction fuel generalizing s with
  | zero => cases h
  | succ fuel ih =>
    obtain ⟨r', hstep, h⟩ := bind_eq_ok.mp h
    cases r' with
    | running s₁ =>
      obtain ⟨s', hsteps, hlast, hr⟩ := ih h
      exact ⟨s', .head hstep hsteps, hlast, hr⟩
    | finished s₁ =>
      cases h
      exact ⟨s, .refl, hstep, fun _ => nofun⟩
    | failed e x =>
      cases h
      exact ⟨s, .refl, hstep, fun _ => nofun⟩

end Search

def Progress.result? : Progress → Option (Except SearchError SearchOutcome × Explorer)
  | .running _ => none
  | .finished s => some (.ok s.outcome, { s.toExplorer with kernel := s.kernel.restore s.initial })
  | .failed e x => some (.error e, x)

theorem Progress.result?_eq_ok {last : Progress} {o : SearchOutcome} {y : Explorer}
    (h : last.result? = some (.ok o, y)) : ∃ s, last = .finished s ∧ o = s.outcome ∧
      y = { s.toExplorer with kernel := s.kernel.restore s.initial } := by
  cases last with
  | running s => cases h
  | failed e x => cases h
  | finished s =>
    cases h
    exact ⟨s, rfl, rfl, rfl⟩

theorem Progress.result?_eq_error {last : Progress} {e : SearchError} {y : Explorer}
    (h : last.result? = some (.error e, y)) : last = .failed e y := by
  cases last with
  | running s => cases h
  | finished s => cases h
  | failed e' x =>
    cases h
    rfl

namespace Explorer

variable {x y : Explorer} {p : Program}

def opened (x : Explorer) (k k' : Kernel) (d : Dice) (serializer : Serializer) (sig : Signature)
    (reclaimed : Nat) : Search where
  kernel := k'
  scheduler := x.scheduler
  dice := d
  serializer := serializer
  table := (x.table.visit sig).2
  limits := x.limits
  initial := k.snapshot.1
  outcome := { stats := { newStates := 1, reclaimed } }

theorem start_eq_ok {r : Progress} (h : x.start p = .ok r) :
    (∃ e y, r = .failed e y) ∨ ∃ k k' d g? serializer sig reclaimed,
      x.initialKernel p = .ok (.ok k) ∧
      x.serializer.signature k.snapshot.2 = .ok (sig, serializer) ∧
      x.scheduler.root k.snapshot.2 x.dice = .ok (g?, k', d) ∧
      let s := x.opened k k' d serializer sig reclaimed
      (g? = none ∧ r = .finished (s.recordTerminal sig) ∨
        ∃ g, g? = some g ∧ r = .running (s.pushGenerator g sig)) := by
  obtain ⟨⟨result, k₀⟩, hinit, h⟩ := bind_eq_ok.mp h
  cases result with
  | error e =>
    cases h
    exact .inl ⟨e, _, rfl⟩
  | ok _ =>
    obtain ⟨⟨reclaimed, x₁⟩, hgc, h⟩ := bind_eq_ok.mp h
    obtain ⟨⟨sig, visit, x₂⟩, hvisit, h⟩ := bind_eq_ok.mp h
    obtain ⟨⟨g?, k', d⟩, hroot, h⟩ := bind_eq_ok.mp h
    obtain ⟨htidy, hx₁⟩ := collectGarbage_eq_ok hgc
    obtain ⟨serializer, hsig, -, rfl⟩ := visitState_eq_ok hvisit
    rw [hx₁] at hsig hroot h
    refine .inr ⟨x₁.kernel, k', d, g?, serializer, sig, reclaimed, ?_, hsig, hroot, ?_⟩
    · exact bind_eq_ok.mpr ⟨_, hinit, bind_eq_ok.mpr ⟨_, htidy, rfl⟩⟩
    · cases g? with
      | none =>
        cases h
        exact .inl ⟨rfl, rfl⟩
      | some g =>
        cases h
        exact .inr ⟨g, rfl, rfl⟩

theorem start_eq_running {s : Search} (h : x.start p = .ok (.running s)) :
    ∃ k k' d g serializer sig reclaimed, x.initialKernel p = .ok (.ok k) ∧
      x.serializer.signature k.snapshot.2 = .ok (sig, serializer) ∧
      x.scheduler.root k.snapshot.2 x.dice = .ok (some g, k', d) ∧
      s = (x.opened k k' d serializer sig reclaimed).pushGenerator g sig := by
  rcases start_eq_ok h with ⟨e, y, h⟩ | ⟨k, k', d, g?, serializer, sig, reclaimed, hinit, hsig, hroot,
    ⟨-, h⟩ | ⟨g, rfl, h⟩⟩
  · cases h
  · cases h
  · cases h
    exact ⟨k, k', d, g, serializer, sig, reclaimed, hinit, hsig, hroot, rfl⟩

theorem start_eq_finished {s : Search} (h : x.start p = .ok (.finished s)) :
    ∃ k k' d serializer sig reclaimed, x.initialKernel p = .ok (.ok k) ∧
      x.serializer.signature k.snapshot.2 = .ok (sig, serializer) ∧
      x.scheduler.root k.snapshot.2 x.dice = .ok (none, k', d) ∧
      s = (x.opened k k' d serializer sig reclaimed).recordTerminal sig := by
  rcases start_eq_ok h with ⟨e, y, h⟩ | ⟨k, k', d, g?, serializer, sig, reclaimed, hinit, hsig, hroot,
    ⟨rfl, h⟩ | ⟨g, -, h⟩⟩
  · cases h
  · cases h
    exact ⟨k, k', d, serializer, sig, reclaimed, hinit, hsig, hroot, rfl⟩
  · cases h

theorem explore_eq (x : Explorer) (p : Program) (fuel : Nat) : x.explore p fuel = do
    match ← x.start p with
    | .running s => return (← s.run p fuel).bind Progress.result?
    | last => return last.result? := by
  unfold explore
  cases x.start p with
  | error e => rfl
  | ok first =>
    cases first with
    | failed e x => rfl
    | finished s => rfl
    | running s =>
      rw [ok_bind, ok_bind]
      dsimp only
      cases s.run p fuel with
      | error e => rfl
      | ok last? =>
        cases last? with
        | none => rfl
        | some last => cases last <;> rfl

theorem explore_eq_some {fuel : Nat} {r : Except SearchError SearchOutcome × Explorer}
    (h : x.explore p fuel = .ok (some r)) :
    ∃ last, (x.start p = .ok last ∨
        ∃ s₀, x.start p = .ok (.running s₀) ∧ s₀.run p fuel = .ok (some last)) ∧
      last.result? = some r := by
  rw [explore_eq] at h
  obtain ⟨first, hstart, h⟩ := bind_eq_ok.mp h
  cases first with
  | failed e x => exact ⟨_, .inl hstart, Except.ok.inj h⟩
  | finished s => exact ⟨_, .inl hstart, Except.ok.inj h⟩
  | running s₀ =>
    obtain ⟨last?, hrun, h⟩ := bind_eq_ok.mp h
    obtain ⟨last, rfl, hresult⟩ := Option.bind_eq_some_iff.mp (Except.ok.inj h)
    exact ⟨last, .inr ⟨s₀, hstart, hrun⟩, hresult⟩

theorem explore_eq_ok {fuel : Nat} {o : SearchOutcome}
    (h : x.explore p fuel = .ok (some (.ok o, y))) :
    ∃ s, (x.start p = .ok (.finished s) ∨
        ∃ s₀ s₁, x.start p = .ok (.running s₀) ∧ s₀.Steps p s₁ ∧ s₁.step p = .ok (.finished s)) ∧
      o = s.outcome ∧ y = { s.toExplorer with kernel := s.kernel.restore s.initial } := by
  obtain ⟨last, hend, hlast⟩ := explore_eq_some h
  obtain ⟨s, rfl, rfl, rfl⟩ := Progress.result?_eq_ok hlast
  refine ⟨s, hend.imp_right fun ⟨s₀, hstart, hrun⟩ => ?_, rfl, rfl⟩
  obtain ⟨s₁, hsteps, hlast, -⟩ := Search.run_eq_some hrun
  exact ⟨s₀, s₁, hstart, hsteps, hlast⟩

end Explorer

end Interleave
