import Interleave.Proofs.Search.Expansion
import Mathlib.Algebra.Ring.Nat

/-!
What a search finds. A step comes to a new state, which is put into the table and checked, or it leaves the
table and what has been reported as they are. So every state in the table has been checked, except for the
initial one, which is there before the first step.
-/

namespace Interleave

/-- What the check says depends on nothing but what a restore brings back and the classes that are known. -/
def Program.ChecksState (p : Program) : Prop :=
  ∀ k k' : Kernel, k'.snapshot.1 = k.snapshot.1 → k'.classes = k.classes → p.check k' = p.check k

def SearchOutcome.messages (o : SearchOutcome) : List String := o.violations.map (·.message)

def Path.pending (path : Path) : Nat :=
  (path.newestFirst.map fun g => g.choices.length - g.processed + 1).sum

namespace Search

structure Idles (s s' : Search) : Prop where
  table : s'.table = s.table
  nodes : ∀ node ∈ s'.nodes, node ∈ s.nodes
  pending : s'.path.pending < s.path.pending
  transitions : s.outcome.stats.transitions ≤ s'.outcome.stats.transitions
  violations : s'.outcome.violations = s.outcome.violations

structure Discovers (s : Search) (p : Program) (sig : Signature) (s' : Search) : Prop where
  arrival : ∃ node g st serializer, s.Arrival p node g st serializer sig
  isNew : (s.table.visit sig).1.isNew = true
  table : s'.table = { s.table with states := s.table.states.push sig }
  nodes : ∀ node ∈ s'.nodes, node ∈ s.nodes ∨ node.signature = sig
  transitions : s'.outcome.stats.transitions = s.outcome.stats.transitions + 1
  messages : p.ChecksState → s'.outcome.messages = s.outcome.messages ++ (p.check s'.kernel).toList

/-- The states that are recorded as new in the next `fuel` steps, each as its step leaves it. -/
def discovered (p : Program) : Nat → Search → List Kernel
  | 0, _ => []
  | fuel + 1, s =>
    match s.step p with
    | .ok (.running s') =>
      (if s.table.size < s'.table.size then [s'.kernel] else []) ++ discovered p fuel s'
    | _ => []

variable {s s' : Search} {p : Program} {sig : Signature} {next : Transition}

theorem messages_enterNewState (hp : p.ChecksState) (s : Search) (sig : Signature) (next : Transition)
    (parentBlocked : Bool) :
    (s.enterNewState p sig next parentBlocked).outcome.messages =
      s.outcome.messages ++ (p.check (s.enterNewState p sig next parentBlocked).kernel).toList := by
  have hkernel : p.check (s.enterNewState p sig next parentBlocked).kernel = p.check s.kernel := by
    generalize hs' : s.enterNewState p sig next parentBlocked = s'
    cases hs' ▸ s.enterNewState_cases p sig next parentBlocked with
    | violation => rfl
    | terminal => rfl
    | limited => rfl
    | expanded => exact hp _ _ rfl rfl
  rw [hkernel, enterNewState_eq]
  cases p.check s.kernel with
  | some message => exact List.map_append
  | none =>
    rw [Option.toList_none, List.append_nil]
    cases next with
    | halt =>
      dsimp only
      obtain ⟨endStates, deadlocks, heq⟩ := (s.counted parentBlocked).recordTerminal_eq sig
      rw [heq]
      rfl
    | branch g =>
      dsimp only
      split
      · rfl
      · rfl

theorem Entered.signature_of_mem (h : s.Entered p sig next s') :
    ∀ node ∈ s'.nodes, node ∈ s.nodes ∨ node.signature = sig := by
  cases h with
  | violation => exact fun _ => .inl
  | terminal => exact fun _ => .inl
  | limited => exact fun _ => .inl
  | expanded =>
    intro node hnode
    rcases List.mem_cons.mp hnode with rfl | hnode
    · exact .inr rfl
    · exact .inl hnode

theorem idles_or_discovers (h : s.step p = .ok (.running s')) :
    s.Idles s' ∨ ∃ sig, s.Discovers p sig s' := by
  cases step_cases h with
  | @pop _ _ g _ htop =>
    obtain ⟨older, hpath⟩ := List.head?_eq_some_iff.mp htop
    refine .inl ⟨rfl, fun _ => List.mem_of_mem_tail, ?_, Nat.le_refl _, rfl⟩
    dsimp only [popGenerator, tell, setStats, Path.pop, Path.pending]
    rw [hpath, List.map_cons, List.sum_cons, List.tail_cons]
    omega
  | @seen _ g _ _ _ harrival _ hseen =>
    obtain ⟨older, hpath⟩ := List.head?_eq_some_iff.mp harrival.top
    obtain ⟨c, hc, -⟩ := harrival.take
    have hlt := (List.getElem?_eq_some_iff.mp hc).1
    have hmoved : Generator.processed { g with cursor := some g.processed } = g.processed + 1 := rfl
    refine .inl ⟨(StateTable.visit_of_seen hseen).2, fun _ => id, ?_, Nat.le_succ _, rfl⟩
    dsimp only [arrived, setStats, Path.setTop, Path.pending]
    rw [hpath, List.map_cons, List.sum_cons, List.map_cons, List.sum_cons, List.tail_cons, hmoved]
    dsimp only
    omega
  | @new node g st serializer sig harrival reclaimed hnew =>
    have hentered := enterNewState_cases
      (s.arrived { g with cursor := some g.processed } st serializer sig reclaimed) p sig st.next
      node.blockedInAtomic
    obtain ⟨maxDepth, depthLimited, hstats⟩ := stats_enterNewState
      (s.arrived { g with cursor := some g.processed } st serializer sig reclaimed) p sig st.next
      node.blockedInAtomic
    refine .inr ⟨sig, ⟨node, g, st, serializer, harrival⟩, hnew, ?_, hentered.signature_of_mem, ?_, ?_⟩
    · rw [hentered.frame.1]
      exact (StateTable.visit_of_new hnew).2
    · rw [hstats]
      rfl
    · exact fun hp => messages_enterNewState hp _ sig st.next node.blockedInAtomic

theorem Discovers.size (h : s.Discovers p sig s') : s'.table.size = s.table.size + 1 := by
  rw [h.table]
  exact Array.size_push sig

theorem discovered_of_run (hp : p.ChecksState) {fuel : Nat}
    (h : s.run p fuel = .ok (some (.finished s'))) :
    s'.table.size = s.table.size + (s.discovered p fuel).length ∧
      s'.outcome.messages = s.outcome.messages ++ (s.discovered p fuel).filterMap p.check := by
  induction fuel generalizing s with
  | zero => cases h
  | succ fuel ih =>
    obtain ⟨r, hstep, h⟩ := bind_eq_ok.mp h
    unfold discovered
    rw [hstep]
    cases r with
    | failed e x => cases h
    | finished s₁ =>
      cases h
      dsimp only
      rw [List.filterMap_nil, List.append_nil]
      cases step_cases hstep with
      | done => exact ⟨rfl, rfl⟩
      | exhausted => exact ⟨rfl, rfl⟩
    | running s₁ =>
      obtain ⟨hsize, hmessages⟩ := ih h
      dsimp only
      rw [hsize, hmessages]
      rcases idles_or_discovers hstep with hidles | ⟨sig, hdiscovers⟩
      · have htable : ¬ s.table.size < s₁.table.size := by
          rw [hidles.table]
          exact Nat.lt_irrefl _
        rw [if_neg htable, hidles.table, List.nil_append]
        refine ⟨rfl, ?_⟩
        unfold SearchOutcome.messages
        rw [hidles.violations]
      · have hgrown := hdiscovers.size
        rw [if_pos (by omega), hdiscovers.messages hp]
        constructor
        · rw [List.length_append, List.length_singleton]
          omega
        · rw [List.filterMap_append, List.append_assoc]
          cases hcheck : p.check s₁.kernel with
          | none => simp [hcheck]
          | some message => simp [hcheck]

end Search

namespace Explorer

/-- The states that a search records as new after the initial one, each as its step leaves it. -/
def discovered (x : Explorer) (p : Program) (fuel : Nat) : List Kernel :=
  match x.start p with
  | .ok (.running s) => s.discovered p fuel
  | _ => []

variable {x y : Explorer} {p : Program}

@[elab_as_elim]
theorem Searches.induction {motive : Search → Prop} {s : Search} (hs : x.Searches p s)
    (start : ∀ s, x.start p = .ok (.running s) → motive s)
    (idles : ∀ s s', s.Idles s' → motive s → motive s')
    (discovers : ∀ s s' sig, x.Searches p s → s.Discovers p sig s' → motive s → motive s') : motive s := by
  obtain ⟨s₀, hstart, hsteps⟩ := hs
  induction hsteps with
  | refl => exact start s₀ hstart
  | @tail s s' hsteps hstep ih =>
    rcases Search.idles_or_discovers hstep with hidles | ⟨sig, hdiscovers⟩
    · exact idles s s' hidles ih
    · exact discovers s s' sig ⟨s₀, hstart, hsteps⟩ hdiscovers ih

theorem table_of_start {k : Kernel} {c : Config} {r : Shuffler} {s : Search} (hx : withKernel k c r = .ok x)
    (h : x.start p = .ok (.running s) ∨ x.start p = .ok (.finished s)) :
    (∃ k₀, x.initialKernel p = .ok (.ok k₀)) ∧ s.table.size = 1 ∧ s.outcome.messages = [] := by
  have htable : ∃ matching, x.table = { matching } := by
    obtain ⟨_, _, matching, -, -, -, rfl⟩ := withKernel_cases hx
    exact ⟨matching, rfl⟩
  obtain ⟨matching, htable⟩ := htable
  rcases h with h | h
  · obtain ⟨k₀, k', d, g, serializer, sig, reclaimed, hinit, -, -, rfl⟩ := start_eq_running h
    exact ⟨⟨k₀, hinit⟩, congrArg StateTable.size (states_opened k₀ k' d serializer reclaimed htable), rfl⟩
  · obtain ⟨k₀, k', d, serializer, sig, reclaimed, hinit, -, -, rfl⟩ := start_eq_finished h
    obtain ⟨_, _, heq⟩ := (x.opened k₀ k' d serializer sig reclaimed).recordTerminal_eq sig
    rw [heq]
    exact ⟨⟨k₀, hinit⟩, congrArg StateTable.size (states_opened k₀ k' d serializer reclaimed htable), rfl⟩

/-- The search has checked every state in its table but the initial one: as many violations are reported as
there are states, among those that it has recorded as new after the initial one, about which the check says
something. The initial state counts as well only if the check says nothing about it. -/
theorem explore_checks {k : Kernel} {c : Config} {r : Shuffler} {x y : Explorer} {p : Program} {fuel : Nat}
    {o : SearchOutcome} (hx : withKernel k c r = .ok x) (hp : p.ChecksState)
    (hrun : x.explore p fuel = .ok (some (.ok o, y))) :
    ∃ k₀, x.initialKernel p = .ok (.ok k₀) ∧ y.table.size = (k₀ :: x.discovered p fuel).length ∧
      o.messages = (x.discovered p fuel).filterMap p.check ∧
      (∀ k ∈ x.discovered p fuel, ∀ message ∈ p.check k, ∃ v ∈ o.violations, v.message = message) ∧
      (o.violations.length = (k₀ :: x.discovered p fuel).countP (p.check · |>.isSome) ↔
        p.check k₀ = none) := by
  obtain ⟨last, hend, hlast⟩ := explore_eq_some hrun
  obtain ⟨s, rfl, rfl, rfl⟩ := Progress.result?_eq_ok hlast
  obtain ⟨⟨k₀, hinit⟩, hsize, hmessages⟩ : (∃ k₀, x.initialKernel p = .ok (.ok k₀)) ∧
      s.table.size = 1 + (x.discovered p fuel).length ∧
      s.outcome.messages = (x.discovered p fuel).filterMap p.check := by
    unfold discovered
    rcases hend with hstart | ⟨s₀, hstart, hrun⟩
    · rw [hstart]
      exact table_of_start hx (.inr hstart)
    · rw [hstart]
      obtain ⟨hinit, hsize, hmessages⟩ := table_of_start hx (.inl hstart)
      obtain ⟨hgrown, hadded⟩ := Search.discovered_of_run hp hrun
      rw [hsize] at hgrown
      rw [hmessages] at hadded
      exact ⟨hinit, hgrown, hadded⟩
  have hcount : s.outcome.violations.length = (x.discovered p fuel).countP (p.check · |>.isSome) := by
    rw [← List.length_filterMap_eq_countP, ← hmessages]
    exact (List.length_map _).symm
  refine ⟨k₀, hinit, hsize.trans (Nat.add_comm _ _), hmessages, ?_, ?_⟩
  · intro k hk message hmessage
    have hmem : message ∈ s.outcome.messages := by
      rw [hmessages]
      exact List.mem_filterMap.mpr ⟨k, hk, hmessage⟩
    exact List.mem_map.mp hmem
  · rw [hcount, List.countP_cons]
    cases p.check k₀ with
    | none => simp
    | some message => simp

end Explorer

theorem Script.checksState (script : Script) : script.program.ChecksState := by
  intro k k' hsnapshot hclasses
  have hstatics : ∀ c, k'.statics.get? c = k.statics.get? c := fun c =>
    congrArg (fun m : Snapshot => (m.statics.cells[c]?).join) hsnapshot
  have hcontains : ∀ c, k'.statics.contains c = k.statics.contains c := fun c =>
    Arena.contains_congr (hstatics c)
  have halive : k'.threads.anyAlive = k.threads.anyAlive :=
    congrArg (fun m : Snapshot => m.threads.toList.any (·.isAlive)) hsnapshot
  have hvalue : ∀ field, script.sharedValue? k' field = script.sharedValue? k field := by
    intro field
    unfold sharedValue? Kernel.getStaticInt Kernel.readStatic Kernel.staticSlot
    simp only [hclasses, hstatics, hcontains]
  change script.violation? k' = script.violation? k
  unfold violation?
  simp only [hvalue, halive]

namespace Explorer

theorem explore_checks_ambush : ∃ x o y, withKernel (.ofConfig exactConfig) exactConfig = .ok x ∧
    ambush.program.ChecksState ∧ x.explore ambush.program 30 = .ok (some (.ok o, y)) ∧
    ∃ k₀, x.initialKernel ambush.program = .ok (.ok k₀) ∧
      y.table.size = (k₀ :: x.discovered ambush.program 30).length ∧
      ["x == 2"] = (x.discovered ambush.program 30).filterMap ambush.program.check ∧
      (o.violations.length = (k₀ :: x.discovered ambush.program 30).countP
        (ambush.program.check · |>.isSome) ↔ ambush.program.check k₀ = none) := by
  obtain ⟨⟨x, o, y⟩, hr, hviolations, -⟩ := explored_ambush
  obtain ⟨hx, hrun⟩ := explored?_eq_some hr
  have hmessages : o.messages = ["x == 2"] := congrArg (List.map Violation.message) hviolations
  obtain ⟨k₀, hinit, hsize, hfound, -, hinitial⟩ := explore_checks hx ambush.checksState hrun
  exact ⟨x, o, y, hx, ambush.checksState, hrun, k₀, hinit, hsize, hmessages ▸ hfound, hinitial⟩

def latecomer : Script where
  fields := ["x"]
  threads := #[{ code := #[.store "x" 1] }]
  check := some (.never "x" 0)

theorem explored_latecomer : ∃ r ∈ explored? exactConfig latecomer.program 30, r.2.1.violations = [] ∧
    ∃ initial ∈ (r.1.initialKernel latecomer.program).toOption, ∃ k₀ ∈ initial.toOption,
      latecomer.program.check k₀ = some "x == 0" := by
  decide +kernel

theorem explore_skips_latecomer : ∃ x o y k₀,
    withKernel (.ofConfig exactConfig) exactConfig = .ok x ∧ latecomer.program.ChecksState ∧
    x.explore latecomer.program 30 = .ok (some (.ok o, y)) ∧
    x.initialKernel latecomer.program = .ok (.ok k₀) ∧
    latecomer.program.check k₀ = some "x == 0" ∧ o.violations = [] ∧
    o.violations.length ≠
      (k₀ :: x.discovered latecomer.program 30).countP (latecomer.program.check · |>.isSome) := by
  obtain ⟨⟨x, o, y⟩, hr, hviolations, initial, hinitial, k₀, hk₀, hcheck⟩ := explored_latecomer
  obtain ⟨hx, hrun⟩ := explored?_eq_some hr
  have hinit : x.initialKernel latecomer.program = .ok (.ok k₀) := by
    rw [toOption_eq_some.mp hinitial, toOption_eq_some.mp hk₀]
  have hcount : 0 < (k₀ :: x.discovered latecomer.program 30).countP
      (latecomer.program.check · |>.isSome) :=
    List.countP_pos_iff.mpr ⟨k₀, List.mem_cons_self, by rw [hcheck]; rfl⟩
  refine ⟨x, o, y, k₀, hx, latecomer.checksState, hrun, hinit, hcheck, hviolations, ?_⟩
  dsimp only at hviolations
  rw [hviolations]
  exact Nat.ne_of_lt hcount

end Explorer

end Interleave
