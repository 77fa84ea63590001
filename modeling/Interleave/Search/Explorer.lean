import Interleave.Encoding.StateTable
import Interleave.Kernel.Memory
import Interleave.Search.Program

/-!
Depth-first exploration of all interleavings of a program.

Every generator on the path has the snapshot of the state in which it arose. A choice is tried by
restoring that state and letting the chosen thread run; only the dice are not put back. States that were
visited before are not expanded again. The exploration is a sequence of steps on an explicit search
state; it ends when no generator is left or a budget is used up.
-/

namespace Interleave

structure SearchStats where
  transitions : Nat := 0
  newStates : Nat := 0
  revisited : Nat := 0
  backtracks : Nat := 0
  maxDepth : Nat := 0
  depthLimited : Nat := 0
  reclaimed : Nat := 0
  deriving DecidableEq, Repr

structure Violation where
  message : String
  trace : List ThreadId
  deriving DecidableEq, Repr

inductive AbortReason where
  | maxStates
  | maxTransitions
  deriving DecidableEq, Repr

def AbortReason.label : AbortReason → String
  | maxStates => "state budget exhausted"
  | maxTransitions => "transition budget exhausted"

structure SearchOutcome where
  endStates : List UInt64 := []
  deadlocks : List (List ThreadId) := []
  violations : List Violation := []
  blockedInAtomic : List (List ThreadId) := []
  aborted : Option AbortReason := none
  stats : SearchStats := {}
  deriving DecidableEq, Repr

namespace SearchOutcome

def isClean (o : SearchOutcome) : Bool := o.deadlocks.isEmpty && o.violations.isEmpty

def isComplete (o : SearchOutcome) : Bool := o.aborted.isNone

end SearchOutcome

def Kernel.ofConfig (c : Config) : Kernel := .withLimit (c.heap.maxLiveObjects.map (·.toNat))

structure Explorer where
  kernel : Kernel
  scheduler : Scheduler
  dice : Dice
  serializer : Serializer
  table : StateTable
  limits : SearchConfig

namespace Explorer

def withKernel (k : Kernel) (c : Config) (r : Shuffler := .congruential) : Except SearchError Explorer :=
  match Serializer.attach k with
  | (.error e, _) => throw (.kernel e)
  | (.ok serializer, kernel) =>
    match Scheduler.ofConfig c with
    | .error e => throw (.config e)
    | .ok scheduler =>
      match Matching.ofName? c.search.stateTable with
      | none => throw (.config (.unknownStateTable c.search.stateTable))
      | some matching =>
        return {
          kernel
          scheduler
          dice := scheduler.policy.dice r
          serializer
          table := { matching }
          limits := c.search
        }

def ofConfig (c : Config) (r : Shuffler := .congruential) : Except SearchError Explorer :=
  match c.validate with
  | .error e => throw (.config e)
  | .ok _ => withKernel (.ofConfig c) c r

def collectGarbage (x : Explorer) : Except Fault (Nat × Explorer) := do
  if x.limits.gcAfterTransition then
    let (stats, kernel) ← x.kernel.collect
    return (stats.reclaimed, { x with kernel })
  else
    return (0, x)

def visitState (x : Explorer) : Except Fault (Signature × Visit × Explorer) := do
  let (sig, serializer) ← x.serializer.signature x.kernel
  let (visit, table) := x.table.visit sig
  return (sig, visit, { x with serializer, table })

end Explorer

structure Node where
  snapshot : Snapshot
  signature : Signature
  blockedInAtomic : Bool

/-- An exploration under way. The nodes belong to the generators of the path, newest first. -/
structure Search extends Explorer where
  initial : Snapshot
  path : Path := {}
  nodes : List Node := []
  outcome : SearchOutcome := {}

inductive Progress where
  | running (s : Search)
  | finished (s : Search)
  | failed (e : SearchError) (x : Explorer)

namespace Search

def tell (s : Search) (e : Event) : Search := { s with kernel := s.kernel.tell e }

def setStats (s : Search) (f : SearchStats → SearchStats) : Search :=
  { s with outcome.stats := f s.outcome.stats }

def recordTerminal (s : Search) (sig : Signature) : Search :=
  if s.kernel.isDeadlocked then
    { s with outcome.deadlocks := s.outcome.deadlocks ++ [s.path.trace] }
  else
    { s with outcome.endStates := s.outcome.endStates ++ [sig.hash] }

def pushGenerator (s : Search) (g : Generator) (sig : Signature) : Search :=
  let s := s.tell (.set g)
  let (snapshot, kernel) := s.kernel.snapshot
  let node := { snapshot, signature := sig, blockedInAtomic := kernel.atomic.blocked }
  let s := { s with kernel, path := s.path.push g, nodes := node :: s.nodes }
  s.setStats fun st => { st with maxDepth := max st.maxDepth s.path.depth }

def popGenerator (s : Search) (g : Generator) : Search :=
  let s := s.tell (.processed g)
  let s := { s with path := s.path.pop, nodes := s.nodes.tail }
  let s := s.setStats fun st => { st with backtracks := st.backtracks + 1 }
  s.tell (.backtracked s.path.depth)

def budgetExhausted (s : Search) : Option AbortReason :=
  if s.limits.maxTransitions.any (·.toNat ≤ s.outcome.stats.transitions) then
    some .maxTransitions
  else if s.limits.maxStates.any (·.toNat ≤ s.table.size) then
    some .maxStates
  else
    none

def atDepthLimit (s : Search) : Bool := s.limits.maxDepth.any (·.toNat ≤ s.path.depth)

def enterNewState (s : Search) (p : Program) (sig : Signature) (next : Transition)
    (parentBlocked : Bool) : Search :=
  let s := s.setStats fun st => { st with newStates := st.newStates + 1 }
  let s :=
    if s.kernel.atomic.blocked && !parentBlocked then
      { s with outcome.blockedInAtomic := s.outcome.blockedInAtomic ++ [s.path.trace] }
    else
      s
  match p.check s.kernel with
  | some message =>
    { s with outcome.violations := s.outcome.violations ++ [⟨message, s.path.trace⟩] }
  | none =>
    match next with
    | .halt => s.recordTerminal sig
    | .branch g =>
      if s.atDepthLimit then
        s.setStats fun st => { st with depthLimited := st.depthLimited + 1 }
      else
        s.pushGenerator g sig

def runner (g : Generator) (choice : ThreadId) : ThreadId × Option ThreadId :=
  if g.schedules then (choice, none) else (g.creator.getD choice, some choice)

def tryChoice (s : Search) (p : Program) (node : Node) (g : Generator) (choice : ThreadId) :
    Except Fault Progress := do
  let (t, dataChoice) := runner g choice
  let s := { s with path := s.path.setTop g, kernel := s.kernel.restore node.snapshot }
  let s := { s with serializer := s.serializer.prime s.kernel node.signature }
  let s := s.tell (.advanced g)
  let (result, kernel, dice) ← p.step ⟨s.scheduler, s.path, dataChoice⟩ t s.kernel s.dice
  let s := { s with kernel, dice }
  match result with
  | .error e => return .failed e s.toExplorer
  | .ok next =>
    let (reclaimed, x) ← s.collectGarbage
    let (sig, visit, x) ← x.visitState
    let s := { s with toExplorer := x }
    let s := s.setStats fun st =>
      { st with transitions := st.transitions + 1, reclaimed := st.reclaimed + reclaimed }
    let s := s.tell (.advancedState s.path.depth visit.isNew)
    if visit.isNew then
      return .running (s.enterNewState p sig next node.blockedInAtomic)
    else
      return .running (s.setStats fun st => { st with revisited := st.revisited + 1 })

def step (s : Search) (p : Program) : Except Fault Progress :=
  match s.nodes, s.path.top? with
  | node :: _, some g =>
    match s.budgetExhausted with
    | some reason => return .finished { s with outcome.aborted := some reason }
    | none =>
      match g.advance with
      | (none, _) => return .running (s.popGenerator g)
      | (some choice, g) => s.tryChoice p node g choice
  | _, _ => return .finished s

def run (p : Program) : Nat → Search → Except Fault (Option Progress)
  | 0, _ => return none
  | fuel + 1, s => do
    match ← s.step p with
    | .running s => run p fuel s
    | done => return some done

end Search

namespace Explorer

def start (x : Explorer) (p : Program) : Except Fault Progress := do
  let (result, kernel) ← p.init x.kernel
  match result with
  | .error e => return .failed e { x with kernel }
  | .ok _ =>
    let (reclaimed, x) ← { x with kernel }.collectGarbage
    let (initial, kernel) := x.kernel.snapshot
    let (sig, _, x) ← { x with kernel }.visitState
    let (g?, kernel, dice) ← x.scheduler.root x.kernel x.dice
    let s : Search := {
      toExplorer := { x with kernel, dice }
      initial
      outcome := { stats := { newStates := 1, reclaimed } }
    }
    match g? with
    | some g => return .running (s.pushGenerator g sig)
    | none => return .finished (s.recordTerminal sig)

/-- Explore a program. When the search ends, the kernel is back in the initial state; the result is
`none` if `fuel` steps do not suffice. -/
def explore (x : Explorer) (p : Program) (fuel : Nat) :
    Except Fault (Option (Except SearchError SearchOutcome × Explorer)) := do
  let finish (s : Search) : SearchOutcome × Explorer :=
    (s.outcome, { s.toExplorer with kernel := s.kernel.restore s.initial })
  match ← x.start p with
  | .failed e x => return some (.error e, x)
  | .finished s => return some (.ok (finish s).1, (finish s).2)
  | .running s =>
    match ← s.run p fuel with
    | some (.finished s) => return some (.ok (finish s).1, (finish s).2)
    | some (.failed e x) => return some (.error e, x)
    | some (.running _) | none => return none

end Explorer

end Interleave
