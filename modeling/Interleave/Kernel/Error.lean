import Interleave.Object.Element
import Interleave.Thread.State

/-!
Refusals: operations that make sense but are not allowed in the current state. The program state stays
as it was, and the caller may go on.
-/

namespace Interleave

inductive KernelError where
  | trackerConflict
  | classNotLoaded (name : String)
  | unknownField (className field : String)
  | initRegression (c : ClassId) (current next : InitStatus)
  | notOwner (t : ThreadId) (o : Ref)
  | notAlive (t : ThreadId)
  | cannotStart (t : ThreadId) (state : ThreadState)
  | notInAtomic (t : ThreadId)
  deriving DecidableEq, Repr

namespace KernelError

def message : KernelError → String
  | trackerConflict => "An incremental change tracker is already registered for this kernel state"
  | classNotLoaded name => s!"Class not loaded: {name}"
  | unknownField className field => s!"Unknown field '{field}' in class {className}"
  | initRegression c current next =>
    s!"Class {c.label} cannot go from {current.label} back to {next.label}"
  | notOwner t o => s!"{t.label} does not own the monitor of {o.label}"
  | notAlive t => s!"{t.label} is not alive"
  | cannotStart t state => s!"{t.label} cannot be started from state {state.label}"
  | notInAtomic t => s!"{t.label} is not inside an atomic section"

end KernelError

end Interleave
