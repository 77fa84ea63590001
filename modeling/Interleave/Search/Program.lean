import Interleave.Schedule.Scheduler

/-!
What is explored: a program that keeps all of its state in the kernel and runs from one decision to the
next.
-/

namespace Interleave

inductive SearchError where
  | kernel (e : KernelError)
  | config (e : ConfigError)
  | program (t : ThreadId) (text : String)
  deriving DecidableEq, Repr

namespace SearchError

def message : SearchError → String
  | kernel e => e.message
  | config e => e.message
  | program t text => s!"Program failed in {t.label}: {text}"

end SearchError

inductive Transition where
  | branch (g : Generator)
  | halt
  deriving DecidableEq, Repr

def Transition.ofGenerator? : Option Generator → Transition
  | some g => branch g
  | none => halt

structure StepContext where
  scheduler : Scheduler
  path : Path
  dataChoice : Option ThreadId

structure Program where
  init : Kernel → Except Fault (Except SearchError Unit × Kernel)
  step : StepContext → ThreadId → Kernel → Dice →
    Except Fault (Except SearchError Transition × Kernel × Dice)
  -- what is wrong with a state, if anything
  check : Kernel → Option String

end Interleave
