import Interleave.Kernel.Atomic
import Interleave.Schedule.Policy

/-!
When a decision is due, and among whom. The scheduler is asked after a thread has done something; it
answers a generator, or none if the thread simply goes on.

A thread inside an atomic section goes on as long as it can. If it cannot, there is a decision even
there, and the state records that this has happened.
-/

namespace Interleave

structure Scheduler where
  breaks : BreakConfig := {}
  breakSingleChoice : Bool := false
  policy : Policy := {}
  deriving DecidableEq, Repr

inductive Occasion where
  | syncMethodEnter (o : Ref)
  | syncMethodExit (o : Ref)
  | monitorEnter (o : Ref)
  | monitorExit (o : Ref)
  | wait (o : Ref)
  | notify (o : Ref)
  | notifyAll (o : Ref)
  | park
  | unpark (target : ThreadId)
  | sharedField (o : Ref)
  | sharedArray (access : ArrayAccess)
  | start (started : ThreadId)
  | yield
  | sleep
  | interrupt (target : ThreadId)
  | terminate
  | suspend
  | resume
  | stop
  | beginAtomic
  | endAtomic
  deriving DecidableEq, Repr

/-- Whether the newest generators, all of them for accesses of `t` to the same array, include one of
the same direction. -/
def coversAccess (t : ThreadId) (access : ArrayAccess) : List Generator → Bool
  | [] => false
  | g :: rest =>
    match g.access with
    | none => false
    | some earlier =>
      if g.creator = some t ∧ earlier.array = access.array then
        earlier.isRead == access.isRead || coversAccess t access rest
      else
        false

namespace Scheduler

def ofConfig (c : Config) : Except ConfigError Scheduler := do
  return {
    breaks := c.threads
    breakSingleChoice := c.breakSingleChoice
    policy := ← Policy.ofConfig c.scheduler
  }

def candidates (s : Scheduler) (k : Kernel) (d : Dice) (current : Option ThreadId) :
    Except Fault (List ThreadId × Dice) :=
  s.policy.filter k d current k.threads.runnable

def worthDeciding (s : Scheduler) (runnable : Nat) : Bool :=
  1 < runnable || (runnable == 1 && s.breakSingleChoice)

def announce (k : Kernel) (d : Dice) (g : Generator) : Option Generator × Kernel × Dice :=
  if g.choices.isEmpty then (none, k, d) else (some g, k.tell (.registered g), d)

def optional (s : Scheduler) (k : Kernel) (d : Dice) (kind : ChoiceKind) (t : ThreadId)
    (access : Option ArrayAccess) : Except Fault (Option Generator × Kernel × Dice) := do
  if s.worthDeciding k.threads.runnableCount then
    let (choices, d) ← s.candidates k d (some t)
    return announce k d { kind, choices, creator := some t, access }
  else
    return (none, k, d)

def forced (s : Scheduler) (k : Kernel) (d : Dice) (kind : ChoiceKind) (t : ThreadId) :
    Except Fault (Option Generator × Kernel × Dice) := do
  let k := if k.isAtomicFor t then k.setBlockedInAtomic else k
  let (choices, d) ← s.candidates k d (some t)
  return announce k d { kind, choices, creator := some t }

def unlessAtomic (s : Scheduler) (k : Kernel) (d : Dice) (kind : ChoiceKind) (t : ThreadId)
    (access : Option ArrayAccess) : Except Fault (Option Generator × Kernel × Dice) :=
  if k.isAtomicFor t then return (none, k, d) else s.optional k d kind t access

def afterEnter (s : Scheduler) (k : Kernel) (d : Dice) (kind : ChoiceKind) (t : ThreadId) :
    Except Fault (Option Generator × Kernel × Dice) := do
  if (← k.threads.get t).isBlocked then s.forced k d kind t else s.unlessAtomic k d kind t none

def amongWaiters (k : Kernel) (d : Dice) (t : ThreadId) (o : Ref) :
    Except Fault (Option Generator × Kernel × Dice) :=
  if k.isAtomicFor t then
    return (none, k, d)
  else do
    match (← k.heap.deref o).monitor.waiters with
    | [] | [_] => return (none, k, d)
    | waiters =>
      -- whoever is notified, the creator goes on
      return announce k d { kind := .notify, choices := waiters, creator := some t, schedules := false }

def afterEnd (s : Scheduler) (k : Kernel) (d : Dice) (t : ThreadId) :
    Except Fault (Option Generator × Kernel × Dice) := do
  if k.threads.anyAlive then
    let (choices, d) ← s.policy.filter k d (some t) (k.threads.runnableWithout t)
    return announce k d { kind := .terminate, choices, creator := some t }
  else
    return (none, k, d)

def root (s : Scheduler) (k : Kernel) (d : Dice) : Except Fault (Option Generator × Kernel × Dice) := do
  let (choices, d) ← s.candidates k d none
  return announce k d (.root choices)

/-- The decision that is due after thread `t` has done something. -/
def decide (s : Scheduler) (k : Kernel) (d : Dice) (path : Path) (t : ThreadId) :
    Occasion → Except Fault (Option Generator × Kernel × Dice)
  | .syncMethodEnter _ => s.afterEnter k d .syncMethodEnter t
  | .monitorEnter _ => s.afterEnter k d .monitorEnter t
  | .wait _ => s.forced k d .wait t
  | .notify o => amongWaiters k d t o
  | .park => s.forced k d .park t
  | .unpark _ => s.unlessAtomic k d .unpark t none
  | .sharedField _ => s.unlessAtomic k d .sharedField t none
  | .sharedArray access =>
    if s.breaks.arrayAccess && !coversAccess t access path.newestFirst then
      s.unlessAtomic k d .sharedArray t (some access)
    else
      return (none, k, d)
  | .start _ => if s.breaks.start then s.unlessAtomic k d .start t none else return (none, k, d)
  | .yield => if s.breaks.yield then s.unlessAtomic k d .yield t none else return (none, k, d)
  | .sleep => if s.breaks.sleep then s.unlessAtomic k d .sleep t none else return (none, k, d)
  | .interrupt _ => s.unlessAtomic k d .interrupt t none
  | .terminate => s.afterEnd k d t
  | .suspend => s.optional k d .suspend t none
  | .resume => s.optional k d .resume t none
  | .endAtomic => s.optional k d .endAtomic t none
  | .syncMethodExit _ | .monitorExit _ | .notifyAll _ | .stop | .beginAtomic => return (none, k, d)

end Scheduler

end Interleave
