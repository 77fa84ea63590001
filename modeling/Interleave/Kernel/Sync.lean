import Interleave.Kernel.Basic

/-!
Monitors, waiting, parking and interrupting.

A thread that cannot enter a monitor is blocked until the monitor is free, and then has to try again.
A thread that waits gives the monitor up completely; when it gets the monitor back, it has entered as
often as before.
-/

namespace Interleave

inductive LockOutcome where
  | acquired
  | blocked
  deriving DecidableEq, Repr

namespace Kernel

def isOwner (k : Kernel) (t : ThreadId) (o : Ref) : Except Fault Bool := do
  return (← k.heap.deref o).monitor.owner == some t

def wake (k : Kernel) (t : ThreadId) : Except Fault Kernel :=
  k.updateThread t fun info =>
    match info.state with
    | .blocked | .notified | .interrupted => { info with state := .unblocked }
    | _ => info

def wakeRequesters (k : Kernel) (o : Ref) : Except Fault Kernel := do
  (← k.heap.deref o).monitor.requests.foldlM wake k

def lock (k : Kernel) (t : ThreadId) (o : Ref) : Except Fault (LockOutcome × Kernel) := do
  if (← k.heap.deref o).monitor.canEnter t then
    let count := max 1 (← k.threads.get t).waitCount
    let k ← k.updateThread t fun info =>
      { info.addLocked o with
        waitCount := 0
        lockObject := none
        state := if info.state = .sleeping then .sleeping else .running }
    let k ← k.updateMonitor o (·.enter t count)
    return (.acquired, k.tell (.locked t o))
  else
    let k ← k.updateMonitor o (·.addRequest t)
    let k ← k.updateThread t ({ · with lockObject := some o, state := .blocked })
    return (.blocked, k.tell (.blocked t o))

def unlock (k : Kernel) (t : ThreadId) (o : Ref) : Except Fault (Attempt Bool) := do
  if !(← k.isOwner t o) then
    return (.error (.notOwner t o), k)
  let freed := (← k.heap.deref o).monitor.exit.1
  let k ← k.updateMonitor o (·.exit.2)
  let k ← if freed then do
      let k ← k.updateThread t (·.removeLocked o)
      k.wakeRequesters o
    else
      pure k
  return (.ok freed, k.tell (.unlocked t o))

def enterWait (k : Kernel) (t : ThreadId) (o : Ref) (state : ThreadState) :
    Except Fault (Attempt Unit) := do
  if !(← k.isOwner t o) then
    return (.error (.notOwner t o), k)
  let count := (← k.heap.deref o).monitor.count
  let k ← k.updateMonitor o (·.release.addWaiter t)
  let k ← k.updateThread t fun info =>
    { info.removeLocked o with waitCount := count, lockObject := some o, state }
  let k ← k.wakeRequesters o
  return (.ok (), (k.tell (.unlocked t o)).tell (.waiting t o))

def wait (k : Kernel) (t : ThreadId) (o : Ref) : Except Fault (Attempt Unit) :=
  k.enterWait t o .waiting

def timedWait (k : Kernel) (t : ThreadId) (o : Ref) : Except Fault (Attempt Unit) :=
  k.enterWait t o .timedWaiting

def stopWaiting (k : Kernel) (t : ThreadId) (o : Ref) : Except Fault Kernel :=
  k.updateMonitor o fun m => (m.removeWaiter t).addRequest t

def timeOut (k : Kernel) (t : ThreadId) : Except Fault (Bool × Kernel) := do
  let info ← k.threads.get t
  match info.lockObject with
  | none => return (false, k)
  | some o =>
    if info.state = .timedWaiting then
      let k ← k.stopWaiting t o
      return (true, ← k.setState t .timedOut)
    else
      return (false, k)

def notifyThread (k : Kernel) (t : ThreadId) (o : Ref) (waiter : ThreadId) :
    Except Fault (Attempt Bool) := do
  if !(← k.isOwner t o) then
    return (.error (.notOwner t o), k)
  if (← k.heap.deref o).monitor.waiters.contains waiter then
    let k ← k.stopWaiting waiter o
    let k ← k.setState waiter .notified
    return (.ok true, k.tell (.notified waiter))
  else
    return (.ok false, ← k.updateMonitor o id)

def notify (k : Kernel) (t : ThreadId) (o : Ref) : Except Fault (Attempt (Option ThreadId)) := do
  if !(← k.isOwner t o) then
    return (.error (.notOwner t o), k)
  match (← k.heap.deref o).monitor.waiters with
  | [] => return (.ok none, k)
  | waiter :: _ =>
    match ← k.notifyThread t o waiter with
    | (.error e, k) => return (.error e, k)
    | (.ok _, k) => return (.ok (some waiter), k)

def notifyEach (k : Kernel) (t : ThreadId) (o : Ref) : List ThreadId → Except Fault (Attempt Unit)
  | [] => return (.ok (), k)
  | waiter :: rest => do
    match ← k.notifyThread t o waiter with
    | (.error e, k) => return (.error e, k)
    | (.ok _, k) => notifyEach k t o rest

def notifyAll (k : Kernel) (t : ThreadId) (o : Ref) : Except Fault (Attempt Nat) := do
  if !(← k.isOwner t o) then
    return (.error (.notOwner t o), k)
  let waiters := (← k.heap.deref o).monitor.waiters
  match ← k.notifyEach t o waiters with
  | (.error e, k) => return (.error e, k)
  | (.ok _, k) => return (.ok waiters.length, k)

def park (k : Kernel) (t : ThreadId) : Except Fault Kernel :=
  k.updateThread t fun info =>
    if info.permit then
      { info with permit := false }
    else if info.interrupted then
      info
    else
      { info with state := .parked }

def unpark (k : Kernel) (t : ThreadId) : Except Fault (Bool × Kernel) := do
  let parked := (← k.threads.get t).state == .parked
  let k ← k.updateThread t fun info =>
    if info.state = .parked then
      { info with state := .running }
    else if info.isAlive then
      { info with permit := true }
    else
      info
  return (parked, k)

/-- Interrupt a thread. One that waits has to get its monitor back, one that is parked or asleep goes
on at once. -/
def interrupt (k : Kernel) (t : ThreadId) : Except Fault Kernel := do
  let info ← k.threads.get t
  match info.state with
  | .waiting | .timedWaiting =>
    let k ← k.updateThread t ({ · with interrupted := true })
    match info.lockObject with
    | none => return k
    | some o =>
      let k ← k.stopWaiting t o
      let free := (← k.heap.deref o).monitor.owner.isNone
      k.setState t (if free then .unblocked else .interrupted)
  | .parked | .sleeping => k.updateThread t ({ · with interrupted := true, state := .running })
  | _ => k.updateThread t ({ · with interrupted := true })

end Kernel

end Interleave
