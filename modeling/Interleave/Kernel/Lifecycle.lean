import Interleave.Kernel.Memory
import Interleave.Kernel.Sync

/-!
The life of threads: creation, start, calls and returns, sleep, suspension, end.
-/

namespace Interleave.Kernel

def createThread (k : Kernel) (name : String) (creator : Option ThreadId) (site : Option Site) :
    Except Fault (ThreadId × Kernel) := do
  let (gid, k) ← k.newGlobalId creator site
  let (threadClass, k) := k.register .threadClass
  let desc ← k.classes.get threadClass
  let (object, k) := k.allocate desc creator gid
  let info : Thread := { id := k.threads.nextId, gid, name, object }
  let info ← match creator with
    | none => pure info
    | some parent => do
      let parent ← k.threads.get parent
      pure { info with priority := parent.priority, daemon := parent.daemon }
  let k ← match desc.instances.lookup? "priority" with
    | none => pure k
    | some (slot, _) => k.updateElement object (·.updateFields (·.setInt slot info.priority))
  let (id, threads) ← k.threads.add info
  return (id, { k with threads })

def startThread (k : Kernel) (t : ThreadId) (frame : Frame) : Except Fault (Attempt Unit) := do
  let state := (← k.threads.get t).state
  if state = .new then
    let k ← k.updateThread t fun info => { info.pushFrame frame with state := .running }
    return (.ok (), (k.tell (.started t)).tell (.entered t frame.method))
  else
    return (.error (.cannotStart t state), k)

def enterMethod (k : Kernel) (t : ThreadId) (frame : Frame) : Except Fault (Attempt Unit) := do
  if (← k.threads.get t).isAlive then
    let k ← k.updateThread t (·.pushFrame frame)
    return (.ok (), k.tell (.entered t frame.method))
  else
    return (.error (.notAlive t), ← k.updateThread t id)

def exitMethod (k : Kernel) (t : ThreadId) : Except Fault (Option Frame × Kernel) := do
  let top := (← k.threads.get t).topFrame?
  let k ← k.updateThread t (·.popFrame.2)
  match top with
  | none => return (none, k)
  | some frame => return (some frame, k.tell (.exited t frame.method))

def instructionExecuted (k : Kernel) (t : ThreadId) : Except Fault Kernel := do
  match (← k.threads.get t).topFrame? with
  | none => return k
  | some frame => return k.tell (.executed t frame.method (frame.pc.getD 0))

def releaseHeld (t : ThreadId) (k : Kernel) (o : Ref) : Except Fault Kernel := do
  let k ← k.updateMonitor o (·.release)
  let k ← k.wakeRequesters o
  return k.tell (.unlocked t o)

def wakeJoiner (o : Ref) (k : Kernel) (joiner : ThreadId) : Except Fault Kernel := do
  let k ← k.updateMonitor o (·.removeWaiter joiner)
  let k ← k.updateMonitor o (·.addRequest joiner)
  let k ← k.setState joiner .unblocked
  return k.tell (.notified joiner)

/-- End a thread. Its monitors become free, and whoever waits on its thread object is woken. -/
def terminateThread (k : Kernel) (t : ThreadId) : Except Fault (Attempt Unit) := do
  let info ← k.threads.get t
  if !info.isAlive then
    return (.error (.notAlive t), k)
  let k ← info.lockedObjects.foldlM (releaseHeld t) k
  let k ← k.updateThread t ({ · with
    frames := #[], lockObject := none, waitCount := 0, state := .terminated, lockedObjects := [] })
  let joiners := (← k.heap.deref info.object).monitor.waiters
  let k ← joiners.foldlM (wakeJoiner info.object) k
  let k :=
    if k.atomic.owner = some t then { k with atomic := {}, atomicEpoch := k.atomicEpoch + 1 } else k
  return (.ok (), k.tell (.terminated t))

def sleep (k : Kernel) (t : ThreadId) : Except Fault Kernel := k.setState t .sleeping

def endSleep (k : Kernel) (t : ThreadId) : Except Fault Kernel :=
  k.updateThread t fun info =>
    if info.state = .sleeping then { info with state := .running } else info

def suspend (k : Kernel) (t : ThreadId) : Except Fault Kernel :=
  k.updateThread t ({ · with suspended := true })

def resume (k : Kernel) (t : ThreadId) : Except Fault Kernel :=
  k.updateThread t ({ · with suspended := false })

end Interleave.Kernel
