import Interleave.Thread.Frame
import Interleave.Thread.State

/-!
A modeled thread: its state, its stack, and what it knows about monitors.
-/

namespace Interleave

structure Thread where
  id : ThreadId
  gid : GlobalId
  name : String
  state : ThreadState := .new
  priority : Int32 := 5
  daemon : Bool := false
  suspended : Bool := false
  interrupted : Bool := false
  -- left by an unpark that found the thread running, for the next park
  permit : Bool := false
  object : Ref
  -- bottom first
  frames : Array Frame := #[]
  lockObject : Option Ref := none
  lockedObjects : List Ref := []
  -- how often the thread had entered the monitor that a wait released
  waitCount : Nat := 0
  deriving DecidableEq, Repr

namespace Thread

def isRunnable (t : Thread) : Bool := !t.suspended && t.state.isRunnable

def isAlive (t : Thread) : Bool := t.state.isAlive

def isTerminated (t : Thread) : Bool := t.state == .terminated

def isBlocked (t : Thread) : Bool := t.state == .blocked

def depth (t : Thread) : Nat := t.frames.size

def topFrame? (t : Thread) : Option Frame := t.frames.back?

def pushFrame (t : Thread) (f : Frame) : Thread := { t with frames := t.frames.push f }

def popFrame (t : Thread) : Option Frame × Thread :=
  (t.frames.back?, { t with frames := t.frames.pop })

def setTopFrame (t : Thread) (f : Frame) : Thread := { t with frames := t.frames.pop.push f }

def addLocked (t : Thread) (r : Ref) : Thread :=
  if r ∈ t.lockedObjects then t else { t with lockedObjects := t.lockedObjects ++ [r] }

def removeLocked (t : Thread) (r : Ref) : Thread :=
  { t with lockedObjects := t.lockedObjects.filter (· != r) }

def references (t : Thread) : List Ref :=
  (t.object :: t.lockObject.toList ++ t.lockedObjects ++ t.frames.toList.flatMap Frame.references).filter
    (!·.isNull)

end Thread

end Interleave
