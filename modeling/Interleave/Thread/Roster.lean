import Interleave.Thread.Basic

/-!
All threads of a program state. A thread is found under its number; every access that may change a
thread counts as a change.
-/

namespace Interleave

structure Roster where
  threads : Array Thread := #[]
  epoch : Nat := 0

namespace Roster

def size (r : Roster) : Nat := r.threads.size

def isEmpty (r : Roster) : Bool := r.size == 0

def nextId (r : Roster) : ThreadId := r.size

def get? (r : Roster) (t : ThreadId) : Option Thread := r.threads[t]?

def get (r : Roster) (t : ThreadId) : Except Fault Thread :=
  match r.get? t with
  | some info => pure info
  | none => throw (.unknownThread t)

def add (r : Roster) (info : Thread) : Except Fault (ThreadId × Roster) :=
  if info.id = r.nextId then
    pure (info.id, { threads := r.threads.push info, epoch := r.epoch + 1 })
  else
    throw .threadOutOfSequence

def put (r : Roster) (t : ThreadId) (info : Thread) : Roster where
  threads := r.threads.setIfInBounds t info
  epoch := r.epoch + 1

def update (r : Roster) (t : ThreadId) (f : Thread → Thread) : Except Fault Roster := do
  return r.put t (f (← r.get t))

def toList (r : Roster) : List Thread := r.threads.toList

def runnable (r : Roster) : List ThreadId := (r.toList.filter (·.isRunnable)).map (·.id)

def runnableWithout (r : Roster) (t : ThreadId) : List ThreadId :=
  (r.toList.filter fun info => info.isRunnable && info.id != t).map (·.id)

def runnableCount (r : Roster) : Nat := r.toList.countP (·.isRunnable)

def anyAlive (r : Roster) : Bool := r.toList.any (·.isAlive)

def anyAliveNonDaemon (r : Roster) : Bool := r.toList.any fun info => info.isAlive && !info.daemon

def isDeadlocked (r : Roster) : Bool := r.runnableCount == 0 && r.anyAliveNonDaemon

def roots (r : Roster) : List (ThreadId × Ref) :=
  (r.toList.filter (!·.isTerminated)).flatMap fun info => info.references.map (info.id, ·)

def restore (r : Roster) (threads : Array Thread) : Roster where
  threads := threads
  epoch := r.epoch + 1

end Roster

end Interleave
