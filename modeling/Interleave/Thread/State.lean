/-!
The life of a thread.
-/

namespace Interleave

inductive ThreadState where
  | new
  | running
  | blocked
  | unblocked
  | waiting
  | timedWaiting
  | notified
  | interrupted
  | timedOut
  | parked
  -- time is not modeled, so it may wake up at any moment
  | sleeping
  | terminated
  deriving DecidableEq, Repr

namespace ThreadState

def ordinal : ThreadState → Int32
  | new => 0
  | running => 1
  | blocked => 2
  | unblocked => 3
  | waiting => 4
  | timedWaiting => 5
  | notified => 6
  | interrupted => 7
  | timedOut => 8
  | parked => 9
  | sleeping => 10
  | terminated => 11

def isRunnable : ThreadState → Bool
  | running | unblocked | sleeping | timedOut => true
  | _ => false

def isAlive : ThreadState → Bool
  | new | terminated => false
  | _ => true

def label : ThreadState → String
  | new => "NEW"
  | running => "RUNNING"
  | blocked => "BLOCKED"
  | unblocked => "UNBLOCKED"
  | waiting => "WAITING"
  | timedWaiting => "TIMEOUT_WAITING"
  | notified => "NOTIFIED"
  | interrupted => "INTERRUPTED"
  | timedOut => "TIMEDOUT"
  | parked => "PARKED"
  | sleeping => "SLEEPING"
  | terminated => "TERMINATED"

def all : List ThreadState :=
  [new, running, blocked, unblocked, waiting, timedWaiting, notified, interrupted, timedOut, parked,
    sleeping, terminated]

def ofLabel? (s : String) : Option ThreadState := all.find? (·.label == s)

end ThreadState

end Interleave
