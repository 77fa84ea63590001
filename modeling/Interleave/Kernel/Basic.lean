import Interleave.Event
import Interleave.Heap.Basic
import Interleave.Identity
import Interleave.Kernel.Error
import Interleave.Statics
import Interleave.Thread.Roster

/-!
The complete state of one program state, and the accessors on which its operations are built.

The registry and the id pool are shared by all paths and are never rewound; the observers and the
interned strings are not rewound either. All the rest is captured by a snapshot.
-/

namespace Interleave

/-- While a thread is inside an atomic section, it is not interrupted by scheduling decisions. -/
structure AtomicSection where
  owner : Option ThreadId := none
  depth : Nat := 0
  blocked : Bool := false
  deriving DecidableEq, Repr

structure Kernel where
  classes : Registry := .core
  pool : IdPool := {}
  heap : Heap := {}
  statics : Statics := {}
  threads : Roster := {}
  tally : Tally := {}
  atomic : AtomicSection := {}
  atomicEpoch : Nat := 0
  tracked : Bool := false
  observers : Observers := {}

/-- The outcome of an operation that may be refused. -/
abbrev Attempt (α : Type) := Except KernelError α × Kernel

namespace Kernel

def withLimit (limit : Option Nat) : Kernel := { heap := .withLimit limit }

def adopt (k other : Kernel) : Kernel := { k with classes := other.classes, pool := other.pool }

def tell (k : Kernel) (e : Event) : Kernel := { k with observers := k.observers.tell e }

def tellAll (k : Kernel) (es : List Event) : Kernel :=
  { k with observers := k.observers.tellAll es }

def updateElement (k : Kernel) (o : Ref) (f : Element → Except Fault Element) :
    Except Fault Kernel := do
  return { k with heap := ← k.heap.update o f }

def updateMonitor (k : Kernel) (o : Ref) (f : Monitor → Monitor) : Except Fault Kernel :=
  k.updateElement o fun e => pure { e with monitor := f e.monitor }

def updateThread (k : Kernel) (t : ThreadId) (f : Thread → Thread) : Except Fault Kernel := do
  return { k with threads := ← k.threads.update t f }

def setState (k : Kernel) (t : ThreadId) (state : ThreadState) : Except Fault Kernel :=
  k.updateThread t ({ · with state })

def register (k : Kernel) (c : ClassDescriptor) : ClassId × Kernel :=
  let (id, classes) := k.classes.register c
  (id, { k with classes })

def isDeadlocked (k : Kernel) : Bool := k.threads.isDeadlocked

def isTerminated (k : Kernel) : Bool := !k.threads.anyAliveNonDaemon

end Kernel

end Interleave
