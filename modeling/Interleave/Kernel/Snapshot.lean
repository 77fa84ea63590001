import Interleave.Kernel.Basic

/-!
Snapshots of program states, and the question whether a state has changed since it was last looked at.
-/

namespace Interleave

structure Snapshot where
  threads : Array Thread
  statics : Arena.Image Element
  heap : Heap.Image
  counts : List (Origin × Nat)
  atomic : AtomicSection

structure Epochs where
  heap : Nat
  statics : Nat
  threads : Nat
  ids : Nat
  atomic : Nat
  deriving DecidableEq, Repr

structure Changes where
  heap : Bool
  statics : Bool
  threads : Bool
  ids : Bool
  atomic : Bool
  deriving DecidableEq, Repr

namespace Changes

def all : Changes := ⟨true, true, true, true, true⟩

def any (c : Changes) : Bool := c.heap || c.statics || c.threads || c.ids || c.atomic

end Changes

def Epochs.changesSince (now earlier : Epochs) : Changes where
  heap := now.heap != earlier.heap
  statics := now.statics != earlier.statics
  threads := now.threads != earlier.threads
  ids := now.ids != earlier.ids
  atomic := now.atomic != earlier.atomic

namespace Kernel

def snapshot (k : Kernel) : Snapshot × Kernel :=
  let (statics, s) := k.statics.capture
  let (heap, h) := k.heap.capture
  let image := {
    threads := k.threads.threads
    statics
    heap
    counts := k.tally.counts
    atomic := k.atomic
  }
  (image, { k with statics := s, heap := h })

def restore (k : Kernel) (m : Snapshot) : Kernel :=
  { k with
    threads := k.threads.restore m.threads
    statics := k.statics.restore m.statics
    heap := k.heap.restore m.heap
    tally := k.tally.restore m.counts
    atomic := m.atomic
    atomicEpoch := k.atomicEpoch + 1 }

def epochs (k : Kernel) : Epochs where
  heap := k.heap.epoch
  statics := k.statics.epoch
  threads := k.threads.epoch
  ids := k.tally.epoch
  atomic := k.atomicEpoch

def acquireTracker (k : Kernel) : Attempt Unit :=
  if k.tracked then (.error .trackerConflict, k) else (.ok (), { k with tracked := true })

def releaseTracker (k : Kernel) : Kernel := { k with tracked := false }

end Kernel

structure Cursor where
  seen : Option Epochs := none

namespace Cursor

def poll (c : Cursor) (k : Kernel) : Changes × Cursor :=
  let changes :=
    match c.seen with
    | some seen => k.epochs.changesSince seen
    | none => .all
  (changes, ⟨some k.epochs⟩)

def sync (_ : Cursor) (k : Kernel) : Cursor := ⟨some k.epochs⟩

end Cursor

end Interleave
