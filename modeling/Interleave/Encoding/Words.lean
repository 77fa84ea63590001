import Interleave.Encoding.Order
import Interleave.Kernel.Basic

/-!
The canonical encoding of a program state as a list of words.

It holds the stacks of the threads, the static slots, the objects that those reach, the states of the
threads and the global flags, in this order. A reference is written as the name of the object that it
denotes. Slot numbers do not occur, so states that differ only in the layout of the heap have the same
encoding.
-/

namespace Interleave

namespace Heap

/-- The name of the object that `r` denotes; null and dangling references are -1. -/
def refWord (h : Heap) (r : Ref) : Int32 :=
  match h.get? r with
  | some e => wordOf e.gid
  | none => -1

def fieldWords (h : Heap) (f : Fields) : List Int32 :=
  f.values.toList.zipIdx.map fun (v, i) => if f.isReference i then h.refWord ⟨v⟩ else v

def frameWords (h : Heap) (f : Frame) : List Int32 :=
  wordOf f.method :: f.pc.elim (-1) wordOf :: wordOf f.slots.size ::
    f.slots.toList.zipIdx.map fun (v, i) => if f.isReference i then h.refWord ⟨v⟩ else v

def stackWords (h : Heap) (t : Thread) : List Int32 :=
  h.refWord t.object :: wordOf t.depth :: t.frames.toList.flatMap h.frameWords

def staticWords (h : Heap) (e : Element) : List Int32 :=
  let status :=
    match e.kind with
    | .static status classObject => [status.code, h.refWord classObject]
    | _ => []
  wordOf e.classId :: status ++ h.fieldWords e.fields

def objectWords (h : Heap) (e : Element) : List Int32 :=
  wordOf e.classId :: (e.length?.map wordOf).toList ++ h.fieldWords e.fields

def wordsAt (h : Heap) (i : Nat) : List Int32 :=
  match h.arena.get? i with
  | some e => h.objectWords e
  | none => []

def heldWords (h : Heap) (t : Thread) : List Int32 :=
  -- in which order they were entered is not part of the state
  (t.lockedObjects.map h.refWord).mergeSort

def threadWords (h : Heap) (t : Thread) : List Int32 :=
  let flags : Int32 :=
    (if t.interrupted then 1 else 0) + (if t.suspended then 2 else 0) + (if t.permit then 4 else 0)
  [wordOf t.gid, t.state.ordinal, flags, wordOf t.depth, t.lockObject.elim (-1) h.refWord,
    wordOf t.lockedObjects.length] ++ h.heldWords t

end Heap

namespace Kernel

def encodingRoots (k : Kernel) : List Ref :=
  let held := k.threads.toList.flatMap fun t => t.object :: t.frames.toList.flatMap Frame.references
  let statics := k.statics.elements.flatMap fun e => e.classObject?.toList ++ e.fields.references
  held ++ statics

def atomicOwnerWord (k : Kernel) : Except Fault Int32 :=
  match k.atomic.owner with
  | none => return -1
  | some t => return wordOf (← k.threads.get t).gid

def encode (k : Kernel) : Except Fault (List Int32) := do
  let threads := k.threads.toList
  let calls := threads.flatMap k.heap.stackWords
  let statics := wordOf k.statics.size :: k.statics.elements.flatMap k.heap.staticWords
  let objects := (k.heap.visitOrder k.encodingRoots).flatMap k.heap.wordsAt
  let states := threads.flatMap k.heap.threadWords
  let flags := [if k.heap.outOfMemory then 1 else 0, ← k.atomicOwnerWord]
  return calls ++ statics ++ objects ++ states ++ flags

end Kernel

end Interleave
