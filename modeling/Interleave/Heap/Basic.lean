import Interleave.Arena
import Interleave.Object.Element
import Interleave.Registry

/-!
The heap: an arena of elements, a flag that a limit on live objects has been exceeded, and a table of
interned strings. The table survives a restore, so an entry counts only while its slot still holds the
object that it was made for.
-/

namespace Interleave

structure Interned where
  text : String
  ref : Ref
  gid : GlobalId
  deriving DecidableEq, Repr

structure Heap where
  arena : Arena Element := {}
  outOfMemory : Bool := false
  limit : Option Nat := none
  -- newest first
  strings : List Interned := []
  flagEpoch : Nat := 0

namespace Heap

structure Image where
  arena : Arena.Image Element
  outOfMemory : Bool

def withLimit (limit : Option Nat) : Heap := { limit }

def size (h : Heap) : Nat := h.arena.live

def isEmpty (h : Heap) : Bool := h.arena.isEmpty

def epoch (h : Heap) : Nat := h.arena.epoch + h.flagEpoch

def get? (h : Heap) (r : Ref) : Option Element := r.index?.bind h.arena.get?

def contains (h : Heap) (r : Ref) : Bool := (h.get? r).isSome

def elements (h : Heap) : List Element := h.arena.elements

def deref (h : Heap) (r : Ref) : Except Fault Element :=
  match h.get? r with
  | some e => pure e
  | none => throw (.deadReference r)

def put (h : Heap) (r : Ref) (e : Element) : Heap :=
  match r.index? with
  | some i => { h with arena := h.arena.replace i e }
  | none => h

def update (h : Heap) (r : Ref) (f : Element → Except Fault Element) : Except Fault Heap := do
  let e ← h.deref r
  let e ← f e
  return h.put r e

def setOutOfMemory (h : Heap) (flag : Bool) : Heap :=
  if h.outOfMemory = flag then h else { h with outOfMemory := flag, flagEpoch := h.flagEpoch + 1 }

def overLimit (h : Heap) : Bool :=
  match h.limit with
  | some limit => limit < h.size
  | none => false

def place (h : Heap) (build : Ref → Element) : Ref × Heap :=
  let (i, arena) := h.arena.allocate fun i => build (.ofIndex i)
  let h := { h with arena }
  (.ofIndex i, if h.overLimit then h.setOutOfMemory true else h)

def allocate (h : Heap) (c : ClassDescriptor) (creator : Option ThreadId) (gid : GlobalId) :
    Ref × Heap :=
  h.place fun ref => .fresh ref gid c.id .object (.ofMask c.instances.refMask) creator

def allocateArray (h : Heap) (classId : ClassId) (elem : ValueKind) (length : Nat)
    (creator : Option ThreadId) (gid : GlobalId) : Ref × Heap :=
  h.place fun ref => .fresh ref gid classId (.array elem length) (.ofArray elem length) creator

def pin (h : Heap) (r : Ref) : Except Fault Heap := h.update r fun e => pure e.pin

def unpin (h : Heap) (r : Ref) : Except Fault (Nat × Heap) := do
  let e ← h.deref r
  return (e.unpin.pins, h.put r e.unpin)

def makeWeak (h : Heap) (r : Ref) : Except Fault Heap :=
  h.update r fun e => pure { e with weak := true }

def interned? (h : Heap) (text : String) : Option Ref := do
  let entry ← h.strings.find? (·.text == text)
  let e ← h.get? entry.ref
  if e.gid = entry.gid then some e.ref else none

def recordInterned (h : Heap) (text : String) (r : Ref) : Except Fault Heap := do
  let e ← h.deref r
  let h := h.put r { e.pin with interned := true }
  return { h with strings := ⟨text, r, e.gid⟩ :: h.strings }

def capture (h : Heap) : Image × Heap :=
  let (image, arena) := h.arena.capture
  (⟨image, h.outOfMemory⟩, { h with arena })

def restore (h : Heap) (m : Image) : Heap :=
  { h with
    arena := h.arena.restore m.arena
    outOfMemory := m.outOfMemory
    flagEpoch := h.flagEpoch + 1 }

end Heap

end Interleave
