import Interleave.Fault
import Interleave.SlotSet

/-!
Stack frames: local slots with an operand stack above them, and the set of slots that hold references
at the moment.
-/

namespace Interleave

structure Frame where
  method : MethodId
  pc : Option Nat
  -- locals first, then operands
  slots : Array Int32
  refs : SlotSet
  locals : Nat
  deriving DecidableEq, Repr

namespace Frame

def fresh (method : MethodId) (locals : Nat) : Frame where
  method := method
  pc := some 0
  slots := Array.replicate locals 0
  refs := .empty
  locals := locals

def advance (f : Frame) : Frame := { f with pc := f.pc.map (· + 1) }

def setLocal (f : Frame) (i : Nat) (v : Int32) : Except Fault Frame :=
  if i < f.locals then
    pure { f with slots := f.slots.setIfInBounds i v, refs := f.refs.erase i }
  else
    throw (.localOutOfRange i f.locals)

def setLocalRef (f : Frame) (i : Nat) (r : Ref) : Except Fault Frame :=
  if i < f.locals then
    pure { f with slots := f.slots.setIfInBounds i r.slot, refs := f.refs.insert i }
  else
    throw (.localOutOfRange i f.locals)

def getSlot (f : Frame) (i : Nat) : Except Fault Int32 :=
  match f.slots[i]? with
  | some v => pure v
  | none => throw .slotOutOfBounds

def getRef (f : Frame) (i : Nat) : Except Fault Ref := do
  return ⟨← f.getSlot i⟩

def push (f : Frame) (v : Int32) : Frame := { f with slots := f.slots.push v }

def pushRef (f : Frame) (r : Ref) : Frame :=
  { f with slots := f.slots.push r.slot, refs := f.refs.insert f.slots.size }

def pop (f : Frame) : Option Int32 × Frame :=
  if f.locals < f.slots.size then
    (f.slots.back?, { f with slots := f.slots.pop, refs := f.refs.erase (f.slots.size - 1) })
  else
    (none, f)

def popRef (f : Frame) : Option Ref × Frame :=
  let (v, f) := f.pop
  (v.map Ref.mk, f)

def operandDepth (f : Frame) : Nat := f.slots.size - f.locals

def isReference (f : Frame) (i : Nat) : Bool := f.refs.contains i

def references (f : Frame) : List Ref :=
  ((f.slots.toList.zipIdx.filter fun (_, i) => f.isReference i).map fun (v, _) => Ref.mk v).filter
    (!·.isNull)

end Frame

end Interleave
