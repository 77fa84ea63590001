import Interleave.Fault
import Interleave.Layout

/-!
The slots of an object: one 32-bit word each. A mask that is fixed at creation says which of them hold
references.
-/

namespace Interleave

inductive RefMask where
  | none
  | all
  | mask (bits : Array Bool)
  deriving DecidableEq, Repr

structure Fields where
  values : Array Int32
  refs : RefMask
  deriving DecidableEq, Repr

namespace Fields

def ofMask (mask : List Bool) : Fields where
  values := (mask.map fun isRef => if isRef then Ref.null.slot else 0).toArray
  refs := .mask mask.toArray

def ofArray (elem : ValueKind) (length : Nat) : Fields :=
  if elem.isReference then
    ⟨Array.replicate length Ref.null.slot, .all⟩
  else
    ⟨Array.replicate (length * elem.width) 0, .none⟩

def size (f : Fields) : Nat := f.values.size

def isReference (f : Fields) (i : Nat) : Bool :=
  match f.refs with
  | .none => false
  | .all => i < f.size
  | .mask bits => bits.getD i false

def getInt (f : Fields) (i : Nat) : Except Fault Int32 :=
  match f.values[i]? with
  | some v => pure v
  | none => throw .slotOutOfBounds

def setInt (f : Fields) (i : Nat) (v : Int32) : Except Fault Fields :=
  if i < f.size then
    pure { f with values := f.values.setIfInBounds i v }
  else
    throw .slotOutOfBounds

def getLong (f : Fields) (i : Nat) : Except Fault Int64 := do
  -- the high word comes first
  let high ← f.getInt i
  let low ← f.getInt (i + 1)
  return Int64.ofBitVec (high.toBitVec ++ low.toBitVec)

def setLong (f : Fields) (i : Nat) (v : Int64) : Except Fault Fields := do
  let f ← f.setInt i (Int32.ofBitVec (v.toBitVec.extractLsb' 32 32))
  f.setInt (i + 1) (Int32.ofBitVec (v.toBitVec.extractLsb' 0 32))

def getRef (f : Fields) (i : Nat) : Except Fault Ref := do
  return ⟨← f.getInt i⟩

def setRef (f : Fields) (i : Nat) (r : Ref) : Except Fault Fields := f.setInt i r.slot

def referencesFrom (f : Fields) (start : Nat) : List Ref :=
  ((f.values.toList.zipIdx.drop start).filter fun (v, i) => f.isReference i && !(Ref.mk v).isNull).map
    fun (v, _) => ⟨v⟩

def references (f : Fields) : List Ref := f.referencesFrom 0

end Fields

end Interleave
