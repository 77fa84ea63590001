import Interleave.Ident

/-!
Object references as they stand in slots: a slot number, where every negative number is null.
-/

namespace Interleave

structure Ref where
  slot : Int32
  deriving DecidableEq, Repr

namespace Ref

/-- The null that the system itself writes. Other negative slots are null as well, but differ
from this one. -/
def null : Ref := ⟨-1⟩

def ofIndex (i : Nat) : Ref := ⟨wordOf i⟩

def isNull (r : Ref) : Bool := r.slot < 0

def index? (r : Ref) : Option Nat :=
  if r.isNull then none else some r.slot.toNatClampNeg

def label (r : Ref) : String :=
  match r.index? with
  | none => "null"
  | some i => s!"@{i}"

@[simp]
theorem index?_null : null.index? = none := by decide

theorem index?_eq_none_iff (r : Ref) : r.index? = none ↔ r.isNull = true := by
  unfold index?
  split <;> simp_all

theorem lt_of_index?_eq_some {r : Ref} {i : Nat} (h : r.index? = some i) : i < 0x80000000 := by
  unfold index? at h
  split at h
  · simp at h
  · cases h
    exact Int32.toNatClampNeg_lt _

theorem index?_ofIndex {i : Nat} (h : i < 0x80000000) : (ofIndex i).index? = some i := by
  have hnonneg : ¬ Int32.ofNat i < 0 := by
    rw [Int32.lt_iff_toInt_lt, Int32.toInt_ofNat_of_lt h]
    simp
  simp [index?, isNull, ofIndex, wordOf, hnonneg, Int32.toNatClampNeg_ofNat_of_lt h]

end Ref

end Interleave
