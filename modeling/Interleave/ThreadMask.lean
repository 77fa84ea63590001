import Interleave.Hex
import Interleave.Ident

/-!
Who reaches an object, in one word: a bit per thread, one for pins and one for static slots.
Threads whose number is too large for a bit of their own count as static.
-/

namespace Interleave

structure ThreadMask where
  bits : UInt64
  deriving DecidableEq, Repr

namespace ThreadMask

def threadBits : Nat := 62

def empty : ThreadMask := ⟨0⟩

def pinned : ThreadMask := ⟨0x4000000000000000⟩

def static : ThreadMask := ⟨0x8000000000000000⟩

def thread (t : ThreadId) : ThreadMask :=
  if t < threadBits then ⟨1 <<< t.toUInt64⟩ else static

def union (a b : ThreadMask) : ThreadMask := ⟨a.bits ||| b.bits⟩

def isEmpty (m : ThreadMask) : Bool := m.bits == 0

def hasStatic (m : ThreadMask) : Bool := m.bits &&& static.bits != 0

def containsThread (m : ThreadMask) (t : ThreadId) : Bool :=
  t < threadBits && m.bits.toNat.testBit t

def threads (m : ThreadMask) : List ThreadId :=
  (List.range threadBits).filter m.containsThread

def threadCount (m : ThreadMask) : Nat := m.threads.length

def singleThread? (m : ThreadMask) : Option ThreadId :=
  match m.hasStatic, m.threads with
  | false, [t] => some t
  | _, _ => none

def label (m : ThreadMask) : String := s!"ThreadMask(0x{hex64 m.bits})"

theorem toNat_le_toNat_union (a b : ThreadMask) : a.bits.toNat ≤ (a.union b).bits.toNat := by
  simp only [union, UInt64.toNat_or]
  exact Nat.left_le_or

theorem toNat_lt_toNat_union {a b : ThreadMask} (h : a.union b ≠ a) :
    a.bits.toNat < (a.union b).bits.toNat := by
  refine Nat.lt_of_le_of_ne (toNat_le_toNat_union a b) ?_
  intro heq
  apply h
  cases a
  simp only [union] at *
  congr
  exact (UInt64.toNat_inj.mp heq).symm

end ThreadMask

end Interleave
