/-!
Finite sets of slot numbers, kept as the bits of one number, so that equal sets are equal values.
-/

namespace Interleave

structure SlotSet where
  bits : Nat
  deriving DecidableEq, Repr

namespace SlotSet

def empty : SlotSet := ⟨0⟩

def contains (s : SlotSet) (i : Nat) : Bool := s.bits.testBit i

def insert (s : SlotSet) (i : Nat) : SlotSet := ⟨s.bits ||| 1 <<< i⟩

def erase (s : SlotSet) (i : Nat) : SlotSet :=
  if s.contains i then ⟨s.bits ^^^ 1 <<< i⟩ else s

def ofList (l : List Nat) : SlotSet := l.foldr (fun i s => s.insert i) .empty

def toList (s : SlotSet) : List Nat :=
  (List.range (s.bits.log2 + 1)).filter s.contains

instance : Membership Nat SlotSet where
  mem s i := s.contains i = true

instance (i : Nat) (s : SlotSet) : Decidable (i ∈ s) :=
  inferInstanceAs (Decidable (s.contains i = true))

theorem mem_iff (s : SlotSet) (i : Nat) : i ∈ s ↔ s.contains i = true := Iff.rfl

@[ext]
theorem ext {s t : SlotSet} (h : ∀ i, s.contains i = t.contains i) : s = t := by
  cases s
  cases t
  congr
  exact Nat.eq_of_testBit_eq h

@[simp]
theorem contains_empty (i : Nat) : empty.contains i = false := by
  simp [empty, contains]

@[simp]
theorem contains_insert (s : SlotSet) (i j : Nat) :
    (s.insert i).contains j = (s.contains j || decide (i = j)) := by
  simp [insert, contains, Nat.testBit_or, Nat.one_shiftLeft, Nat.testBit_two_pow]

@[simp]
theorem contains_erase (s : SlotSet) (i j : Nat) :
    (s.erase i).contains j = (s.contains j && decide (i ≠ j)) := by
  unfold erase
  split
  · next h =>
    by_cases hij : i = j
    · subst hij
      simp_all [contains, Nat.testBit_xor, Nat.one_shiftLeft]
    · simp [contains, Nat.testBit_xor, Nat.one_shiftLeft, hij]
  · next h =>
    by_cases hij : i = j
    · subst hij
      simp_all
    · simp [hij]

theorem contains_ofList (l : List Nat) (i : Nat) : (ofList l).contains i = decide (i ∈ l) := by
  induction l with
  | nil => exact contains_empty i
  | cons j l ih =>
    rw [ofList, List.foldr_cons, contains_insert, ← ofList, ih]
    by_cases hij : j = i
    · simp [hij]
    · simp [hij, Ne.symm hij]

theorem lt_of_contains {s : SlotSet} {i : Nat} (h : s.contains i = true) : i < s.bits.log2 + 1 := by
  have hle : 2 ^ i ≤ s.bits := Nat.ge_two_pow_of_testBit h
  have hpos : 0 < 2 ^ i := Nat.two_pow_pos i
  rw [Nat.lt_succ_iff, Nat.le_log2 (by omega)]
  exact hle

@[simp]
theorem mem_toList {s : SlotSet} {i : Nat} : i ∈ s.toList ↔ s.contains i = true := by
  unfold toList
  rw [List.mem_filter, List.mem_range]
  exact ⟨And.right, fun h => ⟨lt_of_contains h, h⟩⟩

theorem pairwise_toList (s : SlotSet) : s.toList.Pairwise (· < ·) :=
  List.pairwise_lt_range.filter _

theorem toList_eq_filter_range {s : SlotSet} {n : Nat} (h : ∀ i, s.contains i = true → i < n) :
    s.toList = (List.range n).filter s.contains := by
  have key : ∀ m k, (∀ i, s.contains i = true → i < m) →
      (List.range (m + k)).filter s.contains = (List.range m).filter s.contains := by
    intro m k hm
    rw [List.range_add, List.filter_append, List.append_right_eq_self, List.filter_eq_nil_iff]
    intro i hi hs
    obtain ⟨j, -, rfl⟩ := List.mem_map.mp hi
    exact Nat.not_lt_of_le (Nat.le_add_right m j) (hm _ hs)
  have hlog := key (s.bits.log2 + 1) n fun _ => lt_of_contains
  rw [Nat.add_comm, key n (s.bits.log2 + 1) h] at hlog
  exact hlog.symm

end SlotSet

end Interleave
