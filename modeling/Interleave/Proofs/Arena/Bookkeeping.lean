import Interleave.Proofs.Arena
import Mathlib.Data.List.Perm.Subperm
import Mathlib.Data.Set.Card

/-!
What an arena keeps beside its cells. No slot below the hint is free, so the search for a free slot that
begins there finds the lowest one; the elements are counted right; and storage consists of whole chunks.
-/

namespace Interleave

theorem length_eq_ncard {l : List Nat} {s : Set Nat} (hl : l.Pairwise (· < ·))
    (h : ∀ i, i ∈ l ↔ i ∈ s) : l.length = s.ncard := by
  have hs : s = ↑l.toFinset := by
    ext i
    rw [Finset.mem_coe, List.mem_toFinset, h]
  rw [hs, Set.ncard_coe_finset, List.toFinset_card_of_nodup (hl.imp Nat.ne_of_lt)]

namespace Arena

variable {α : Type}

def Packed (a : Arena α) : Prop := ∀ i < a.hint, a.contains i = true

theorem Packed.contains_of_lt_nextFree {a : Arena α} (h : a.Packed) {i : Nat} (hi : i < a.nextFree) :
    a.contains i = true := by
  have hgo : ∀ j, (∀ i < j, a.contains i = true) → ∀ i < nextFree.go a j, a.contains i = true := by
    intro j hj
    fun_induction nextFree.go a j with
    | case1 j hc ih =>
      apply ih
      intro i hi
      by_cases hij : i = j
      · rw [hij, hc]
      · exact hj i (by omega)
    | case2 j _ => exact hj
  exact hgo a.hint h i hi

theorem Packed.nextFree_eq {a b : Arena α} (ha : a.Packed) (hb : b.Packed)
    (h : ∀ i, b.contains i = a.contains i) : b.nextFree = a.nextFree := by
  have hfree := a.contains_nextFree
  have hfree' := b.contains_nextFree
  rcases Nat.lt_trichotomy b.nextFree a.nextFree with hlt | heq | hlt
  · rw [h, ha.contains_of_lt_nextFree hlt] at hfree'
    cases hfree'
  · exact heq
  · rw [← h, hb.contains_of_lt_nextFree hlt] at hfree
    cases hfree

theorem Packed.seek {a : Arena α} (h : a.Packed) : a.seek.2.Packed :=
  fun _ hi => h.contains_of_lt_nextFree hi

theorem Packed.insert {a : Arena α} (h : a.Packed) (i : Nat) (x : α) : (a.insert i x).Packed := by
  intro j hj
  rw [contains_insert, h j hj, Bool.true_or]

theorem Packed.allocate {a : Arena α} (h : a.Packed) (build : Nat → α) :
    (a.allocate build).2.Packed :=
  h.seek.insert _ _

theorem hint_modify (a : Arena α) (i : Nat) (f : α → α) : (a.modify i f).hint = a.hint := by
  unfold modify
  split <;> rfl

theorem Packed.modify {a : Arena α} (h : a.Packed) (i : Nat) (f : α → α) : (a.modify i f).Packed := by
  intro j hj
  rw [hint_modify] at hj
  rw [contains_modify]
  exact h j hj

theorem Packed.replace {a : Arena α} (h : a.Packed) (i : Nat) (x : α) : (a.replace i x).Packed :=
  h.modify i _

theorem Packed.erase {a : Arena α} (h : a.Packed) (i : Nat) : (a.erase i).Packed := by
  cases hc : a.contains i with
  | false =>
    rw [erase_of_not_contains hc]
    exact h
  | true =>
    intro j hj
    have hlt : j < min a.hint i := by
      unfold Arena.erase at hj
      rw [dif_pos hc] at hj
      exact hj
    rw [contains_eq, get?_erase, if_neg (by omega), ← contains_eq]
    exact h j (by omega)

theorem Packed.foldl_erase {l : List Nat} {a : Arena α} (h : a.Packed) :
    (l.foldl Arena.erase a).Packed := by
  induction l generalizing a with
  | nil => exact h
  | cons i l ih => exact ih (h.erase i)

theorem Packed.restore (a : Arena α) (m : Image α) : (a.restore m).Packed :=
  fun _ hi => absurd hi (Nat.not_lt_zero _)

def Tallied (a : Arena α) : Prop := a.live = a.elements.length

theorem Tallied.live_eq_ncard {a : Arena α} (h : a.Tallied) :
    a.live = {i | a.contains i = true}.ncard := by
  rw [h, ← length_indices]
  exact length_eq_ncard a.pairwise_indices fun i => mem_indices

theorem tallied_empty : ({} : Arena α).Tallied := congrArg List.length elements_empty.symm

theorem Tallied.insert {a : Arena α} (h : a.Tallied) (i : Nat) (x : α) : (a.insert i x).Tallied := by
  unfold Tallied
  rw [live_insert]
  cases hc : a.contains i with
  | false =>
    rw [length_elements_insert hc, ← h]
    rfl
  | true =>
    have hcontains : ∀ j, (a.insert i x).contains j = a.contains j := by
      intro j
      rw [contains_insert]
      by_cases hij : i = j
      · rw [← hij, hc, Bool.true_or]
      · rw [decide_eq_false hij, Bool.or_false]
    rw [length_elements_congr hcontains]
    exact h

theorem Tallied.allocate {a : Arena α} (h : a.Tallied) (build : Nat → α) :
    (a.allocate build).2.Tallied := by
  have hseek : a.seek.2.Tallied := h
  exact hseek.insert _ _

theorem Tallied.modify {a : Arena α} (h : a.Tallied) (i : Nat) (f : α → α) : (a.modify i f).Tallied := by
  unfold Tallied
  rw [live_modify, length_elements_congr fun j => a.contains_modify i j f]
  exact h

theorem Tallied.replace {a : Arena α} (h : a.Tallied) (i : Nat) (x : α) : (a.replace i x).Tallied :=
  h.modify i _

theorem Tallied.erase {a : Arena α} (h : a.Tallied) (i : Nat) : (a.erase i).Tallied := by
  cases hc : a.contains i with
  | false =>
    rw [erase_of_not_contains hc]
    exact h
  | true =>
    have hlength := length_elements_erase hc
    have hlive : (a.erase i).live = a.live - 1 := by
      rw [live_erase, hc]
      rfl
    unfold Tallied at *
    omega

theorem Tallied.foldl_erase {l : List Nat} {a : Arena α} (h : a.Tallied) :
    (l.foldl Arena.erase a).Tallied := by
  induction l generalizing a with
  | nil => exact h
  | cons i l ih => exact ih (h.erase i)

theorem nextFree_le_live {a : Arena α} (hp : a.Packed) (ht : a.Tallied) : a.nextFree ≤ a.live := by
  have hsubset : List.range a.nextFree ⊆ a.indices := by
    intro i hi
    exact mem_indices.mpr (hp.contains_of_lt_nextFree (List.mem_range.mp hi))
  have hle := (List.nodup_range.subperm hsubset).length_le
  rw [List.length_range, length_indices, ← ht] at hle
  exact hle

theorem live_allocate (a : Arena α) (build : Nat → α) : (a.allocate build).2.live = a.live + 1 := by
  have hfree : { a with hint := a.nextFree }.contains a.nextFree = false := a.contains_nextFree
  unfold allocate seek
  rw [live_insert, hfree]
  rfl

def Whole (a : Arena α) : Prop := chunk ∣ a.capacity

theorem whole_empty : ({} : Arena α).Whole := Nat.dvd_zero chunk

theorem capacity_insert (a : Arena α) (i : Nat) (x : α) :
    (a.insert i x).capacity = max a.capacity ((i / chunk + 1) * chunk) := by
  have hsize : (a.insert i x).capacity = (grow a.cells i).size :=
    Array.size_set (size_grow a.cells i)
  rw [hsize]
  unfold grow capacity
  rw [Array.size_append, Array.size_replicate]
  omega

theorem Whole.insert {a : Arena α} (h : a.Whole) (i : Nat) (x : α) : (a.insert i x).Whole := by
  unfold Whole
  rw [capacity_insert]
  rcases Nat.le_total a.capacity ((i / chunk + 1) * chunk) with hle | hle
  · rw [Nat.max_eq_right hle]
    exact Nat.dvd_mul_left ..
  · rw [Nat.max_eq_left hle]
    exact h

theorem Whole.modify {a : Arena α} (h : a.Whole) (i : Nat) (f : α → α) : (a.modify i f).Whole := by
  unfold Whole Arena.modify capacity
  split
  · dsimp only
    rw [Array.size_set]
    exact h
  · exact h

theorem Whole.erase {a : Arena α} (h : a.Whole) (i : Nat) : (a.erase i).Whole := by
  unfold Whole Arena.erase capacity
  split
  · dsimp only
    rw [Array.size_set]
    exact h
  · exact h

end Arena

end Interleave
