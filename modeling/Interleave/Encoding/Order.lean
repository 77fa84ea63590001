import Interleave.Heap.Basic

/-!
The order in which an encoding lists the objects of the heap: breadth first, from references that are
given in a fixed order. It follows references only, so it does not depend on slot numbers.
-/

namespace Interleave

namespace Heap

def slot? (h : Heap) (r : Ref) : Option Nat := r.index?.filter h.arena.contains

def unseen (h : Heap) (seen : SlotSet) : Nat :=
  (List.range h.arena.capacity).countP (!seen.contains ·)

def enroll (h : Heap) : List Ref → SlotSet → List Nat × SlotSet
  | [], seen => ([], seen)
  | r :: rs, seen =>
    match h.slot? r with
    | none => h.enroll rs seen
    | some i =>
      if seen.contains i then
        h.enroll rs seen
      else
        let (fresh, seen) := h.enroll rs (seen.insert i)
        (i :: fresh, seen)

def referencesAt (h : Heap) (i : Nat) : List Ref :=
  match h.arena.get? i with
  | some e => e.fields.references
  | none => []

theorem lt_capacity_of_slot? {h : Heap} {r : Ref} {i : Nat} (hr : h.slot? r = some i) :
    i < h.arena.capacity := by
  simp only [slot?, Option.filter_eq_some_iff] at hr
  exact Arena.lt_capacity_of_contains hr.2

theorem unseen_insert_lt {h : Heap} {seen : SlotSet} {i : Nat} (hi : i < h.arena.capacity)
    (hs : seen.contains i = false) : h.unseen (seen.insert i) < h.unseen seen := by
  have key : ∀ l : List Nat, i ∈ l →
      l.countP (!(seen.insert i).contains ·) < l.countP (!seen.contains ·) := by
    intro l hl
    induction l with
    | nil => simp at hl
    | cons x xs ih =>
      have hle : xs.countP (!(seen.insert i).contains ·) ≤ xs.countP (!seen.contains ·) := by
        apply List.countP_mono_left
        simp
        intro y _ hy _
        exact hy
      rcases List.mem_cons.mp hl with rfl | hl
      · simp [hs] at hle ⊢
        omega
      · have := ih hl
        simp only [List.countP_cons, SlotSet.contains_insert] at this hle ⊢
        by_cases hix : i = x <;> by_cases hx : seen.contains x <;> simp [hix, hx] at this hle ⊢ <;>
          omega
  exact key _ (List.mem_range.mpr hi)

theorem unseen_enroll_le (h : Heap) (refs : List Ref) (seen : SlotSet) :
    h.unseen (h.enroll refs seen).2 + (h.enroll refs seen).1.length ≤ h.unseen seen := by
  induction refs generalizing seen with
  | nil => simp [enroll]
  | cons r rs ih =>
    unfold enroll
    split
    · exact ih seen
    · next i hr =>
      split
      · exact ih seen
      · next hs =>
        have h1 := ih (seen.insert i)
        have h2 := unseen_insert_lt (lt_capacity_of_slot? hr) (by simpa using hs)
        simp only [List.length_cons]
        omega

/-- All slots that `refs` lead to, directly or not, except through slots seen before: first those to
which `refs` lead directly, then those one step further, and so on. -/
def visit (h : Heap) (refs : List Ref) (seen : SlotSet) : List Nat :=
  match hv : h.enroll refs seen with
  | ([], _) => []
  | (i :: fresh, seen') =>
    have hlt : h.unseen seen' < h.unseen seen := by
      have := h.unseen_enroll_le refs seen
      simp only [hv, List.length_cons] at this
      omega
    i :: fresh ++ h.visit ((i :: fresh).flatMap h.referencesAt) seen'
termination_by h.unseen seen

def visitOrder (h : Heap) (refs : List Ref) : List Nat := h.visit refs .empty

end Heap

end Interleave
