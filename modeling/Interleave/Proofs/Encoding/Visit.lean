import Interleave.Proofs.Encoding.Cells
import Mathlib.Data.List.Forall2

/-!
The breadth-first order. Which slots are visited is a matter of the targets of references alone, the
order lists every slot once and is closed under following references, and two heaps that correspond
slot by slot are visited in corresponding orders.
-/

namespace Interleave

open Relator

def SlotSet.enroll : List Nat → SlotSet → List Nat × SlotSet
  | [], seen => ([], seen)
  | i :: l, seen =>
    if seen.contains i then
      enroll l seen
    else
      (i :: (enroll l (seen.insert i)).1, (enroll l (seen.insert i)).2)

namespace SlotSet

theorem mem_enroll (l : List Nat) (seen : SlotSet) (j : Nat) :
    j ∈ (enroll l seen).1 ↔ j ∈ l ∧ seen.contains j = false := by
  induction l generalizing seen with
  | nil => simp [enroll]
  | cons i l ih =>
    unfold enroll
    split
    · next hi =>
      rw [ih, List.mem_cons]
      constructor
      · intro ⟨hl, hj⟩
        exact ⟨.inr hl, hj⟩
      · intro ⟨hl, hj⟩
        rcases hl with rfl | hl
        · simp [hi] at hj
        · exact ⟨hl, hj⟩
    · next hi =>
      simp only [List.mem_cons, ih, contains_insert, Bool.or_eq_false_iff, decide_eq_false_iff_not]
      by_cases hij : j = i
      · subst hij
        simpa using hi
      · simp [hij, Ne.symm hij]

theorem contains_enroll (l : List Nat) (seen : SlotSet) (j : Nat) :
    (enroll l seen).2.contains j = (seen.contains j || decide (j ∈ l)) := by
  induction l generalizing seen with
  | nil => simp [enroll]
  | cons i l ih =>
    unfold enroll
    split
    · next hi =>
      rw [ih]
      by_cases hij : j = i
      · subst hij
        simp [hi]
      · simp [hij]
    · rw [ih, contains_insert]
      by_cases hij : j = i
      · subst hij
        simp
      · simp [hij, Ne.symm hij]

theorem contains_enroll_iff {l : List Nat} {seen : SlotSet} {j : Nat} :
    (enroll l seen).2.contains j = true ↔ seen.contains j = true ∨ j ∈ (enroll l seen).1 := by
  rw [contains_enroll, mem_enroll, Bool.or_eq_true, decide_eq_true_eq]
  cases seen.contains j <;> simp

theorem nodup_enroll (l : List Nat) (seen : SlotSet) : (enroll l seen).1.Nodup := by
  induction l generalizing seen with
  | nil => exact .nil
  | cons i l ih =>
    unfold enroll
    split
    · exact ih seen
    · refine List.nodup_cons.mpr ⟨?_, ih _⟩
      rw [mem_enroll, contains_insert]
      simp

theorem enroll_append_of_mem {i : Nat} {l l' : List Nat} {seen : SlotSet}
    (hi : i ∈ l ∨ seen.contains i = true) : enroll (l ++ i :: l') seen = enroll (l ++ l') seen := by
  induction l generalizing seen with
  | nil =>
    have hi : seen.contains i = true := by simpa using hi
    rw [List.nil_append, List.nil_append, enroll, if_pos hi]
  | cons j l ih =>
    rw [List.cons_append, List.cons_append, enroll, enroll]
    split
    · next hj =>
      apply ih
      rcases hi with hi | hi
      · rcases List.mem_cons.mp hi with rfl | hi
        · exact .inr hj
        · exact .inl hi
      · exact .inr hi
    · have hi : i ∈ l ∨ (seen.insert j).contains i = true := by
        rw [contains_insert, Bool.or_eq_true, decide_eq_true_eq]
        rcases hi with hi | hi
        · rcases List.mem_cons.mp hi with rfl | hi
          · exact .inr (.inr rfl)
          · exact .inl hi
        · exact .inr (.inl hi)
      rw [ih hi]

theorem enroll_forall₂ {P : Nat → Nat → Prop} (hP : BiUnique P) {l₁ l₂ : List Nat}
    {seen₁ seen₂ : SlotSet} (hl : List.Forall₂ P l₁ l₂)
    (hseen : ∀ i j, P i j → seen₁.contains i = seen₂.contains j) :
    List.Forall₂ P (enroll l₁ seen₁).1 (enroll l₂ seen₂).1 ∧
      ∀ i j, P i j → (enroll l₁ seen₁).2.contains i = (enroll l₂ seen₂).2.contains j := by
  induction hl generalizing seen₁ seen₂ with
  | nil => exact ⟨.nil, hseen⟩
  | @cons i j l₁ l₂ hij _ ih =>
    unfold enroll
    rw [hseen i j hij]
    split
    · exact ih hseen
    · have hstep : ∀ i' j', P i' j' →
          (seen₁.insert i).contains i' = (seen₂.insert j).contains j' := by
        intro i' j' h
        have hiff : i = i' ↔ j = j' := by
          constructor
          · intro heq
            exact hP.2 (heq ▸ hij) h
          · intro heq
            exact hP.1 (heq ▸ hij) h
        rw [contains_insert, contains_insert, hseen i' j' h, decide_eq_decide.mpr hiff]
      have := ih hstep
      exact ⟨.cons hij this.1, this.2⟩

end SlotSet

namespace Heap

theorem enroll_eq (h : Heap) (refs : List Ref) (seen : SlotSet) :
    h.enroll refs seen = SlotSet.enroll (h.targets refs) seen := by
  induction refs generalizing seen with
  | nil => rfl
  | cons r refs ih =>
    unfold enroll targets
    rw [List.filterMap_cons]
    split
    · next hr =>
      rw [hr]
      exact ih seen
    · next i hr =>
      rw [hr]
      unfold SlotSet.enroll
      split
      · exact ih seen
      · rw [ih]
        rfl

theorem visit_eq (h : Heap) (refs : List Ref) (seen : SlotSet) :
    h.visit refs seen =
      (h.enroll refs seen).1 ++
        if (h.enroll refs seen).1 = [] then []
        else h.visit ((h.enroll refs seen).1.flatMap h.referencesAt) (h.enroll refs seen).2 := by
  rw [visit]
  split
  · next hv => simp [hv]
  · next hv => simp [hv]

theorem visit_congr {h : Heap} {refs refs' : List Ref} {seen : SlotSet}
    (heq : SlotSet.enroll (h.targets refs) seen = SlotSet.enroll (h.targets refs') seen) :
    h.visit refs seen = h.visit refs' seen := by
  rw [visit_eq h refs, visit_eq h refs', enroll_eq, enroll_eq, heq]

theorem targets_cons (h : Heap) (r : Ref) (l : List Ref) :
    h.targets (r :: l) = (h.slot? r).toList ++ h.targets l := by
  unfold targets
  rw [List.filterMap_cons]
  cases h.slot? r <;> rfl

theorem targets_flatMap (h : Heap) {α : Type} (l : List α) (g : α → List Ref) :
    h.targets (l.flatMap g) = l.flatMap fun i => h.targets (g i) := by
  unfold targets
  rw [List.filterMap_flatMap]

theorem targets_append (h : Heap) (l l' : List Ref) :
    h.targets (l ++ l') = h.targets l ++ h.targets l' := by
  unfold targets
  rw [List.filterMap_append]

theorem visit_induction (h : Heap) {motive : List Ref → SlotSet → Prop}
    (round : ∀ refs seen,
      ((h.enroll refs seen).1 ≠ [] →
        motive ((h.enroll refs seen).1.flatMap h.referencesAt) (h.enroll refs seen).2) →
      motive refs seen)
    (refs : List Ref) (seen : SlotSet) : motive refs seen := by
  apply round
  intro hne
  exact visit_induction h round _ _
termination_by h.unseen seen
decreasing_by
  have := h.unseen_enroll_le refs seen
  have := List.length_pos_of_ne_nil hne
  omega

theorem mem_visit_of_mem_targets {h : Heap} {refs : List Ref} {seen : SlotSet} {i : Nat}
    (hi : i ∈ h.targets refs) : seen.contains i = true ∨ i ∈ h.visit refs seen := by
  rw [visit_eq, List.mem_append, enroll_eq, SlotSet.mem_enroll]
  cases hs : seen.contains i with
  | true => exact .inl rfl
  | false => exact .inr (.inl ⟨hi, rfl⟩)

theorem mem_visit_of_mem_references {h : Heap} {refs : List Ref} {seen : SlotSet} {i j : Nat}
    (hi : i ∈ h.visit refs seen) (hj : j ∈ h.targets (h.referencesAt i)) :
    seen.contains j = true ∨ j ∈ h.visit refs seen := by
  induction refs, seen using h.visit_induction with
  | round refs seen ih =>
    rw [visit_eq, List.mem_append] at hi ⊢
    split at hi
    · next hnil => simp [hnil] at hi
    · next hne =>
      rw [if_neg hne]
      have hnext : (h.enroll refs seen).2.contains j = true ∨
          j ∈ h.visit ((h.enroll refs seen).1.flatMap h.referencesAt) (h.enroll refs seen).2 := by
        cases hi with
        | inl hi =>
          apply mem_visit_of_mem_targets
          rw [targets_flatMap, List.mem_flatMap]
          exact ⟨i, hi, hj⟩
        | inr hi => exact ih hne hi
      cases hnext with
      | inl hc =>
        -- what the round has enrolled counts as seen in the next one
        rw [enroll_eq] at hc ⊢
        cases SlotSet.contains_enroll_iff.mp hc with
        | inl hs => exact .inl hs
        | inr hm => exact .inr (.inl hm)
      | inr hm => exact .inr (.inr hm)

theorem nodup_visit (h : Heap) (refs : List Ref) (seen : SlotSet) :
    (h.visit refs seen).Nodup ∧ ∀ i ∈ h.visit refs seen, seen.contains i = false := by
  induction refs, seen using h.visit_induction with
  | round refs seen ih =>
    rw [enroll_eq] at ih
    rw [visit_eq, enroll_eq]
    have hround : ∀ i ∈ (SlotSet.enroll (h.targets refs) seen).1, seen.contains i = false :=
      fun i hi => ((SlotSet.mem_enroll _ _ i).mp hi).2
    split
    · rw [List.append_nil]
      exact ⟨SlotSet.nodup_enroll _ _, hround⟩
    · next hne =>
      obtain ⟨hnodup, hlater⟩ := ih hne
      simp only [← Bool.not_eq_true, SlotSet.contains_enroll_iff, not_or] at hlater
      constructor
      · rw [List.nodup_append]
        refine ⟨SlotSet.nodup_enroll _ _, hnodup, ?_⟩
        rintro i hi _ hi' rfl
        exact (hlater i hi').2 hi
      · intro i hi
        rcases List.mem_append.mp hi with hi | hi
        · exact hround i hi
        · exact Bool.not_eq_true _ ▸ (hlater i hi).1

theorem mem_visit_sound {h : Heap} {Q : Nat → Prop}
    (hQ : ∀ i j, Q i → j ∈ h.targets (h.referencesAt i) → Q j) {refs : List Ref} {seen : SlotSet}
    (hrefs : ∀ i ∈ h.targets refs, Q i) : ∀ i ∈ h.visit refs seen, Q i := by
  induction refs, seen using h.visit_induction with
  | round refs seen ih =>
    have henroll : ∀ i ∈ (h.enroll refs seen).1, Q i := by
      intro i hi
      rw [enroll_eq, SlotSet.mem_enroll] at hi
      exact hrefs i hi.1
    intro i hi
    rw [visit_eq, List.mem_append] at hi
    rcases hi with hi | hi
    · exact henroll i hi
    · split at hi
      · cases hi
      · next hne =>
        apply ih hne _ i hi
        intro j hj
        rw [targets_flatMap, List.mem_flatMap] at hj
        obtain ⟨i', hi', hj⟩ := hj
        exact hQ i' j (henroll i' hi') hj

theorem contains_of_mem_targets {h : Heap} {refs : List Ref} {i : Nat} (hi : i ∈ h.targets refs) :
    h.arena.contains i = true := by
  unfold targets at hi
  rw [List.mem_filterMap] at hi
  obtain ⟨r, _, hr⟩ := hi
  exact (slot?_eq_some_iff.mp hr).2

theorem visit_forall₂ {h₁ h₂ : Heap} {P : Nat → Nat → Prop} (hP : BiUnique P)
    (hobj : ∀ i j, P i j →
      List.Forall₂ P (h₁.targets (h₁.referencesAt i)) (h₂.targets (h₂.referencesAt j)))
    {refs₁ refs₂ : List Ref} {seen₁ seen₂ : SlotSet}
    (hrefs : List.Forall₂ P (h₁.targets refs₁) (h₂.targets refs₂))
    (hseen : ∀ i j, P i j → seen₁.contains i = seen₂.contains j) :
    List.Forall₂ P (h₁.visit refs₁ seen₁) (h₂.visit refs₂ seen₂) := by
  induction refs₁, seen₁ using h₁.visit_induction generalizing refs₂ seen₂ with
  | round refs₁ seen₁ ih =>
    have henroll := SlotSet.enroll_forall₂ hP hrefs hseen
    rw [← enroll_eq, ← enroll_eq] at henroll
    have hnil : (h₁.enroll refs₁ seen₁).1 = [] ↔ (h₂.enroll refs₂ seen₂).1 = [] := by
      rw [← List.length_eq_zero_iff, ← List.length_eq_zero_iff, henroll.1.length_eq]
    rw [visit_eq h₁, visit_eq h₂]
    apply List.rel_append henroll.1
    split
    · next hn =>
      rw [if_pos (hnil.mp hn)]
      exact .nil
    · next hn =>
      rw [if_neg (mt hnil.mpr hn)]
      apply ih hn
      · rw [targets_flatMap, targets_flatMap]
        exact List.rel_flatMap henroll.1 hobj
      · exact henroll.2

end Heap

end Interleave
