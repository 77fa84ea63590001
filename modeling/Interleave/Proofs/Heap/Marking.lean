import Interleave.Heap.Reach
import Interleave.Proofs.Arena
import Mathlib.Logic.Relation

/-!
Marking. A mask says of a slot exactly what it should: some seed says so of a live slot from which the
slot is reached along traced references between live slots.
-/

namespace Interleave

namespace ThreadMask

structure Additive (p : ThreadMask → Bool) : Prop where
  empty : p .empty = false
  union : ∀ a b, p (a.union b) = (p a || p b)

theorem isEmpty_union (a b : ThreadMask) : (a.union b).isEmpty = (a.isEmpty && b.isEmpty) := by
  unfold isEmpty union
  rw [Bool.eq_iff_iff, Bool.and_eq_true, beq_iff_eq, beq_iff_eq, beq_iff_eq]
  exact UInt64.or_eq_zero_iff

theorem isEmpty_thread (t : ThreadId) : (thread t).isEmpty = false := by
  have hsmall : ∀ t < threadBits, (ThreadMask.mk (1 <<< t.toUInt64)).isEmpty = false := by decide
  unfold thread
  split
  · next ht => exact hsmall t ht
  · rfl

theorem additive_not_isEmpty : Additive fun m => !m.isEmpty where
  empty := rfl
  union := by
    intro a b
    rw [isEmpty_union, Bool.not_and]

end ThreadMask

def Arena.Leads (arena : Arena Element) (i j : Nat) : Prop :=
  ∃ e, arena.get? i = some e ∧ j ∈ e.tracedSlots ∧ arena.contains j = true

namespace Marker

open ThreadMask (Additive)

variable {arena : Arena Element} {p : ThreadMask → Bool} {s : Marker} {i j : Nat} {m : ThreadMask}
  {l : List (Nat × ThreadMask)}

theorem size_mark (arena : Arena Element) (s : Marker) (i : Nat) (m : ThreadMask) :
    (s.mark arena i m).masks.size = s.masks.size := by
  unfold mark
  dsimp only
  split
  · exact Array.size_setIfInBounds
  · rfl

theorem size_markAll (arena : Arena Element) (s : Marker) (l : List (Nat × ThreadMask)) :
    (s.markAll arena l).masks.size = s.masks.size := by
  induction l generalizing s with
  | nil => rfl
  | cons im rest ih => exact (ih _).trans (size_mark arena s im.1 im.2)

theorem mask_mark (hsize : arena.capacity ≤ s.masks.size) :
    (s.mark arena i m).mask j =
      if i = j ∧ arena.contains i = true then (s.mask j).union m else s.mask j := by
  unfold mark
  dsimp only
  split
  · next h =>
    rw [mask_set]
    by_cases hij : i = j
    · rw [if_pos ⟨hij, h.2.1⟩, if_pos ⟨hij, h.1⟩, hij]
    · rw [if_neg fun h => hij h.1, if_neg fun h => hij h.1]
  · next h =>
    split
    · next hij =>
      have hlt := Nat.lt_of_lt_of_le (Arena.lt_capacity_of_contains hij.2) hsize
      rw [← hij.1]
      exact Decidable.byContradiction fun hne => h ⟨hij.2, hlt, Ne.symm hne⟩
    · rfl

theorem marked_mark (hp : Additive p) (hsize : arena.capacity ≤ s.masks.size) :
    p ((s.mark arena i m).mask j) = true ↔
      p (s.mask j) = true ∨ i = j ∧ p m = true ∧ arena.contains i = true := by
  rw [mask_mark hsize]
  split
  · next h =>
    obtain ⟨rfl, hlive⟩ := h
    simp [hp.union, hlive]
  · next h =>
    constructor
    · exact .inl
    · rintro (hj | ⟨hij, -, hlive⟩)
      · exact hj
      · exact absurd ⟨hij, hlive⟩ h

theorem mem_queue_mark (arena : Arena Element) (s : Marker) (i : Nat) (m : ThreadMask) {j : Nat} :
    j ∈ (s.mark arena i m).queue ↔ j ∈ s.queue ∨ (s.mark arena i m).mask j ≠ s.mask j := by
  unfold mark
  dsimp only
  split
  · next h =>
    rw [mask_set, List.mem_append, List.mem_singleton]
    apply or_congr_right
    by_cases hij : i = j
    · subst hij
      simp [h.2]
    · simp [hij, Ne.symm hij]
  · simp

theorem marked_markAll (hp : Additive p) (hsize : arena.capacity ≤ s.masks.size) :
    p ((s.markAll arena l).mask j) = true ↔
      p (s.mask j) = true ∨ ∃ m, (j, m) ∈ l ∧ p m = true ∧ arena.contains j = true := by
  induction l generalizing s with
  | nil => simp [markAll]
  | cons im rest ih =>
    have hstep := ih (s := s.mark arena im.1 im.2) (by rwa [size_mark])
    rw [marked_mark hp hsize] at hstep
    refine hstep.trans ?_
    constructor
    · rintro ((hj | ⟨rfl, hm, hlive⟩) | ⟨m, hmem, hm, hlive⟩)
      · exact .inl hj
      · exact .inr ⟨im.2, .head _, hm, hlive⟩
      · exact .inr ⟨m, .tail _ hmem, hm, hlive⟩
    · rintro (hj | ⟨m, hmem, hm, hlive⟩)
      · exact .inl (.inl hj)
      · cases hmem with
        | head => exact .inl (.inr ⟨rfl, hm, hlive⟩)
        | tail _ hmem => exact .inr ⟨m, hmem, hm, hlive⟩

theorem mem_queue_markAll (arena : Arena Element) (s : Marker) (l : List (Nat × ThreadMask)) {j : Nat} :
    (j ∈ s.queue → j ∈ (s.markAll arena l).queue) ∧
      (j ∉ (s.markAll arena l).queue → (s.markAll arena l).mask j = s.mask j) := by
  induction l generalizing s with
  | nil => exact ⟨id, fun _ => rfl⟩
  | cons im rest ih =>
    obtain ⟨hstay, hsame⟩ := ih (s.mark arena im.1 im.2)
    have hmark := mem_queue_mark arena s im.1 im.2 (j := j)
    constructor
    · intro hj
      exact hstay (hmark.mpr (.inl hj))
    · intro hj
      refine (hsame hj).trans ?_
      exact Decidable.byContradiction fun hne => hj (hstay (hmark.mpr (.inr hne)))

theorem size_pass (arena : Arena Element) (s : Marker) (i : Nat) :
    (s.pass arena i).masks.size = s.masks.size := by
  unfold pass
  split
  · exact size_markAll arena s _
  · rfl

theorem mem_queue_pass (arena : Arena Element) (s : Marker) (i : Nat) {j : Nat} :
    (j ∈ s.queue → j ∈ (s.pass arena i).queue) ∧
      (j ∉ (s.pass arena i).queue → (s.pass arena i).mask j = s.mask j) := by
  unfold pass
  split
  · exact mem_queue_markAll arena s _
  · exact ⟨id, fun _ => rfl⟩

theorem marked_pass (hp : Additive p) (hsize : arena.capacity ≤ s.masks.size) :
    p ((s.pass arena i).mask j) = true ↔
      p (s.mask j) = true ∨ p (s.mask i) = true ∧ arena.Leads i j := by
  unfold pass Arena.Leads
  cases arena.get? i with
  | none => simp
  | some e =>
    refine (marked_markAll hp hsize).trans (or_congr_right ?_)
    constructor
    · rintro ⟨m, hmem, hm, hlive⟩
      obtain ⟨_, htraced, heq⟩ := List.mem_map.mp hmem
      cases heq
      exact ⟨hm, e, rfl, htraced, hlive⟩
    · rintro ⟨hi, _, he, htraced, hlive⟩
      cases he
      exact ⟨_, List.mem_map.mpr ⟨j, htraced, rfl⟩, hi, hlive⟩

def Settled (arena : Arena Element) (p : ThreadMask → Bool) (s : Marker) : Prop :=
  ∀ i, p (s.mask i) = true → i ∉ s.queue → ∀ j, arena.Leads i j → p (s.mask j) = true

theorem Settled.turn (h : Settled arena p s) (hp : Additive p) (hsize : arena.capacity ≤ s.masks.size)
    {rest : List Nat} (hqueue : s.queue = i :: rest) :
    Settled arena p ({ s with queue := rest }.pass arena i) := by
  intro a ha hwaits b hab
  obtain ⟨hstay, hsame⟩ := mem_queue_pass arena { s with queue := rest } i (j := a)
  rw [hsame hwaits] at ha
  rw [marked_pass (s := { s with queue := rest }) hp hsize]
  -- the mask of `a` is as it was: either its turn is now, or it was passed on before
  by_cases hai : a = i
  · exact .inr ⟨hai ▸ ha, hai ▸ hab⟩
  · refine .inl (h a ha ?_ b hab)
    rw [hqueue, List.mem_cons]
    rintro (hai' | hrest)
    · exact hai hai'
    · exact hwaits (hstay hrest)

theorem drain_spec (hp : Additive p) (hsize : arena.capacity ≤ s.masks.size) (hs : Settled arena p s) :
    (∀ j, p (s.mask j) = true → p ((s.drain arena).mask j) = true) ∧
      (∀ i j, p ((s.drain arena).mask i) = true → arena.Leads i j → p ((s.drain arena).mask j) = true) ∧
      ∀ Q : Nat → Prop, (∀ i j, Q i → arena.Leads i j → Q j) → (∀ j, p (s.mask j) = true → Q j) →
        ∀ j, p ((s.drain arena).mask j) = true → Q j := by
  fun_induction drain arena s with
  | case1 s hqueue => exact ⟨fun _ => id, fun i j hi => hs i hi (by simp [hqueue]) j, fun Q _ hQ => hQ⟩
  | case2 s i rest hqueue _ ih =>
    have hpass : ∀ j, p (({ s with queue := rest }.pass arena i).mask j) = true ↔ _ :=
      fun j => marked_pass (s := { s with queue := rest }) hp hsize
    obtain ⟨hkeeps, hclosed, hsound⟩ := ih (by rwa [size_pass]) (hs.turn hp hsize hqueue)
    refine ⟨fun j hj => hkeeps j ((hpass j).mpr (.inl hj)), hclosed, ?_⟩
    intro Q hQ hstart
    refine hsound Q hQ fun j hj => ?_
    rcases (hpass j).mp hj with hj | ⟨hi, hij⟩
    · exact hstart j hj
    · exact hQ i j (hstart i hi) hij

end Marker

theorem Reach.masks_iff {arena : Arena Element} {p : ThreadMask → Bool} (hp : ThreadMask.Additive p)
    {seeds : List (Nat × ThreadMask)} {j : Nat} :
    p ((masks arena seeds).getD j .empty) = true ↔
      ∃ i m, (i, m) ∈ seeds ∧ p m = true ∧ arena.contains i = true ∧
        Relation.ReflTransGen arena.Leads i j := by
  let s : Marker := ⟨Array.replicate arena.capacity .empty, []⟩
  have hsize : arena.capacity ≤ s.masks.size := by simp [s]
  have hempty : ∀ i, p (s.mask i) = false := by
    intro i
    have hget : s.mask i = .empty := by
      unfold Marker.mask
      rw [Array.getD_eq_getD_getElem?, Array.getElem?_replicate]
      split <;> rfl
    rw [hget, hp.empty]
  have hseeded : ∀ i, p ((s.markAll arena seeds).mask i) = true ↔
      ∃ m, (i, m) ∈ seeds ∧ p m = true ∧ arena.contains i = true := by
    intro i
    rw [Marker.marked_markAll hp hsize, hempty]
    simp
  -- in the beginning everybody who is marked waits
  have hsettled : Marker.Settled arena p (s.markAll arena seeds) := by
    intro i hi hwaits
    rw [(Marker.mem_queue_markAll arena s seeds).2 hwaits, hempty] at hi
    cases hi
  obtain ⟨hkeeps, hclosed, hsound⟩ := Marker.drain_spec hp
    (by rwa [Marker.size_markAll]) hsettled
  change p (((s.markAll arena seeds).drain arena).mask j) = true ↔ _
  constructor
  · apply hsound fun j => ∃ i m, (i, m) ∈ seeds ∧ p m = true ∧ arena.contains i = true ∧
      Relation.ReflTransGen arena.Leads i j
    · rintro a b ⟨i, m, hmem, hm, hc, hpath⟩ hab
      exact ⟨i, m, hmem, hm, hc, hpath.tail hab⟩
    · intro i hi
      obtain ⟨m, hmem, hm, hc⟩ := (hseeded i).mp hi
      exact ⟨i, m, hmem, hm, hc, .refl⟩
  · rintro ⟨i, m, hmem, hm, hc, hpath⟩
    induction hpath with
    | refl => exact hkeeps i ((hseeded i).mpr ⟨m, hmem, hm, hc⟩)
    | tail _ hab ih => exact hclosed _ _ ih hab

end Interleave
