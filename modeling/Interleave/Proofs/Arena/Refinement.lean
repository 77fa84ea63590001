import Interleave.Proofs.Arena.Bookkeeping
import Mathlib.Order.Bounds.Basic

/-!
An arena is a finite map from slots to elements. Whatever is done to it, however often images that were
captured from it are put back, its cells, its marks, its counts and the search for a free slot show the
map that comes of doing the same to the map.
-/

namespace Interleave.Arena

variable {α : Type}

inductive Act (α : Type) where
  | seek
  | insert (i : Nat) (x : α)
  | modify (i : Nat) (f : α → α)
  | erase (i : Nat)
  | capture
  | restore (n : Nat)

structure History (α : Type) where
  arena : Arena α := {}
  images : List (Image α) := []

def History.act (s : History α) : Act α → History α
  | .seek => { s with arena := s.arena.seek.2 }
  | .insert i x => { s with arena := s.arena.insert i x }
  | .modify i f => { s with arena := s.arena.modify i f }
  | .erase i => { s with arena := s.arena.erase i }
  | .capture => ⟨s.arena.capture.2, s.images ++ [s.arena.capture.1]⟩
  | .restore n =>
    match s.images[n]? with
    | some m => { s with arena := s.arena.restore m }
    | none => s

/-- A map from slots to elements, and what it was at each capture. -/
structure Replay (α : Type) where
  map : Nat → Option α := fun _ => none
  saved : List (Nat → Option α) := []

def Replay.act (s : Replay α) : Act α → Replay α
  | .seek => s
  | .insert i x => { s with map := Function.update s.map i (some x) }
  | .modify i f => { s with map := Function.update s.map i ((s.map i).map f) }
  | .erase i => { s with map := Function.update s.map i none }
  | .capture => { s with saved := s.saved ++ [s.map] }
  | .restore n => { s with map := s.saved[n]?.getD s.map }

def Image.arena (m : Image α) : Arena α := ({} : Arena α).restore m

def History.view (s : History α) : Replay α := ⟨s.arena.get?, s.images.map (·.arena.get?)⟩

theorem get?_update {a b : Arena α} {i : Nat} {o : Option α}
    (h : ∀ j, b.get? j = if i = j then o else a.get? j) : b.get? = Function.update a.get? i o := by
  funext j
  rw [h j, Function.update_apply]
  simp only [eq_comm]

theorem History.view_act (s : History α) (act : Act α) : (s.act act).view = s.view.act act := by
  cases act with
  | seek => rfl
  | insert i x =>
    have hmap := get?_update fun j => s.arena.get?_insert i j x
    simp only [History.act, History.view, Replay.act, hmap]
  | modify i f =>
    have hmap : (s.arena.modify i f).get? =
        Function.update s.arena.get? i ((s.arena.get? i).map f) := by
      apply get?_update
      intro j
      rw [get?_modify]
      split
      · next hij => rw [hij]
      · rfl
    simp only [History.act, History.view, Replay.act, hmap]
  | erase i =>
    have hmap := get?_update fun j => s.arena.get?_erase i j
    simp only [History.act, History.view, Replay.act, hmap]
  | capture =>
    simp only [History.act, History.view, Replay.act, List.map_append]
    rfl
  | restore n =>
    simp only [History.act, History.view, Replay.act, List.getElem?_map]
    cases s.images[n]? <;> rfl

theorem History.view_foldl (s : History α) (acts : List (Act α)) :
    (acts.foldl History.act s).view = acts.foldl Replay.act s.view :=
  (List.foldl_hom History.view fun s act => (s.view_act act).symm).symm

structure Sound (a : Arena α) : Prop where
  packed : a.Packed
  tallied : a.Tallied
  whole : a.Whole

theorem sound_empty : ({} : Arena α).Sound :=
  ⟨fun _ hi => absurd hi (Nat.not_lt_zero _), tallied_empty, whole_empty⟩

structure History.Sound (s : History α) : Prop where
  arena : s.arena.Sound
  images : ∀ m ∈ s.images, m.arena.Sound

theorem History.Sound.act {s : History α} (h : s.Sound) (act : Act α) : (s.act act).Sound := by
  obtain ⟨⟨hpacked, htallied, hwhole⟩, himages⟩ := h
  cases act with
  | seek => exact ⟨⟨hpacked.seek, htallied, hwhole⟩, himages⟩
  | insert i x => exact ⟨⟨hpacked.insert i x, htallied.insert i x, hwhole.insert i x⟩, himages⟩
  | modify i f => exact ⟨⟨hpacked.modify i f, htallied.modify i f, hwhole.modify i f⟩, himages⟩
  | erase i => exact ⟨⟨hpacked.erase i, htallied.erase i, hwhole.erase i⟩, himages⟩
  | capture =>
    refine ⟨⟨hpacked, htallied, hwhole⟩, fun m hm => ?_⟩
    rcases List.mem_append.mp hm with hm | hm
    · exact himages m hm
    · rw [List.mem_singleton.mp hm]
      exact ⟨.restore _ _, htallied, hwhole⟩
  | restore n =>
    dsimp only [History.act]
    split
    · next m hm =>
      -- the search begins anew, wherever it stood when the image was captured
      have himage := himages m (List.mem_of_getElem? hm)
      exact ⟨⟨.restore _ _, himage.tallied, himage.whole⟩, himages⟩
    · exact ⟨⟨hpacked, htallied, hwhole⟩, himages⟩

theorem History.Sound.foldl {s : History α} (h : s.Sound) (acts : List (Act α)) :
    (acts.foldl History.act s).Sound := by
  induction acts generalizing s with
  | nil => exact h
  | cons act acts ih => exact ih (h.act act)

def HasChunk (a : Arena α) (i : Nat) : Prop := (i / chunk + 1) * chunk ≤ a.capacity

theorem Whole.hasChunk {a : Arena α} (h : a.Whole) {i : Nat} (hi : i < a.capacity) : a.HasChunk i := by
  obtain ⟨n, hn⟩ := h
  unfold HasChunk
  rw [hn] at hi ⊢
  have hlt : i / chunk < n := Nat.div_lt_of_lt_mul hi
  rw [Nat.mul_comm chunk n]
  exact Nat.mul_le_mul_right chunk hlt

theorem hasChunk_insert (a : Arena α) (i : Nat) (x : α) : (a.insert i x).HasChunk i := by
  unfold HasChunk
  rw [capacity_insert]
  exact Nat.le_max_right ..

/-- Everything that `a` shows of itself is as `m` has it. -/
structure Refines (a : Arena α) (m : Nat → Option α) : Prop where
  get? : ∀ i, a.get? i = m i
  contains : ∀ i, a.contains i = (m i).isSome
  marked : ∀ i, i ∈ a.occupied ↔ ∃ x, a.cells[i]? = some (some x)
  live : a.live = {i | (m i).isSome}.ncard
  indices : a.indices.Pairwise (· < ·) ∧ ∀ i, i ∈ a.indices ↔ (m i).isSome
  elements : a.elements.map some = a.indices.map m
  bounded : ∀ i, (m i).isSome → i < a.capacity
  next : IsLeast {i | m i = none} a.seek.1
  present : ∀ i, a.contains i = true → a.HasChunk i
  grown : ∀ i x, (a.insert i x).HasChunk i

theorem Sound.refines {a : Arena α} (h : a.Sound) : a.Refines a.get? where
  get? := fun _ => rfl
  contains := a.contains_eq
  marked := by
    intro i
    rw [SlotSet.mem_iff, a.marked i, Option.isSome_iff_exists]
    simp only [Option.join_eq_some_iff]
  live := by
    simp only [← contains_eq]
    exact h.tallied.live_eq_ncard
  indices := by
    refine ⟨a.pairwise_indices, fun i => ?_⟩
    rw [← contains_eq]
    exact mem_indices
  elements := a.map_some_elements
  bounded := by
    intro i hi
    rw [← contains_eq] at hi
    exact lt_capacity_of_contains hi
  next := by
    constructor
    · exact get?_eq_none_of_not_contains a.contains_nextFree
    · intro i hi
      apply Nat.le_of_not_lt
      intro hlt
      have hc := h.packed.contains_of_lt_nextFree hlt
      rw [contains_eq, hi] at hc
      cases hc
  present := fun i hi => h.whole.hasChunk (lt_capacity_of_contains hi)
  grown := a.hasChunk_insert

/-- After any number of acts an arena shows the map that the same acts make of the empty map. -/
theorem refines_replay (acts : List (Act α)) :
    (acts.foldl History.act {}).arena.Refines (acts.foldl Replay.act {}).map := by
  have hempty : ({} : History α).Sound := ⟨sound_empty, fun _ hm => absurd hm List.not_mem_nil⟩
  have hview := History.view_foldl ({} : History α) acts
  have hmap : (acts.foldl History.act {}).arena.get? = (acts.foldl Replay.act {}).map :=
    congrArg Replay.map hview
  rw [← hmap]
  exact (hempty.foldl acts).arena.refines

-- back to the smaller image of the two, and on to the larger one
example :
    let acts : List (Act Char) := [.insert 2 'a', .capture, .insert 130 'b', .erase 2, .capture,
      .restore 0, .modify 2 Char.toUpper, .restore 1, .modify 130 Char.toUpper]
    let a := (acts.foldl History.act {}).arena
    (a.elements, a.live, a.capacity, a.get? 2) = (['B'], 1, 192, none) := by
  decide +kernel

end Interleave.Arena
