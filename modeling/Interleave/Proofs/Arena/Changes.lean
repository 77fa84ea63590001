import Interleave.Proofs.Arena.Refinement

/-!
The slots that an arena counts as changed. They are those that were written since an image was last
captured from the arena or put back into it, and every other slot is as it is in that image.
-/

namespace Interleave

theorem SlotSet.mem_insert {s : SlotSet} {i j : Nat} : j ∈ s.insert i ↔ i = j ∨ j ∈ s := by
  simp only [mem_iff, contains_insert, Bool.or_eq_true, decide_eq_true_eq]
  exact Or.comm

namespace Arena

variable {α : Type}

def History.image? (s : History α) : Act α → Option (Image α)
  | .capture => some s.arena.capture.1
  | .restore n => s.images[n]?
  | _ => none

def History.written? (s : History α) : Act α → Option Nat
  | .insert i _ => some i
  | .modify i _ => if s.arena.contains i then some i else none
  | .erase i => if s.arena.contains i then some i else none
  | _ => none

/-- A history with the image that was captured or put back last, and the slots written since then, the
latest first. -/
structure Log (α : Type) extends History α where
  last : Option (Image α) := none
  written : List Nat := []

def Log.act (s : Log α) (act : Act α) : Log α :=
  match s.image? act with
  | some m => ⟨s.toHistory.act act, some m, []⟩
  | none => ⟨s.toHistory.act act, s.last, (s.written? act).toList ++ s.written⟩

def Log.base (s : Log α) : Arena α := (s.last.map Image.arena).getD {}

section Changed

variable (a : Arena α) (i j : Nat)

theorem mem_changed_insert (x : α) : j ∈ (a.insert i x).changed ↔ i = j ∨ j ∈ a.changed :=
  SlotSet.mem_insert

theorem mem_changed_modify (f : α → α) :
    j ∈ (a.modify i f).changed ↔ (a.contains i = true ∧ i = j) ∨ j ∈ a.changed := by
  unfold modify
  split
  · next hc => simp [SlotSet.mem_insert, hc]
  · next hc => simp [hc]

theorem mem_changed_erase :
    j ∈ (a.erase i).changed ↔ (a.contains i = true ∧ i = j) ∨ j ∈ a.changed := by
  unfold erase
  split
  · next hc => simp [SlotSet.mem_insert, hc]
  · next hc => simp [hc]

end Changed

namespace History

variable {s : History α} {act : Act α}

theorem act_of_image? {m : Image α} (h : s.image? act = some m) :
    (s.act act).arena.get? = m.arena.get? ∧ (s.act act).arena.changed = .empty := by
  cases act with
  | capture =>
    cases h
    exact ⟨rfl, rfl⟩
  | restore n =>
    have hact : (s.act (.restore n)).arena = s.arena.restore m := by
      dsimp only [image?] at h
      rw [History.act, h]
    rw [hact]
    exact ⟨rfl, rfl⟩
  | seek | insert | modify | erase => cases h

theorem mem_changed_act (h : s.image? act = none) (i : Nat) :
    i ∈ (s.act act).arena.changed ↔ s.written? act = some i ∨ i ∈ s.arena.changed := by
  cases act with
  | seek => simp [History.act, written?, seek]
  | insert j x => simp [History.act, written?, mem_changed_insert]
  | modify j f => simp [History.act, written?, mem_changed_modify]
  | erase j => simp [History.act, written?, mem_changed_erase]
  | capture => cases h
  | restore n =>
    dsimp only [image?] at h
    simp [History.act, h, written?]

theorem get?_act (h : s.image? act = none) {i : Nat} (hi : s.written? act ≠ some i) :
    (s.act act).arena.get? i = s.arena.get? i := by
  cases act with
  | seek => rfl
  | insert j x =>
    have hij : j ≠ i := by simpa [written?] using hi
    rw [History.act, get?_insert, if_neg hij]
  | modify j f =>
    rw [History.act, get?_modify]
    split
    · next hij =>
      -- the slot is free, or else it would be written
      have hfree : s.arena.get? i = none := by
        apply get?_eq_none_of_not_contains
        simpa [written?, hij] using hi
      rw [hfree]
      rfl
    · rfl
  | erase j =>
    rw [History.act, get?_erase]
    split
    · next hij =>
      symm
      apply get?_eq_none_of_not_contains
      simpa [written?, hij] using hi
    · rfl
  | capture => cases h
  | restore n =>
    dsimp only [image?] at h
    rw [History.act, h]

end History

namespace Log

structure Faithful (s : Log α) : Prop where
  changed : ∀ i, i ∈ s.arena.changed ↔ i ∈ s.written
  kept : ∀ i, i ∉ s.written → s.arena.get? i = s.base.get? i

theorem Faithful.act {s : Log α} (h : s.Faithful) (act : Act α) : (s.act act).Faithful := by
  cases himage : s.image? act with
  | some m =>
    obtain ⟨hget, hchanged⟩ := History.act_of_image? himage
    rw [Log.act, himage]
    refine ⟨fun i => ?_, fun i _ => congrFun hget i⟩
    simp [hchanged, SlotSet.mem_iff]
  | none =>
    rw [Log.act, himage]
    refine ⟨fun i => ?_, fun i hi => ?_⟩
    · rw [History.mem_changed_act himage, h.changed, List.mem_append, Option.mem_toList]
    · rw [List.mem_append, Option.mem_toList, not_or] at hi
      exact (History.get?_act himage hi.1).trans (h.kept i hi.2)

theorem Faithful.foldl {s : Log α} (h : s.Faithful) (acts : List (Act α)) :
    (acts.foldl Log.act s).Faithful := by
  induction acts generalizing s with
  | nil => exact h
  | cons act acts ih => exact ih (h.act act)

end Log

/-- However an arena is used, and whichever images are put back into it, its own or those of others, it
counts as changed just the slots written since the last image; the others hold what they hold there. -/
theorem unchanged_since (others : List (Image α)) (acts : List (Act α)) (i : Nat) :
    let s := acts.foldl Log.act { images := others }
    (i ∈ s.arena.changed ↔ i ∈ s.written) ∧
      (i ∉ s.arena.changed →
        s.arena.get? i = s.base.get? i ∧ s.arena.contains i = s.base.contains i) := by
  intro s
  have hstart : ({ images := others } : Log α).Faithful := by
    refine ⟨fun i => ?_, fun _ _ => rfl⟩
    simp [SlotSet.mem_iff]
  have hs : s.Faithful := hstart.foldl acts
  refine ⟨hs.changed i, fun hi => ?_⟩
  have hget : s.arena.get? i = s.base.get? i := by
    apply hs.kept
    rwa [← hs.changed]
  exact ⟨hget, contains_congr hget⟩

theorem unchanged_since_adopted :
    let other : Image Char := (({} : Arena Char).insert 5 'z').capture.1
    let s := [Act.insert 2 'a', .capture, .modify 2 Char.toUpper, .restore 0, .insert 70 'b', .erase 2,
      .modify 70 Char.toUpper].foldl Log.act { images := [other] }
    5 ∉ s.arena.changed ∧ s.arena.changed.toList = [70] ∧ s.base.get? 5 = some 'z' ∧
      s.arena.get? 5 = s.base.get? 5 ∧ s.arena.contains 5 = s.base.contains 5 := by
  intro other s
  have h5 : 5 ∉ s.arena.changed := by decide +kernel
  exact ⟨h5, by decide +kernel, by decide +kernel, (unchanged_since [other] _ 5).2 h5⟩

end Arena

end Interleave
