import Interleave.Encoding.Words

/-!
The slots of objects and of frames as one list of cells, each with the information whether it holds a
reference. Both what the encoding writes for a slot and where it goes on from there depend on the cell
alone.
-/

namespace Interleave

abbrev Cell := Int32 × Bool

def Fields.cells (f : Fields) : List Cell :=
  f.values.toList.zipIdx.map fun (v, i) => (v, f.isReference i)

def Frame.cells (f : Frame) : List Cell :=
  f.slots.toList.zipIdx.map fun (v, i) => (v, f.isReference i)

theorem Frame.length_cells (f : Frame) : f.cells.length = f.slots.size := by
  simp [cells]

def Cell.references (l : List Cell) : List Ref :=
  (l.filter fun c => c.2 && !(Ref.mk c.1).isNull).map fun c => ⟨c.1⟩

theorem Cell.mem_references {l : List Cell} {r : Ref} :
    r ∈ Cell.references l ↔ r.isNull = false ∧ (r.slot, true) ∈ l := by
  unfold references
  rw [List.mem_map]
  constructor
  · rintro ⟨⟨v, isRef⟩, hmem, rfl⟩
    rw [List.mem_filter, Bool.and_eq_true, Bool.not_eq_true'] at hmem
    obtain ⟨hmem, rfl, hnull⟩ := hmem
    exact ⟨hnull, hmem⟩
  · rintro ⟨hnull, hmem⟩
    refine ⟨(r.slot, true), ?_, rfl⟩
    rw [List.mem_filter, Bool.and_eq_true, Bool.not_eq_true']
    exact ⟨hmem, rfl, hnull⟩

theorem Fields.referencesFrom_eq (f : Fields) (start : Nat) :
    f.referencesFrom start = Cell.references (f.cells.drop start) := by
  simp only [referencesFrom, Cell.references, cells, ← List.map_drop, List.filter_map, List.map_map]
  rfl

theorem Fields.references_eq (f : Fields) : f.references = Cell.references f.cells :=
  f.referencesFrom_eq 0

theorem Frame.references_eq (f : Frame) : f.references = Cell.references f.cells := by
  simp only [references, Cell.references, cells, List.filter_map, List.map_map, List.filter_filter,
    Function.comp_def]
  congr 2
  funext c
  exact Bool.and_comm _ _

theorem Fields.getElem?_cells (f : Fields) (i : Nat) :
    f.cells[i]? = f.values[i]?.map fun v => (v, f.isReference i) := by
  simp [cells, List.getElem?_zipIdx, Function.comp_def]

theorem Frame.getElem?_cells (f : Frame) (i : Nat) :
    f.cells[i]? = f.slots[i]?.map fun v => (v, f.isReference i) := by
  simp [cells, List.getElem?_zipIdx, Function.comp_def]

namespace Heap

def nameOf? (h : Heap) (r : Ref) : Option GlobalId := (h.get? r).map (·.gid)

def targets (h : Heap) (refs : List Ref) : List Nat := refs.filterMap h.slot?

def cellWord (h : Heap) (c : Cell) : Int32 := if c.2 then h.refWord ⟨c.1⟩ else c.1

def cellTarget (h : Heap) (c : Cell) : Option Nat := if c.2 then h.slot? ⟨c.1⟩ else none

theorem slot?_eq_some_iff {h : Heap} {r : Ref} {i : Nat} :
    h.slot? r = some i ↔ r.index? = some i ∧ h.arena.contains i = true := by
  unfold slot?
  rw [Option.filter_eq_some_iff]

theorem slot?_eq_none_of_isNull {h : Heap} {r : Ref} (hr : r.isNull = true) : h.slot? r = none := by
  unfold slot?
  rw [(Ref.index?_eq_none_iff r).mpr hr]
  rfl

theorem get?_eq_bind_slot? (h : Heap) (r : Ref) : h.get? r = (h.slot? r).bind h.arena.get? := by
  unfold get? slot?
  cases r.index? with
  | none => rfl
  | some i =>
    cases hi : h.arena.get? i <;> simp [Option.filter, Arena.contains_eq, hi]

theorem refWord_eq (h : Heap) (r : Ref) : h.refWord r = (h.nameOf? r).elim (-1) wordOf := by
  unfold refWord nameOf?
  cases h.get? r <;> rfl

theorem elim_refWord (h : Heap) (o : Option Ref) :
    o.elim (-1) h.refWord = (o.bind h.nameOf?).elim (-1) wordOf := by
  cases o with
  | none => rfl
  | some r => exact h.refWord_eq r

theorem map_refWord (h : Heap) (l : List Ref) :
    l.map h.refWord = (l.map h.nameOf?).map fun n => n.elim (-1) wordOf := by
  rw [List.map_map]
  exact List.map_congr_left fun r _ => h.refWord_eq r

theorem fieldWords_eq (h : Heap) (f : Fields) : h.fieldWords f = f.cells.map h.cellWord := by
  simp [fieldWords, Fields.cells, cellWord, Function.comp_def]

theorem frameWords_eq (h : Heap) (f : Frame) :
    h.frameWords f =
      wordOf f.method :: f.pc.elim (-1) wordOf :: wordOf f.slots.size :: f.cells.map h.cellWord := by
  simp [frameWords, Frame.cells, cellWord, Function.comp_def]

theorem targets_cellReferences (h : Heap) (l : List Cell) :
    h.targets (Cell.references l) = l.filterMap h.cellTarget := by
  unfold targets Cell.references
  induction l with
  | nil => rfl
  | cons c l ih =>
    rw [List.filter_cons, List.filterMap_cons]
    cases hc : c.2 with
    | false =>
      simp only [cellTarget, hc, Bool.false_and, Bool.false_eq_true, if_false]
      exact ih
    | true =>
      cases hv : (Ref.mk c.1).isNull with
      | true =>
        have hnone : h.slot? ⟨c.1⟩ = none := slot?_eq_none_of_isNull hv
        simp only [cellTarget, hc, Bool.not_true, Bool.and_false, Bool.false_eq_true, if_false,
          if_true, hnone]
        exact ih
      | false =>
        simp only [cellTarget, hc, Bool.not_false, Bool.and_true, if_true, List.map_cons,
          List.filterMap_cons]
        rw [ih]

theorem targets_fieldReferences (h : Heap) (f : Fields) :
    h.targets f.references = f.cells.filterMap h.cellTarget := by
  rw [Fields.references_eq, targets_cellReferences]

theorem targets_frameReferences (h : Heap) (f : Frame) :
    h.targets f.references = f.cells.filterMap h.cellTarget := by
  rw [Frame.references_eq, targets_cellReferences]

end Heap

end Interleave
