import Interleave.Proofs.Arena
import Interleave.Proofs.Encoding.Correspondence
import Mathlib.Logic.Equiv.Basic
import Mathlib.Tactic.IntervalCases

/-!
Layout independence. Objects may be moved to other slots, as long as the references to them are moved
along, and what the encoding does not reach may be anything: the encoding stays the same.
-/

namespace Interleave

/-- A permutation of the slots. The slots that a reference can denote are moved among themselves. -/
structure Renaming where
  perm : Equiv.Perm Nat
  fits : ∀ i, perm i < 0x80000000 ↔ i < 0x80000000

variable (π : Renaming)

def Ref.rename (r : Ref) : Ref :=
  match r.index? with
  | some i => .ofIndex (π.perm i)
  | none => r

def Cell.rename (c : Cell) : Cell := (if c.2 then (Ref.rename π ⟨c.1⟩).slot else c.1, c.2)

def Fields.rename (f : Fields) : Fields :=
  { f with values := f.values.mapIdx fun i v => (Cell.rename π (v, f.isReference i)).1 }

def Frame.rename (f : Frame) : Frame :=
  { f with slots := f.slots.mapIdx fun i v => (Cell.rename π (v, f.isReference i)).1 }

def ElementKind.rename : ElementKind → ElementKind
  | .static status classObject => .static status (classObject.rename π)
  | kind => kind

structure Element.Renamed (e e' : Element) : Prop where
  gid : e'.gid = e.gid
  classId : e'.classId = e.classId
  kind : e'.kind = e.kind.rename π
  fields : e'.fields = e.fields.rename π

structure Thread.Renamed (t t' : Thread) : Prop where
  object : t'.object = t.object.rename π
  frames : t'.frames.toList = t.frames.toList.map (Frame.rename π)
  gid : t'.gid = t.gid
  state : t'.state = t.state
  interrupted : t'.interrupted = t.interrupted
  suspended : t'.suspended = t.suspended
  permit : t'.permit = t.permit
  lockObject : t'.lockObject = t.lockObject.map (Ref.rename π)
  locked : t'.lockedObjects.Perm (t.lockedObjects.map (Ref.rename π))

inductive Heap.Reaches (h : Heap) (refs : List Ref) : Nat → Prop where
  | root {i : Nat} (hi : i ∈ h.targets refs) : Reaches h refs i
  | step {i j : Nat} (hi : Reaches h refs i) (hj : j ∈ h.targets (h.referencesAt i)) :
    Reaches h refs j

theorem Heap.Reaches.contains {h : Heap} {refs : List Ref} {i : Nat} (hi : h.Reaches refs i) :
    h.arena.contains i = true := by
  cases hi with
  | root hi => exact contains_of_mem_targets hi
  | step _ hj => exact contains_of_mem_targets hj

def Kernel.Relevant (k : Kernel) (i : Nat) : Prop :=
  k.heap.Reaches k.encodingRoots i ∨
    ∃ t ∈ k.threads.toList, ∃ r ∈ t.lockObject.toList ++ t.lockedObjects, k.heap.slot? r = some i

/-- `k'` is `k` with every object moved to another slot, where objects that are relevant in neither
of the two states may have been added, removed or changed. -/
structure Kernel.Relayout (k k' : Kernel) : Prop where
  threads : List.Forall₂ (Thread.Renamed π) k.threads.toList k'.threads.toList
  loaded : k'.statics.size = k.statics.size
  statics : List.Forall₂ (Element.Renamed π) k.statics.elements k'.statics.elements
  objects : ∀ i, k.Relevant i ∨ k'.Relevant (π.perm i) →
    Option.Rel (Element.Renamed π) (k.heap.arena.get? i) (k'.heap.arena.get? (π.perm i))
  outOfMemory : k'.heap.outOfMemory = k.heap.outOfMemory
  atomic : k'.atomic = k.atomic

theorem Ref.index?_rename (r : Ref) : (r.rename π).index? = r.index?.map π.perm := by
  unfold rename
  split
  · next i hi =>
    rw [hi, Ref.index?_ofIndex ((π.fits i).mpr (Ref.lt_of_index?_eq_some hi))]
    rfl
  · next hnone =>
    rw [hnone]
    rfl

theorem Ref.isNull_rename (r : Ref) : (r.rename π).isNull = r.isNull := by
  rw [Bool.eq_iff_iff, ← Ref.index?_eq_none_iff, ← Ref.index?_eq_none_iff, Ref.index?_rename,
    Option.map_eq_none_iff]

theorem Fields.cells_rename (f : Fields) : (f.rename π).cells = f.cells.map (Cell.rename π) := by
  have hmark : ∀ i, (f.rename π).isReference i = f.isReference i := by
    intro i
    have hsize : (f.rename π).size = f.size := by simp [size, rename]
    unfold isReference
    rw [hsize]
    rfl
  apply List.ext_getElem?
  intro i
  rw [List.getElem?_map, getElem?_cells, getElem?_cells, hmark]
  simp [rename, Cell.rename, Function.comp_def]

theorem Frame.cells_rename (f : Frame) : (f.rename π).cells = f.cells.map (Cell.rename π) := by
  have hmark : ∀ i, (f.rename π).isReference i = f.isReference i := fun _ => rfl
  apply List.ext_getElem?
  intro i
  rw [List.getElem?_map, getElem?_cells, getElem?_cells, hmark]
  simp [rename, Cell.rename, Function.comp_def]

theorem Cell.references_rename (l : List Cell) :
    references (l.map (Cell.rename π)) = (references l).map (Ref.rename π) := by
  have hkeep : (fun c : Cell => c.2 && !(Ref.mk c.1).isNull) ∘ Cell.rename π =
      fun c => c.2 && !(Ref.mk c.1).isNull := by
    funext c
    cases hc : c.2 with
    | false => simp [Cell.rename, hc]
    | true => simpa [Cell.rename, hc] using Ref.isNull_rename π ⟨c.1⟩
  unfold references
  rw [List.filter_map, hkeep, List.map_map, List.map_map]
  apply List.map_congr_left
  intro c hc
  rw [List.mem_filter, Bool.and_eq_true] at hc
  simp [Cell.rename, hc.2.1]

theorem Fields.references_rename (f : Fields) :
    (f.rename π).references = f.references.map (Ref.rename π) := by
  rw [references_eq, references_eq, cells_rename, Cell.references_rename]

theorem Frame.references_rename (f : Frame) :
    (f.rename π).references = f.references.map (Ref.rename π) := by
  rw [references_eq, references_eq, cells_rename, Cell.references_rename]

theorem Element.Renamed.classObject? {e e' : Element} (he : e.Renamed π e') :
    e'.classObject? = e.classObject?.map (Ref.rename π) := by
  unfold Element.classObject?
  rw [he.kind]
  cases e.kind with
  | object => rfl
  | array => rfl
  | static status r =>
    simp only [ElementKind.rename, Ref.isNull_rename]
    split <;> rfl

theorem forall₂_imp_of_mem {α β : Type} {R S : α → β → Prop} {l : List α} {l' : List β}
    (h : List.Forall₂ R l l') (himp : ∀ a ∈ l, ∀ b ∈ l', R a b → S a b) : List.Forall₂ S l l' := by
  induction h with
  | nil => exact .nil
  | cons hab _ ih =>
    apply List.Forall₂.cons
    · exact himp _ (by simp) _ (by simp) hab
    · apply ih
      intro a ha b hb
      exact himp a (by simp [ha]) b (by simp [hb])

namespace Kernel

variable {k : Kernel} {i : Nat}

theorem reaches_thread {t : Thread} (ht : t ∈ k.threads.toList) (hi : i ∈ k.heap.threadTargets t) :
    k.heap.Reaches k.encodingRoots i := by
  apply Heap.Reaches.root
  rw [targets_encodingRoots, List.mem_append, List.mem_flatMap]
  exact .inl ⟨t, ht, hi⟩

theorem reaches_static {e : Element} (he : e ∈ k.statics.elements) (hi : i ∈ k.heap.staticTargets e) :
    k.heap.Reaches k.encodingRoots i := by
  apply Heap.Reaches.root
  rw [targets_encodingRoots, List.mem_append, List.mem_flatMap, List.mem_flatMap]
  exact .inr ⟨e, he, hi⟩

theorem reaches_field {e : Element} {j : Nat} (hj : k.heap.Reaches k.encodingRoots j)
    (he : k.heap.arena.get? j = some e) (hi : i ∈ e.fields.cells.filterMap k.heap.cellTarget) :
    k.heap.Reaches k.encodingRoots i := by
  apply Heap.Reaches.step hj
  unfold Heap.referencesAt
  rw [he, Heap.targets_fieldReferences]
  exact hi

theorem encodingRoots_renamed {k k' : Kernel} (hk : k.Relayout π k') :
    k'.encodingRoots = k.encodingRoots.map (Ref.rename π) := by
  dsimp only [encodingRoots]
  rw [List.map_append, List.map_flatMap, List.map_flatMap]
  congr 1
  · symm
    apply flatMap_eq_of_forall₂ hk.threads
    intro t t' ht
    rw [ht.object, ht.frames, List.flatMap_map, List.map_cons, List.map_flatMap]
    congr 2
    funext f
    exact (Frame.references_rename π f).symm
  · symm
    apply flatMap_eq_of_forall₂ hk.statics
    intro e e' he
    rw [he.classObject?, he.fields, Fields.references_rename, List.map_append]
    cases e.classObject? <;> rfl

namespace Relayout

variable {π} {k' : Kernel} (hk : k.Relayout π k')

include hk

theorem contains_perm (hi : k.Relevant i ∨ k'.Relevant (π.perm i)) :
    k'.heap.arena.contains (π.perm i) = k.heap.arena.contains i := by
  have hrel := hk.objects i hi
  rw [Arena.contains_eq, Arena.contains_eq]
  generalize k.heap.arena.get? i = o at hrel
  generalize k'.heap.arena.get? (π.perm i) = o' at hrel
  cases hrel <;> rfl

theorem slot?_rename {r : Ref} (h : ∀ i, k.heap.slot? r = some i → k.Relevant i)
    (h' : ∀ i, k'.heap.slot? (r.rename π) = some i → k'.Relevant i) :
    k'.heap.slot? (r.rename π) = (k.heap.slot? r).map π.perm := by
  unfold Heap.slot? at h h' ⊢
  rw [Ref.index?_rename] at h' ⊢
  cases hr : r.index? with
  | none => rfl
  | some i =>
    rw [hr] at h h'
    simp only [Option.map_some, Option.filter_some] at h h' ⊢
    cases hc : k.heap.arena.contains i with
    | true =>
      have hi : k.Relevant i := h i (by simp [hc])
      simp [hk.contains_perm (.inl hi), hc]
    | false =>
      cases hc' : k'.heap.arena.contains (π.perm i) with
      | false => rfl
      | true =>
        have hi : k'.Relevant (π.perm i) := h' _ (by simp [hc'])
        rw [hk.contains_perm (.inr hi), hc] at hc'
        simp at hc'

theorem nameOf?_rename {r : Ref} (h : ∀ i, k.heap.slot? r = some i → k.Relevant i)
    (h' : ∀ i, k'.heap.slot? (r.rename π) = some i → k'.Relevant i) :
    k'.heap.nameOf? (r.rename π) = k.heap.nameOf? r := by
  unfold Heap.nameOf?
  rw [Heap.get?_eq_bind_slot?, Heap.get?_eq_bind_slot?, hk.slot?_rename h h']
  cases hs : k.heap.slot? r with
  | none => rfl
  | some i =>
    have hrel := hk.objects i (.inl (h i hs))
    simp only [Option.map_some, Option.bind_some]
    generalize k.heap.arena.get? i = o at hrel
    generalize k'.heap.arena.get? (π.perm i) = o' at hrel
    cases hrel with
    | none => rfl
    | some he => simp [he.gid]

theorem mem_targets_rename {refs : List Ref} (hi : i ∈ k.heap.targets refs) (hrel : k.Relevant i) :
    π.perm i ∈ k'.heap.targets (refs.map (Ref.rename π)) := by
  obtain ⟨r, hr, hs⟩ := List.mem_filterMap.mp hi
  obtain ⟨hindex, hc⟩ := Heap.slot?_eq_some_iff.mp hs
  apply List.mem_filterMap.mpr
  refine ⟨r.rename π, List.mem_map_of_mem hr, Heap.slot?_eq_some_iff.mpr ⟨?_, ?_⟩⟩
  · rw [Ref.index?_rename, hindex]
    rfl
  · rw [hk.contains_perm (.inl hrel), hc]

theorem referencesAt_perm (hrel : k.Relevant i) :
    k'.heap.referencesAt (π.perm i) = (k.heap.referencesAt i).map (Ref.rename π) := by
  have hobj := hk.objects i (.inl hrel)
  unfold Heap.referencesAt
  generalize k.heap.arena.get? i = o at hobj
  generalize k'.heap.arena.get? (π.perm i) = o' at hobj
  cases hobj with
  | none => rfl
  | some he =>
    dsimp only
    rw [he.fields, Fields.references_rename]

theorem reaches_perm (hi : k.heap.Reaches k.encodingRoots i) :
    k'.heap.Reaches k'.encodingRoots (π.perm i) := by
  induction hi with
  | root hi =>
    apply Heap.Reaches.root
    rw [encodingRoots_renamed π hk]
    exact hk.mem_targets_rename hi (.inl (.root hi))
  | step hi hj ih =>
    apply Heap.Reaches.step ih
    rw [hk.referencesAt_perm (.inl hi)]
    exact hk.mem_targets_rename hj (.inl (.step hi hj))

theorem ref_corresponds {r : Ref}
    (h : ∀ i, k.heap.slot? r = some i → k.heap.Reaches k.encodingRoots i)
    (h' : ∀ i, k'.heap.slot? (r.rename π) = some i → k'.heap.Reaches k'.encodingRoots i) :
    r.Corresponds k.heap k'.heap (fun i j => k.heap.Reaches k.encodingRoots i ∧ j = π.perm i)
      (r.rename π) := by
  unfold Ref.Corresponds
  rw [hk.slot?_rename (fun i hi => .inl (h i hi)) (fun i hi => .inl (h' i hi))]
  cases hs : k.heap.slot? r with
  | none => exact .none
  | some i => exact .some ⟨h i hs, rfl⟩

theorem cells_correspond {l : List Cell}
    (h : ∀ i ∈ l.filterMap k.heap.cellTarget, k.heap.Reaches k.encodingRoots i)
    (h' : ∀ i ∈ (l.map (Cell.rename π)).filterMap k'.heap.cellTarget,
      k'.heap.Reaches k'.encodingRoots i) :
    List.Forall₂ (Cell.Corresponds k.heap k'.heap
      fun i j => k.heap.Reaches k.encodingRoots i ∧ j = π.perm i) l (l.map (Cell.rename π)) := by
  rw [List.forall₂_map_right_iff, List.forall₂_same]
  intro c hc
  refine ⟨rfl, ?_, ?_⟩
  · intro htag
    simp [Cell.rename, htag]
  · intro htag
    have hslot : (Cell.rename π c).1 = (Ref.rename π ⟨c.1⟩).slot := by simp [Cell.rename, htag]
    rw [hslot]
    apply hk.ref_corresponds
    · intro i hi
      apply h
      rw [List.mem_filterMap]
      exact ⟨c, hc, by simpa [Heap.cellTarget, htag] using hi⟩
    · intro i hi
      apply h'
      rw [List.mem_filterMap]
      refine ⟨_, List.mem_map_of_mem hc, ?_⟩
      unfold Heap.cellTarget
      rw [hslot]
      simpa [Cell.rename, htag] using hi

theorem frame_corresponds {t t' : Thread} (ht : t ∈ k.threads.toList) (ht' : t' ∈ k'.threads.toList)
    (hframes : t'.frames.toList = t.frames.toList.map (Frame.rename π)) {f : Frame} (hf : f ∈ t.frames.toList) :
    f.Corresponds k.heap k'.heap (fun i j => k.heap.Reaches k.encodingRoots i ∧ j = π.perm i)
      (f.rename π) := by
  have hf' : f.rename π ∈ t'.frames.toList := by
    rw [hframes]
    exact List.mem_map_of_mem hf
  refine ⟨rfl, rfl, ?_⟩
  rw [Frame.cells_rename]
  apply hk.cells_correspond
  · intro i hi
    exact reaches_thread ht (List.mem_append_right _ (List.mem_flatMap.mpr ⟨f, hf, hi⟩))
  · intro i hi
    rw [← Frame.cells_rename] at hi
    exact reaches_thread ht' (List.mem_append_right _ (List.mem_flatMap.mpr ⟨_, hf', hi⟩))

theorem thread_alike {t t' : Thread} (ht : t ∈ k.threads.toList) (ht' : t' ∈ k'.threads.toList)
    (htt : t.Renamed π t') :
    t.Alike k.heap k'.heap (fun i j => k.heap.Reaches k.encodingRoots i ∧ j = π.perm i) t' := by
  -- monitors need not be reachable, only relevant
  have hname : ∀ r ∈ t.lockObject.toList ++ t.lockedObjects,
      k'.heap.nameOf? (r.rename π) = k.heap.nameOf? r := by
    intro r hr
    have hr' : r.rename π ∈ t'.lockObject.toList ++ t'.lockedObjects := by
      rw [List.mem_append] at hr ⊢
      cases hr with
      | inl hr =>
        rw [htt.lockObject, Option.toList_map]
        exact .inl (List.mem_map_of_mem hr)
      | inr hr => exact .inr (htt.locked.mem_iff.mpr (List.mem_map_of_mem hr))
    apply hk.nameOf?_rename
    · intro i hi
      exact .inr ⟨t, ht, r, hr, hi⟩
    · intro i hi
      exact .inr ⟨t', ht', _, hr', hi⟩
  refine ⟨?_, ?_, htt.gid.symm, htt.interrupted.symm, htt.suspended.symm,
    htt.permit.symm, ?_, ?_⟩
  · rw [htt.object]
    apply hk.ref_corresponds
    · intro i hi
      exact reaches_thread ht (by simp [Heap.threadTargets, hi])
    · intro i hi
      rw [← htt.object] at hi
      exact reaches_thread ht' (by simp [Heap.threadTargets, hi])
  · rw [htt.frames, List.forall₂_map_right_iff, List.forall₂_same]
    intro f hf
    exact hk.frame_corresponds ht ht' htt.frames hf
  · rw [htt.lockObject]
    cases hl : t.lockObject with
    | none => rfl
    | some r => exact (hname r (by simp [hl])).symm
  · have hnames : t.lockedObjects.map k.heap.nameOf? =
        (t.lockedObjects.map (Ref.rename π)).map k'.heap.nameOf? := by
      rw [List.map_map]
      apply List.map_congr_left
      intro r hr
      exact (hname r (List.mem_append_right _ hr)).symm
    rw [hnames]
    exact (htt.locked.map _).symm

theorem static_corresponds {e e' : Element} (he : e ∈ k.statics.elements)
    (he' : e' ∈ k'.statics.elements) (hee : e.Renamed π e') :
    e.StaticCorresponds k.heap k'.heap (fun i j => k.heap.Reaches k.encodingRoots i ∧ j = π.perm i)
      e' := by
  have hclass : e'.classRef? = e.classRef?.map (Ref.rename π) := by
    unfold Element.classRef?
    rw [hee.kind]
    cases e.kind <;> rfl
  refine ⟨hee.classId.symm, ?_, ?_, ?_⟩
  · unfold Element.status?
    rw [hee.kind]
    cases e.kind <;> rfl
  · rw [hclass]
    cases hr : e.classRef? with
    | none => exact .none
    | some r =>
      rw [hr] at hclass
      apply Option.Rel.some
      apply hk.ref_corresponds
      · intro i hi
        exact reaches_static he (by simp [Heap.staticTargets, hr, hi])
      · intro i hi
        exact reaches_static he' (by simp [Heap.staticTargets, hclass, hi])
  · rw [hee.fields, Fields.cells_rename]
    apply hk.cells_correspond
    · intro i hi
      exact reaches_static he (List.mem_append_right _ hi)
    · intro i hi
      rw [← Fields.cells_rename, ← hee.fields] at hi
      exact reaches_static he' (List.mem_append_right _ hi)

theorem object_corresponds (hi : k.heap.Reaches k.encodingRoots i) :
    ∃ e e', k.heap.arena.get? i = some e ∧ k'.heap.arena.get? (π.perm i) = some e' ∧
      e.Corresponds k.heap k'.heap (fun i j => k.heap.Reaches k.encodingRoots i ∧ j = π.perm i)
        e' := by
  have hlive := hi.contains
  have hobj := hk.objects i (.inl (.inl hi))
  rw [Arena.contains_eq] at hlive
  cases he : k.heap.arena.get? i with
  | none => simp [he] at hlive
  | some e =>
    cases he' : k'.heap.arena.get? (π.perm i) with
    | none =>
      rw [he, he'] at hobj
      cases hobj
    | some e' =>
      rw [he, he'] at hobj
      cases hobj with
      | some hee =>
        refine ⟨e, e', rfl, rfl, hee.gid.symm, hee.classId.symm, ?_, ?_⟩
        · unfold Element.length?
          rw [hee.kind]
          cases e.kind <;> rfl
        · rw [hee.fields, Fields.cells_rename]
          apply hk.cells_correspond
          · intro j hj
            exact reaches_field hi he hj
          · intro j hj
            rw [← Fields.cells_rename, ← hee.fields] at hj
            exact reaches_field (hk.reaches_perm hi) he' hj

theorem corresponds :
    k.Corresponds k' fun i j => k.heap.Reaches k.encodingRoots i ∧ j = π.perm i where
  unique := by
    constructor
    · intro i j i' hi hj
      exact π.perm.injective (hi.2.symm.trans hj.2)
    · intro i j j' hj hj'
      exact hj.2.trans hj'.2.symm
  objects := by
    intro i j hij
    rw [hij.2]
    exact hk.object_corresponds hij.1
  threads := forall₂_imp_of_mem hk.threads fun _ ht _ ht' => hk.thread_alike ht ht'
  loaded := hk.loaded.symm
  statics := forall₂_imp_of_mem hk.statics fun _ he _ he' => hk.static_corresponds he he'
  outOfMemory := hk.outOfMemory.symm
  owner := by
    apply atomicOwnerName_congr
    · rw [hk.atomic]
    · exact hk.threads.imp fun _ _ ht => ht.gid.symm
  states := map_eq_iff_forall₂.mpr (hk.threads.imp fun _ _ ht => ht.state.symm)

end Relayout

theorem encode_relayout (π : Renaming) (k k' : Kernel) (hk : k.Relayout π k') :
    k'.encode = k.encode := by
  exact hk.corresponds.encode_eq.symm

def twoOwned (thread other : Ref) (cells : Array (Option Element)) (owned : List Ref) : Kernel where
  heap := { arena := .ofCells cells }
  threads := { threads := #[{
    id := 0, gid := 0, name := "main", state := .running, object := thread, lockedObjects := owned,
    frames := #[{ method := 0, pc := some 2, slots := #[other.slot, 9], refs := ⟨1⟩, locals := 2 }] }] }

def swapFirst : Renaming where
  perm := Equiv.swap 0 1
  fits := by
    intro i
    rw [Equiv.swap_apply_def]
    split_ifs <;> omega

def objectAt (i : Nat) (gid : GlobalId) (fields : Fields) : Element :=
  .fresh (.ofIndex i) gid 1 .object fields none

theorem encode_relayout_swapFirst :
    let k := twoOwned ⟨0⟩ ⟨1⟩ #[some (objectAt 0 0 ⟨#[5], .mask #[false]⟩),
      some (objectAt 1 1 ⟨#[0, 7], .mask #[true, false]⟩)] [⟨0⟩, ⟨1⟩]
    let k' := twoOwned ⟨1⟩ ⟨0⟩ #[some (objectAt 0 1 ⟨#[1, 7], .mask #[true, false]⟩),
      some (objectAt 1 0 ⟨#[5], .mask #[false]⟩),
      some (objectAt 2 2 ⟨#[0, 3], .mask #[true, true]⟩)] [⟨0⟩, ⟨1⟩]
    k.Relayout swapFirst k' ∧ k'.encode = k.encode := by
  intro k k'
  -- the third object stays out of reach
  have hreach : ∀ i, k'.heap.Reaches k'.encodingRoots i → i < 2 := by
    intro i hi
    induction hi with
    | root hi =>
      have hroots : ∀ j ∈ k'.heap.targets k'.encodingRoots, j < 2 := by decide
      exact hroots _ hi
    | step _ hj ih =>
      have hfields : ∀ i < 2, ∀ j ∈ k'.heap.targets (k'.heap.referencesAt i), j < 2 := by decide
      exact hfields _ ih _ hj
  have hlive : ∀ i, k.Relevant i ∨ k'.Relevant (swapFirst.perm i) → i < 2 := by
    intro i hi
    have hperm : ∀ i, swapFirst.perm i < 2 → i < 2 := by
      intro i hi
      simp only [swapFirst, Equiv.swap_apply_def] at hi
      split_ifs at hi <;> omega
    cases hi with
    | inl hi =>
      apply Arena.lt_capacity_of_contains (a := k.heap.arena)
      rcases hi with hi | ⟨_, _, _, _, hi⟩
      · exact hi.contains
      · exact (Heap.slot?_eq_some_iff.mp hi).2
    | inr hi =>
      rcases hi with hi | ⟨t, ht, r, hr, hi⟩
      · exact hperm _ (hreach _ hi)
      · have howned : ∀ t ∈ k'.threads.toList, ∀ r ∈ t.lockObject.toList ++ t.lockedObjects,
            ∀ j ∈ k'.heap.slot? r, j < 2 := by decide
        exact hperm _ (howned t ht r hr _ hi)
  have h : k.Relayout swapFirst k' := by
    constructor
    · refine .cons ?_ .nil
      constructor <;> decide
    · rfl
    · change List.Forall₂ _ (Arena.elements {}) (Arena.elements {})
      rw [Arena.elements_empty]
      exact .nil
    · intro i hi
      have := hlive i hi
      interval_cases i <;> exact .some (by constructor <;> decide)
    · rfl
    · rfl
  exact ⟨h, encode_relayout _ _ _ h⟩

end Kernel

end Interleave
