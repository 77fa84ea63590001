import Interleave.BoxCache
import Interleave.Proofs.Reference.Room

/-!
What observers are told while nothing is freed. Every operation other than a collection is a sequence of
steps each of which either makes one object and tells so, or makes none and tells nothing of any.
-/

namespace Interleave

namespace Heap

structure Seated (h : Heap) : Prop where
  orderly : h.Orderly
  packed : h.arena.Packed
  denoted : ∀ i, h.arena.contains i = true → i < maxSize

structure Unmoved (h h' : Heap) : Prop where
  slots : ∀ i, h'.arena.contains i = h.arena.contains i
  size : h'.size = h.size
  orderly : h.Orderly → h'.Orderly
  packed : h.arena.Packed → h'.arena.Packed

variable {h h' : Heap}

theorem contains_place (hlt : h.arena.nextFree < maxSize) (build : Ref → Element) (r : Ref) :
    (h.place build).2.contains r = (h.contains r || decide (r = .ofIndex h.arena.nextFree)) := by
  have hr : r.index? = some h.arena.nextFree ↔ r = .ofIndex h.arena.nextFree :=
    ⟨fun hi => Ref.eq_of_index? hi (Ref.index?_ofIndex hlt), fun heq => heq ▸ Ref.index?_ofIndex hlt⟩
  unfold contains
  rw [get?_place]
  split
  · next hi => simp [hr.mp hi]
  · next hi => simp [mt hr.mpr hi]

theorem not_contains_nextFree (hlt : h.arena.nextFree < maxSize) :
    h.contains (.ofIndex h.arena.nextFree) = false := by
  unfold contains
  rw [get?_eq_none_of_nextFree (Ref.index?_ofIndex hlt)]
  rfl

namespace Seated

theorem nextFree_lt (hh : h.Seated) (build : Ref → Element) (hsize : (h.place build).2.size ≤ maxSize) :
    h.arena.nextFree < maxSize := by
  rw [size_place] at hsize
  exact Roomy.nextFree_lt (n := 0) ⟨hh.packed, hh.orderly.tallied, hsize⟩

theorem place (hh : h.Seated) {build : Ref → Element} (href : ∀ r, (build r).ref = r)
    (hsize : (h.place build).2.size ≤ maxSize) : (h.place build).2.Seated where
  orderly := hh.orderly.place href
  packed := (h.lasts_place build).packed hh.packed
  denoted := by
    intro i hi
    obtain ⟨e, he⟩ := (Arena.contains_iff _ i).mp hi
    rw [arena_place] at he
    split at he
    · next heq => exact heq ▸ hh.nextFree_lt build hsize
    · exact hh.denoted i (Arena.contains_of_get? he)

theorem unmoved (hh : h.Seated) (hu : h.Unmoved h') : h'.Seated where
  orderly := hu.orderly hh.orderly
  packed := hu.packed hh.packed
  denoted := fun i hi => hh.denoted i (hu.slots i ▸ hi)

end Seated

namespace Unmoved

theorem refl (h : Heap) : h.Unmoved h := ⟨fun _ => rfl, rfl, id, id⟩

theorem contains (hu : h.Unmoved h') (r : Ref) : h'.contains r = h.contains r := by
  rw [contains_eq, contains_eq, funext hu.slots]

theorem put {o : Ref} {e e' : Element} (he : h.get? o = some e) (href : e'.ref = e.ref) :
    h.Unmoved (h.put o e') where
  slots := by
    intro i
    unfold Heap.put
    split
    · exact Arena.contains_replace _ _ _ _
    · rfl
  size := h.size_put o e'
  orderly := fun ho => ho.put he href
  packed := (h.lasts_put o e').packed

theorem setOutOfMemory (h : Heap) (flag : Bool) : h.Unmoved (h.setOutOfMemory flag) where
  slots := fun i => by rw [arena_setOutOfMemory]
  size := congrArg Arena.live (h.arena_setOutOfMemory flag)
  orderly := fun ho => ho.setOutOfMemory flag
  packed := (h.lasts_setOutOfMemory flag).packed

end Unmoved

end Heap

namespace Kernel

variable {k k' : Kernel}

inductive Note (k : Kernel) : Kernel → Prop where
  | still {k' : Kernel} (hheap : k.heap.Unmoved k'.heap) (hobservers : k'.observers = k.observers) : Note k k'
  | tell {k' : Kernel} (e : Event) (he : e.subject? = none) (hheap : k'.heap = k.heap)
    (hobservers : k'.observers = k.observers.tell e) : Note k k'
  | create {k' : Kernel} (build : Ref → Element) (href : ∀ r, (build r).ref = r) (creator : Option ThreadId)
    (hheap : k'.heap = (k.heap.place build).2)
    (hobservers : k'.observers = k.observers.tell (.created creator (.ofIndex k.heap.arena.nextFree))) : Note k k'

abbrev Notes : Kernel → Kernel → Prop := Relation.ReflTransGen Note

theorem notes_still (hheap : k'.heap = k.heap) (hobservers : k'.observers = k.observers) : Notes k k' :=
  .single (.still (hheap ▸ .refl k.heap) hobservers)

theorem notes_tell {e : Event} (he : e.subject? = none) : Notes k (k.tell e) := .single (.tell e he rfl rfl)

theorem notes_register (k : Kernel) (c : ClassDescriptor) : Notes k (k.register c).2 := notes_still rfl rfl

theorem notes_put {o : Ref} {e e' : Element} (he : k.heap.get? o = some e) (href : e'.ref = e.ref) :
    Notes k { k with heap := k.heap.put o e' } :=
  .single (.still (.put he href) rfl)

theorem notes_stirs {calm : Prop} (h : k.Stirs calm k') : Notes k k' := by
  induction h with
  | refl => exact .refl
  | tail _ h ih =>
    apply ih.trans
    cases h with
    | tell e he => exact notes_tell he
    | monitor f he => exact notes_put he rfl
    | thread => exact notes_still rfl rfl
    | atomic => exact notes_still rfl rfl

end Kernel

def Op.isCandid : Op → Bool
  | .tell e => e.subject?.isNone
  | _ => true

namespace Kernel

variable {k k' : Kernel}

theorem Part.notes {op : Op} {proper : Prop} (hop : op.isCandid = true) (hcollect : op ≠ .collect)
    (h : Part op proper k k') : Notes k k' := by
  cases h with
  | tell e he =>
    apply notes_tell
    obtain he | rfl := he
    · exact he
    · exact Option.isNone_iff_eq_none.mp hop
  | name h =>
    obtain ⟨thread, -, -, rfl⟩ := newGlobalId_eq_ok.mp h
    exact notes_still rfl rfl
  | object h hbuild =>
    obtain ⟨thread, -, -, rfl⟩ := newGlobalId_eq_ok.mp h
    exact .single (.create _ hbuild.ref _ rfl rfl)
  | thread _ h hbuild =>
    obtain ⟨thread, -, -, rfl⟩ := newGlobalId_eq_ok.mp h
    exact .single (.create _ hbuild.ref _ rfl rfl)
  | load _ _ _ hbuild => exact .single (.create _ hbuild.ref none rfl rfl)
  | write _ he hkept => exact notes_put he hkept.ref
  | flag flag => exact .single (.still (.setOutOfMemory _ flag) rfl)
  | collect heq => exact absurd heq hcollect
  | strings | capture => exact .single (.still ⟨fun _ => rfl, rfl, fun ho => ⟨ho.tallied, ho.ref⟩, id⟩ rfl)
  | track | register | writeStatic => exact notes_still rfl rfl

theorem Parts.notes {op : Op} {proper : Prop} (hop : op.isCandid = true) (hcollect : op ≠ .collect)
    (h : Parts op proper k k') : Notes k k' := by
  induction h with
  | refl => exact .refl
  | tail _ h ih => exact ih.trans (h.notes hop hcollect)

theorem notes_perform {op : Op} (hop : op.isCandid = true) (hcollect : op ≠ .collect) (h : k.perform op = .ok k') :
    Notes k k' := by
  cases hs : op.stirs with
  | true => exact notes_stirs (@perform_stirs False _ _ _ hs False.elim h)
  | false => exact (@perform_parts op False _ _ hs h False.elim False.elim).notes hop hcollect

theorem notes_newBox {t : ThreadId} {kind : BoxKind} {v : Int64} {r : Except KernelError Ref}
    (h : k.newBox t kind v = .ok (r, k')) : Notes k k' := by
  unfold newBox at h
  obtain ⟨⟨box, k₁⟩, h₁, h⟩ := bind_eq_ok.mp h
  have hobject : Notes (k.register kind.boxClass).2 k₁ :=
    @notes_perform _ _ (.newObject (k.register kind.boxClass).1 (some t) none) rfl nofun
      (snd_eq_ok.mpr ⟨box, h₁⟩)
  have hmade := (notes_register k kind.boxClass).trans hobject
  cases kind
  all_goals obtain ⟨⟨r₁, k₂⟩, h₂, h⟩ := bind_eq_ok.mp h
  case long =>
    cases h
    exact hmade.trans (@notes_perform _ _ (.writeField box "value" (.long v)) rfl nofun
      (snd_eq_ok.mpr ⟨r₁, h₂⟩))
  all_goals
    cases h
    exact hmade.trans (@notes_perform _ _ (.writeField box "value" (.int v.toInt32)) rfl nofun
      (snd_eq_ok.mpr ⟨r₁, h₂⟩))

theorem notes_fillBoxes {t : ThreadId} {kind : BoxKind} {array : Ref} {slot : Nat} {values : List Int64}
    {r : Except KernelError Unit} (h : k.fillBoxes t kind array slot values = .ok (r, k')) : Notes k k' := by
  induction values generalizing k slot with
  | nil =>
    cases h
    exact .refl
  | cons v values ih =>
    unfold fillBoxes at h
    obtain ⟨⟨r₁, k₁⟩, h₁, h⟩ := bind_eq_ok.mp h
    apply (notes_newBox h₁).trans
    cases r₁ with
    | error e =>
      cases h
      exact .refl
    | ok box =>
      obtain ⟨k₂, h₂, h⟩ := bind_eq_ok.mp h
      exact (@notes_perform _ _ (.writeSlot array slot (.ref box)) rfl nofun h₂).trans (ih h)

theorem notes_newBoxArray {b : BoxBounds} {t : ThreadId} {kind : BoxKind} {r : Except KernelError Ref}
    (h : k.newBoxArray b t kind = .ok (r, k')) : Notes k k' := by
  unfold newBoxArray at h
  obtain ⟨⟨array, k₁⟩, h₁, h⟩ := bind_eq_ok.mp h
  obtain ⟨⟨r₁, k₂⟩, h₂, h⟩ := bind_eq_ok.mp h
  cases h
  exact (@notes_perform _ _ (.newArray .reference _ (some t) none) rfl nofun
    (snd_eq_ok.mpr ⟨array, h₁⟩)).trans (notes_fillBoxes h₂)

theorem notes_boxArray {b : BoxBounds} {t : ThreadId} {kind : BoxKind} {r : Except KernelError Ref}
    (h : k.boxArray b t kind = .ok (r, k')) : Notes k k' := by
  unfold boxArray at h
  obtain ⟨k₁, h₁, h⟩ := bind_eq_ok.mp h
  obtain ⟨found, -, h⟩ := bind_eq_ok.mp h
  have hloaded : Notes (k.register BoxKind.cachesClass).2 k₁ :=
    @notes_perform _ _ (.load (k.register BoxKind.cachesClass).1) rfl nofun h₁
  apply ((notes_register k BoxKind.cachesClass).trans hloaded).trans
  split at h
  · cases h
    exact .refl
  · split at h
    · obtain ⟨⟨r₂, k₂⟩, h₂, h⟩ := bind_eq_ok.mp h
      apply (notes_newBoxArray h₂).trans
      cases r₂ with
      | error e =>
        cases h
        exact .refl
      | ok array =>
        obtain ⟨⟨r₃, k₃⟩, h₃, h⟩ := bind_eq_ok.mp h
        cases h
        exact @notes_perform _ _ (.writeStatic (k.register BoxKind.cachesClass).1 kind.cacheField (.ref array))
          rfl nofun (snd_eq_ok.mpr ⟨r₃, h₃⟩)
    · cases h
      exact .refl

theorem notes_box {b : BoxBounds} {t : ThreadId} {kind : BoxKind} {v : Int64} {r : Except KernelError Ref}
    (h : k.box b t kind v = .ok (r, k')) : Notes k k' := by
  unfold box at h
  dsimp only at h
  split at h
  · exact notes_newBox h
  · obtain ⟨⟨r₁, k₁⟩, h₁, h⟩ := bind_eq_ok.mp h
    apply (notes_boxArray h₁).trans
    cases r₁ with
    | error e =>
      cases h
      exact .refl
    | ok array =>
      obtain ⟨e, -, h⟩ := bind_eq_ok.mp h
      obtain ⟨box, -, h⟩ := bind_eq_ok.mp h
      cases h
      exact .refl

end Kernel

end Interleave
