import Interleave.BoxCache
import Interleave.Proofs.Field.Independence
import Interleave.Proofs.Kernel.Initialization

/-!
Where boxes are kept. The class of the caches has one static field per kind of box, which refers to the
array of boxes or is null. Operations that do not write to these fields leave them alone, and all of them
are null before the class is loaded.
-/

namespace Interleave

namespace BoxKind

variable {kind kind' : BoxKind} {b : BoxBounds} {v : Int64}

def range : BoxKind → Int64 × Int64
  | boolean => (0, 1)
  | byte => (-0x80, 0x7F)
  | character => (0, 0xFFFF)
  | short => (-0x8000, 0x7FFF)
  | integer => (-0x80000000, 0x7FFFFFFF)
  | long => (.minValue, .maxValue)

def Has (kind : BoxKind) (v : Int64) : Prop := kind.range.1 ≤ v ∧ v ≤ kind.range.2

instance (kind : BoxKind) (v : Int64) : Decidable (kind.Has v) := inferInstanceAs (Decidable (_ ∧ _))

def Caches (kind : BoxKind) (b : BoxBounds) (v : Int64) : Prop :=
  (kind.bounds b).1 ≤ v ∧ v ≤ (kind.bounds b).2

instance (kind : BoxKind) (b : BoxBounds) (v : Int64) : Decidable (kind.Caches b v) :=
  inferInstanceAs (Decidable (_ ∧ _))

theorem has_of_caches (hb : b.validate = .ok ()) (h : kind.Caches b v) : kind.Has v := by
  have hrange : ∀ r ∈ b.ranges, r.2.2.2.1 ≤ r.2.1 ∧ r.2.2.1 ≤ r.2.2.2.2 := by
    intro r hr
    have hr := forM_eq_ok hb r hr
    dsimp only at hr
    split at hr
    · cases hr
    · next hwithin =>
      rw [not_or, not_or, Int64.not_lt, Int64.not_lt, Int64.not_lt] at hwithin
      exact hwithin.2
  have hwithin : kind.range.1 ≤ (kind.bounds b).1 ∧ (kind.bounds b).2 ≤ kind.range.2 := by
    cases kind with
    | boolean => exact ⟨Int64.le_refl _, Int64.le_refl _⟩
    | byte => exact hrange ("byte", b.byteLow, b.byteHigh, -0x80, 0x7F) (by simp [BoxBounds.ranges])
    | character => exact hrange ("char", 0, b.charHigh, 0, 0xFFFF) (by simp [BoxBounds.ranges])
    | short => exact hrange ("short", b.shortLow, b.shortHigh, -0x8000, 0x7FFF) (by simp [BoxBounds.ranges])
    | integer =>
      exact hrange ("int", b.intLow, b.intHigh, -0x80000000, 0x7FFFFFFF) (by simp [BoxBounds.ranges])
    | long =>
      exact hrange ("long", b.longLow, b.longHigh, Int64.minValue, Int64.maxValue) (by simp [BoxBounds.ranges])
  exact ⟨Int64.le_trans hwithin.1 h.1, Int64.le_trans h.2 hwithin.2⟩

def slot : BoxKind → Nat
  | boolean => 0
  | byte => 1
  | character => 2
  | short => 3
  | integer => 4
  | long => 5

theorem slot_inj (h : kind.slot = kind'.slot) : kind = kind' := by
  revert h
  cases kind <;> cases kind' <;> decide

theorem lookup?_cacheField (kind : BoxKind) :
    cachesClass.statics.lookup? kind.cacheField = some (kind.slot, .reference) := by
  cases kind <;> decide +kernel

theorem mem_placed (kind : BoxKind) :
    (⟨kind.cacheField, .reference⟩, kind.slot) ∈ cachesClass.statics.placed := by
  cases kind <;> decide +kernel

def classes : List ClassDescriptor := cachesClass :: all.map boxClass

theorem boxClass_mem (kind : BoxKind) : kind.boxClass ∈ classes := by
  cases kind <;> decide +kernel

theorem className_inj (h : kind.className = kind'.className) : kind = kind' := by
  revert h
  cases kind <;> cases kind' <;> decide +kernel

end BoxKind

namespace Registry

variable {r r' : Registry} {c desc : ClassDescriptor} {i : ClassId}

def ReservesBoxes (r : Registry) : Prop :=
  ∀ c ∈ BoxKind.classes, ∀ desc ∈ r.classes.toList, desc.name = c.name → desc = { c with id := desc.id }

instance (r : Registry) : Decidable r.ReservesBoxes :=
  inferInstanceAs (Decidable (∀ c ∈ BoxKind.classes, ∀ desc ∈ r.classes.toList, _))

namespace ReservesBoxes

theorem eq_of_name (hr : r.ReservesBoxes) (hids : r.Numbered) (hc : c ∈ BoxKind.classes)
    (hi : r.classes[i]? = some desc) (hname : desc.name = c.name) : desc = { c with id := i } := by
  have hmem : desc ∈ r.classes.toList := List.mem_of_getElem? (by rwa [Array.getElem?_toList])
  rw [hr c hc desc hmem hname, hids i desc hi]

theorem register (hr : r.ReservesBoxes)
    (hc : c ∈ BoxKind.classes ∨ ∀ c' ∈ BoxKind.classes, c.name ≠ c'.name) :
    (r.register c).2.ReservesBoxes := by
  have hunique : ∀ c ∈ BoxKind.classes, ∀ c' ∈ BoxKind.classes, c.name = c'.name → c = c' := by
    decide +kernel
  unfold Registry.register
  split
  · exact hr
  · intro c' hc' desc hdesc hname
    rw [Array.toList_push, List.mem_append, List.mem_singleton] at hdesc
    rcases hdesc with hdesc | rfl
    · exact hr c' hc' desc hdesc hname
    · rcases hc with hc | hc
      · rw [hunique c hc c' hc' hname]
      · exact absurd hname (hc c' hc')

theorem getElem?_register (hr : r.ReservesBoxes) (hids : r.Numbered) (hc : c ∈ BoxKind.classes) :
    (r.register c).2.classes[(r.register c).1]? = some { c with id := (r.register c).1 } := by
  obtain ⟨desc, hdesc, hname⟩ := r.getElem?_register c
  rw [hdesc, (hr.register (.inl hc)).eq_of_name (hids.register c) hc hdesc hname]

end ReservesBoxes

theorem getElem?_of_lookup? {name : String} (h : r.lookup? name = some i) :
    ∃ desc, r.classes[i]? = some desc ∧ desc.name = name := by
  unfold lookup? at h
  obtain ⟨hlt, hname, -⟩ := Array.findIdx?_eq_some_iff_getElem.mp h
  exact ⟨_, Array.getElem?_eq_getElem hlt, by simpa using hname⟩

theorem exists_lookup? {name : String} (hi : r.classes[i]? = some desc) (hname : desc.name = name) :
    ∃ j, r.lookup? name = some j := by
  unfold lookup?
  rw [← Option.isSome_iff_exists, Array.findIdx?_isSome, Array.any_eq_true]
  obtain ⟨hlt, rfl⟩ := Array.getElem?_eq_some_iff.mp hi
  exact ⟨i, hlt, by simpa using hname⟩

end Registry

def Statics.Spares (c : ClassId) (s s' : Statics) : Prop :=
  (s'.get? c).map (·.fields) = (s.get? c).map (·.fields) ∨
    s.get? c = none ∧ ∃ e mask, s'.get? c = some e ∧ e.fields = .ofMask mask

theorem Statics.Change.spares {op : Op} {s s' : Statics} (h : Change op s s') {c : ClassId}
    (hop : ∀ name v, op ≠ .writeStatic c name v) : s.Spares c s' := by
  cases h with
  | same h => exact .inl (by rw [h])
  | load desc gid classObject h =>
    subst h
    unfold Statics.addClass
    split
    · exact .inl rfl
    · next hnew =>
      by_cases hc : desc.id = c
      · subst hc
        refine .inr ⟨Arena.get?_eq_none_of_not_contains (Bool.eq_false_iff.mpr hnew), _, desc.statics.refMask,
          (s.arena.get?_insert ..).trans (if_pos rfl), rfl⟩
      · exact .inl (congrArg _ ((s.arena.get?_insert ..).trans (if_neg hc)))
  | @status c' status e classObject hop' he h =>
    left
    rw [h, get?_put]
    split
    · next hc =>
      subst hc
      rw [he]
      rfl
    · rfl
  | @write c' name v e fields hop' he h =>
    left
    rw [h, get?_put, if_neg]
    rintro rfl
    exact hop name v hop'

namespace Kernel

variable {k k' : Kernel} {c : ClassId} {e : Element} {kind : BoxKind} {array : Ref}

def caches (k : Kernel) : Fields :=
  ((k.classes.lookup? BoxKind.cachesClass.name).bind k.statics.get?).elim
    (.ofMask BoxKind.cachesClass.statics.refMask) (·.fields)

theorem caches_of_get? (hc : k.classes.lookup? BoxKind.cachesClass.name = some c)
    (he : k.statics.get? c = some e) : k.caches = e.fields := by
  unfold caches
  rw [hc, Option.bind_some, he]
  rfl

theorem caches_of_none (hc : k.classes.lookup? BoxKind.cachesClass.name = some c)
    (he : k.statics.get? c = none) : k.caches = .ofMask BoxKind.cachesClass.statics.refMask := by
  unfold caches
  rw [hc, Option.bind_some, he]
  rfl

theorem getElem?_caches (hk : k.Conforms) (hr : k.classes.ReservesBoxes)
    (hc : k.classes.lookup? BoxKind.cachesClass.name = some c) :
    k.classes.classes[c]? = some { BoxKind.cachesClass with id := c } := by
  obtain ⟨desc, hdesc, hname⟩ := Registry.getElem?_of_lookup? hc
  rw [hdesc, hr.eq_of_name hk.ids List.mem_cons_self hdesc hname]

theorem fits_caches (hk : k.Conforms) (hr : k.classes.ReservesBoxes) :
    k.caches.Fits BoxKind.cachesClass.statics := by
  cases hc : k.classes.lookup? BoxKind.cachesClass.name with
  | none =>
    unfold caches
    rw [hc]
    exact Fields.marks_ofMask _
  | some c =>
    cases he : k.statics.get? c with
    | none =>
      rw [caches_of_none hc he]
      exact Fields.marks_ofMask _
    | some e =>
      rw [caches_of_get? hc he]
      obtain ⟨desc, hdesc, hmarks⟩ := hk.statics c e he
      rw [getElem?_caches hk hr hc] at hdesc
      cases hdesc
      exact hmarks

theorem caches_eq (hk : k.Conforms) (hk' : k'.Conforms) (hr : k'.classes.ReservesBoxes)
    (hle : k.classes.classes.toList <+: k'.classes.classes.toList)
    (hspares : ∀ c, k'.classes.lookup? BoxKind.cachesClass.name = some c → k.statics.Spares c k'.statics) :
    k'.caches = k.caches := by
  have hmono : ∀ c, k.classes.lookup? BoxKind.cachesClass.name = some c →
      k'.classes.lookup? BoxKind.cachesClass.name = some c := fun _ => findIdx?_mono hle
  cases hc : k'.classes.lookup? BoxKind.cachesClass.name with
  | none =>
    have hnone : k.classes.lookup? BoxKind.cachesClass.name = none := by
      cases hc₀ : k.classes.lookup? BoxKind.cachesClass.name with
      | none => rfl
      | some c₀ =>
        rw [hmono c₀ hc₀] at hc
        cases hc
    unfold caches
    rw [hc, hnone]
    rfl
  | some c =>
    -- a class with a static slot is registered, and has been before if the slot is not new
    have hknown : ∀ e, k.statics.get? c = some e →
        k.classes.lookup? BoxKind.cachesClass.name = some c := by
      intro e he
      obtain ⟨desc, hdesc, -⟩ := hk.statics c e he
      have hdesc' := Registry.getElem?_of_prefix hle hdesc
      rw [getElem?_caches hk' hr hc] at hdesc'
      cases hdesc'
      obtain ⟨c₀, hc₀⟩ := Registry.exists_lookup? hdesc rfl
      have hc' := hmono c₀ hc₀
      rw [hc] at hc'
      cases hc'
      exact hc₀
    have hblank : k.statics.get? c = none → k.caches = .ofMask BoxKind.cachesClass.statics.refMask := by
      intro hnone
      cases hc₀ : k.classes.lookup? BoxKind.cachesClass.name with
      | none =>
        unfold caches
        rw [hc₀]
        rfl
      | some c₀ =>
        have hc' := hmono c₀ hc₀
        rw [hc] at hc'
        cases hc'
        exact caches_of_none hc₀ hnone
    rcases hspares c hc with hsame | ⟨hnone, e', mask, he', hfields⟩
    · cases he : k.statics.get? c with
      | none =>
        rw [he, Option.map_none, Option.map_eq_none_iff] at hsame
        rw [caches_of_none hc hsame, hblank he]
      | some e =>
        rw [he, Option.map_some, Option.map_eq_some_iff] at hsame
        obtain ⟨e', he', hfields⟩ := hsame
        rw [caches_of_get? hc he', caches_of_get? (hknown e he) he, hfields]
    · have hfits := fits_caches hk' hr
      rw [caches_of_get? hc he', hfields] at hfits ⊢
      have hmask : mask = BoxKind.cachesClass.statics.refMask := (Fields.marks_ofMask mask).symm.trans hfits
      rw [hmask, hblank hnone]

end Kernel

end Interleave
