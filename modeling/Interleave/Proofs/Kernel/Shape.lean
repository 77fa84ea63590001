import Interleave.Proofs.Heap.Collect
import Interleave.Proofs.Heap.Update
import Interleave.Proofs.Kernel.Stir

/-!
The shape of elements: how many slots they have and which of them hold references. The class of an
element is to say so, together with its length in the case of an array.
-/

namespace Interleave

def ValueKind.arrayMarks (elem : ValueKind) (length : Nat) : List Bool :=
  List.replicate (length * elem.width) elem.isReference

def Registry.Numbered (r : Registry) : Prop :=
  ∀ (c : ClassId) (desc : ClassDescriptor), r.classes[c]? = some desc → desc.id = c

structure Registry.Sound (r : Registry) : Prop where
  id : r.Numbered
  array : ∀ (c : ClassId) (desc : ClassDescriptor), r.classes[c]? = some desc →
    ∀ elem, desc.name = (ClassDescriptor.array elem).name ↔ desc.arrayOf = some elem

namespace Element

def IsInstance (r : Registry) (e : Element) : Prop :=
  ∃ desc, r.classes[e.classId]? = some desc ∧
    match e.kind with
    | .object => desc.arrayOf = none ∧ e.fields.marks = desc.instances.refMask
    | .array elem length => desc.arrayOf = some elem ∧ e.fields.marks = elem.arrayMarks length
    | .static _ _ => False

def FollowsClass (r : Registry) (e : Element) : Prop :=
  e.kind = .object → ∃ desc, r.classes[e.classId]? = some desc ∧ e.fields.marks = desc.instances.refMask

def IsStatic (e : Element) : Prop := ∃ status classObject, e.kind = .static status classObject

def IsStaticOf (r : Registry) (c : ClassId) (e : Element) : Prop :=
  e.classId = c ∧ e.IsStatic ∧ ∃ desc, r.classes[c]? = some desc ∧ e.fields.marks = desc.statics.refMask

structure SameShape (e e' : Element) : Prop where
  classId : e'.classId = e.classId
  kind : e'.kind = e.kind
  marks : e'.fields.marks = e.fields.marks

theorem Kept.toSameShape {e e' : Element} (h : e.Kept e') : e.SameShape e' :=
  ⟨h.classId, h.kind, h.marks⟩

theorem IsInstance.sameShape {r : Registry} {e e' : Element} (he : e.IsInstance r)
    (h : e.SameShape e') : e'.IsInstance r := by
  unfold IsInstance at *
  rw [h.classId, h.kind, h.marks]
  exact he

theorem FollowsClass.sameShape {r : Registry} {e e' : Element} (he : e.FollowsClass r)
    (h : e.SameShape e') : e'.FollowsClass r := by
  unfold FollowsClass at *
  rw [h.classId, h.kind, h.marks]
  exact he

end Element

def Heap.All (P : Element → Prop) (h : Heap) : Prop := ∀ i e, h.arena.get? i = some e → P e

namespace Heap.All

variable {h : Heap} {P : Element → Prop}

theorem put (hall : h.All P) {o : Ref} {e e' : Element} (he : h.get? o = some e) (hP : P e → P e') :
    (h.put o e').All P := by
  intro i e₁ he₁
  rw [Heap.arena_put] at he₁
  split at he₁
  · next hi =>
    obtain ⟨_, _, rfl⟩ := Option.map_eq_some_iff.mp he₁
    obtain ⟨j, hj, hget⟩ := Heap.get?_eq_some.mp he
    rw [hi] at hj
    cases hj
    exact hP (hall i e hget)
  · exact hall i e₁ he₁

theorem place (hall : h.All P) {build : Ref → Element} (hbuild : ∀ r, P (build r)) :
    (h.place build).2.All P := by
  intro i e he
  rw [Heap.arena_place] at he
  split at he
  · cases he
    exact hbuild _
  · exact hall i e he

theorem collect (hall : h.All P) {roots : Roots} {c : Collection} (hc : h.collect roots = .ok c)
    (hP : ∀ e e', e.SameShape e' → P e → P e') : c.heap.All P := by
  intro i e' he'
  obtain ⟨e, he, hkept⟩ := (Heap.collect_spec hc).1.kept i e' he'
  exact hP e e' hkept.toSameShape (hall i e he)

end Heap.All

namespace Statics

theorem get?_put (s : Statics) (c c' : ClassId) (e : Element) :
    (s.put c e).get? c' = if c = c' then (s.get? c').map fun _ => e else s.get? c' :=
  s.arena.get?_replace c c' e

def All (P : ClassId → Element → Prop) (s : Statics) : Prop := ∀ c e, s.get? c = some e → P c e

variable {s : Statics} {P : ClassId → Element → Prop}

theorem All.put (hall : s.All P) {c : ClassId} {e e' : Element} (he : s.get? c = some e)
    (hP : P c e → P c e') : (s.put c e').All P := by
  intro d e₁ he₁
  rw [get?_put] at he₁
  split at he₁
  · next hcd =>
    subst hcd
    obtain ⟨_, _, rfl⟩ := Option.map_eq_some_iff.mp he₁
    exact hP (hall c e he)
  · exact hall d e₁ he₁

theorem All.addClass (hall : s.All P) {desc : ClassDescriptor} {gid : GlobalId} {classObject : Ref}
    (hP : P desc.id (.fresh (.ofIndex desc.id) gid desc.id (.static .uninitialized classObject)
      (.ofMask desc.statics.refMask) none)) : (s.addClass desc gid classObject).All P := by
  unfold Statics.addClass
  split
  · exact hall
  · intro d e he
    unfold get? at he
    dsimp only at he
    rw [Arena.get?_insert] at he
    split at he
    · next hd =>
      cases he
      subst hd
      exact hP
    · exact hall d e he

end Statics

namespace Fields

theorem marks_ofMask (mask : List Bool) : (ofMask mask).marks = mask := by
  rw [marks_eq]
  apply List.ext_getElem?
  intro i
  by_cases hi : i < mask.length
  · simp [ofMask, size, isReference, hi]
  · simp [ofMask, size, hi]

theorem marks_ofArray (elem : ValueKind) (length : Nat) :
    (ofArray elem length).marks = elem.arrayMarks length := by
  have hconst : ∀ (f : Fields) (b : Bool), (∀ i < f.size, f.isReference i = b) →
      f.marks = List.replicate f.size b := by
    intro f b hf
    rw [marks_eq, List.eq_replicate_iff]
    refine ⟨by simp, ?_⟩
    intro x hx
    obtain ⟨i, hi, rfl⟩ := List.mem_map.mp hx
    exact hf i (List.mem_range.mp hi)
  unfold ValueKind.arrayMarks
  cases he : elem.isReference with
  | true =>
    have hw : elem.width = 1 := by
      cases elem <;> first | rfl | cases he
    rw [hconst _ true]
    · simp [ofArray, he, size, hw]
    · simp [ofArray, he, size, isReference]
  | false =>
    rw [hconst _ false]
    · simp [ofArray, he, size]
    · simp [ofArray, he, isReference]

theorem marks_setLong {f f' : Fields} {i : Nat} {v : Int64} (h : f.setLong i v = .ok f') :
    f'.marks = f.marks := by
  unfold setLong at h
  obtain ⟨f₁, h₁, h₂⟩ := bind_eq_ok.mp h
  rw [marks_setInt h₂, marks_setInt h₁]

theorem marks_write {f f' : Fields} {i : Nat} {v : SlotValue} (h : v.write f i = .ok f') :
    f'.marks = f.marks := by
  cases v with
  | int v => exact marks_setInt h
  | long v => exact marks_setLong h
  | ref r => exact marks_setInt h

theorem marks_foldlM {α : Type} {g : Fields → α → Except Fault Fields} {l : List α}
    {f f' : Fields} (hg : ∀ f a f', g f a = .ok f' → f'.marks = f.marks)
    (h : l.foldlM g f = .ok f') : f'.marks = f.marks := by
  apply foldlM_induction (motive := fun f' => f'.marks = f.marks) h rfl
  intro a _ f₁ f₂ h₁ h₂
  rw [hg f₁ a f₂ h₂, h₁]

end Fields

theorem findIdx?_mono {α : Type} {xs ys : Array α} {p : α → Bool}
    (h : xs.toList <+: ys.toList) {i : Nat} (hi : xs.findIdx? p = some i) : ys.findIdx? p = some i := by
  rcases xs with ⟨xs⟩
  rcases ys with ⟨ys⟩
  obtain ⟨l, rfl⟩ := h
  rw [List.findIdx?_toArray] at hi ⊢
  rw [List.findIdx?_append, hi]
  rfl

namespace Registry

variable {r r' : Registry} {c : ClassDescriptor}

theorem get_eq_ok {i : ClassId} {desc : ClassDescriptor} :
    r.get i = .ok desc ↔ r.classes[i]? = some desc := by
  unfold get
  cases r.classes[i]? <;> simp [pure, Except.pure, throw, throwThe, MonadExceptOf.throw]

theorem register_of_lookup? {i : ClassId} (h : r.lookup? c.name = some i) : r.register c = (i, r) := by
  unfold register
  rw [h]

theorem lookup?_register (r : Registry) (c : ClassDescriptor) :
    (r.register c).2.lookup? c.name = some (r.register c).1 := by
  cases h : r.lookup? c.name with
  | some i => rw [register_of_lookup? h, h]
  | none =>
    unfold register
    rw [h]
    unfold lookup? at *
    rw [Array.findIdx?_push, h]
    simp [size]

theorem prefix_register (r : Registry) (c : ClassDescriptor) :
    r.classes.toList <+: (r.register c).2.classes.toList := by
  unfold register
  split
  · exact List.prefix_rfl
  · rw [Array.toList_push]
    exact List.prefix_append _ _

theorem getElem?_of_prefix (h : r.classes.toList <+: r'.classes.toList) {i : Nat}
    {desc : ClassDescriptor} (hi : r.classes[i]? = some desc) : r'.classes[i]? = some desc := by
  rw [← Array.getElem?_toList] at hi ⊢
  obtain ⟨l, hl⟩ := h
  rw [← hl, List.getElem?_append_left (List.getElem?_eq_some_iff.mp hi).1]
  exact hi

theorem getElem?_register (r : Registry) (c : ClassDescriptor) :
    ∃ desc, (r.register c).2.classes[(r.register c).1]? = some desc ∧ desc.name = c.name := by
  unfold register lookup?
  split
  · next i hi =>
    rw [Array.findIdx?_eq_some_iff_getElem] at hi
    obtain ⟨hlt, hname, _⟩ := hi
    exact ⟨_, Array.getElem?_eq_getElem hlt, by simpa using hname⟩
  · exact ⟨{ c with id := r.size }, by simp [size], rfl⟩

theorem array_name_inj {elem elem' : ValueKind}
    (h : (ClassDescriptor.array elem).name = (ClassDescriptor.array elem').name) : elem = elem' := by
  revert h
  cases elem <;> cases elem' <;> decide

theorem array_iff_of_isPlain (hc : c.IsPlain) (elem : ValueKind) :
    c.name = (ClassDescriptor.array elem).name ↔ c.arrayOf = some elem := by
  constructor
  · intro h
    exact absurd h (hc.2 elem)
  · intro h
    rw [hc.1] at h
    cases h

theorem Numbered.register (hr : r.Numbered) (c : ClassDescriptor) : (r.register c).2.Numbered := by
  unfold Registry.register
  split
  · exact hr
  · intro i desc hi
    rw [Array.getElem?_push] at hi
    split at hi
    · next h =>
      cases hi
      exact h.symm
    · exact hr i desc hi

theorem Sound.register (hr : r.Sound) (hc : c.IsPlain ∨ ∃ elem, c = .array elem) :
    (r.register c).2.Sound := by
  have hnew : ∀ elem, c.name = (ClassDescriptor.array elem).name ↔ c.arrayOf = some elem := by
    intro elem
    rcases hc with hc | ⟨elem', rfl⟩
    · exact array_iff_of_isPlain hc elem
    · constructor
      · intro h
        rw [← array_name_inj h]
        rfl
      · intro h
        cases h
        rfl
  refine ⟨hr.id.register c, ?_⟩
  unfold Registry.register
  split
  · exact hr.array
  · intro i desc hi
    rw [Array.getElem?_push] at hi
    split at hi
    · cases hi
      exact hnew
    · exact hr.array i desc hi

theorem Sound.arrayOf_eq_none (hr : r.Sound) {i : Nat} {desc : ClassDescriptor}
    (hi : r.classes[i]? = some desc) (hname : ∀ elem, desc.name ≠ (ClassDescriptor.array elem).name) :
    desc.arrayOf = none := by
  cases harr : desc.arrayOf with
  | none => rfl
  | some elem => exact absurd ((hr.array i desc hi elem).mpr harr) (hname elem)

theorem isPlain_classClass : ClassDescriptor.classClass.IsPlain := by
  refine ⟨rfl, ?_⟩
  intro elem
  cases elem <;> decide

theorem isPlain_threadClass : ClassDescriptor.threadClass.IsPlain := by
  refine ⟨rfl, ?_⟩
  intro elem
  cases elem <;> decide

theorem isPlain_stringClass : ClassDescriptor.stringClass.IsPlain := by
  refine ⟨rfl, ?_⟩
  intro elem
  cases elem <;> decide

theorem sound_core : core.Sound := by
  constructor
  · intro i desc hi
    have hids : ∀ i < 3, ∀ desc ∈ core.classes[i]?, desc.id = i := by decide
    exact hids i (Array.getElem?_eq_some_iff.mp hi).1 desc hi
  · intro i desc hi
    match i, hi with
    | 0, hi =>
      cases hi
      exact array_iff_of_isPlain isPlain_classClass
    | 1, hi =>
      cases hi
      exact array_iff_of_isPlain isPlain_threadClass
    | 2, hi =>
      cases hi
      exact array_iff_of_isPlain isPlain_stringClass

end Registry

theorem Element.IsInstance.mono {r r' : Registry} {e : Element} (he : e.IsInstance r)
    (h : r.classes.toList <+: r'.classes.toList) : e.IsInstance r' := by
  obtain ⟨desc, hdesc, hshape⟩ := he
  exact ⟨desc, Registry.getElem?_of_prefix h hdesc, hshape⟩

theorem Element.FollowsClass.mono {r r' : Registry} {e : Element} (he : e.FollowsClass r)
    (h : r.classes.toList <+: r'.classes.toList) : e.FollowsClass r' := by
  intro hkind
  obtain ⟨desc, hdesc, hmarks⟩ := he hkind
  exact ⟨desc, Registry.getElem?_of_prefix h hdesc, hmarks⟩

theorem Element.IsStaticOf.mono {r r' : Registry} {c : ClassId} {e : Element}
    (he : e.IsStaticOf r c) (h : r.classes.toList <+: r'.classes.toList) : e.IsStaticOf r' c := by
  obtain ⟨hclass, hkind, desc, hdesc, hmarks⟩ := he
  exact ⟨hclass, hkind, desc, Registry.getElem?_of_prefix h hdesc, hmarks⟩

end Interleave
