import Interleave.Proofs.Encoding.Correspondence
import Interleave.Proofs.Kernel.Naming
import Interleave.Proofs.Kernel.WellShaped
import Mathlib.Data.Set.Function

/-!
Unique readability. The encodings of two states are read side by side: whatever has been read so far
says how many words the next part takes, so equal encodings come from states that correspond.
-/

namespace Interleave

open Relator

/-- Numbers and lengths do not wrap when they are written as words. -/
structure Kernel.FitsWords (k : Kernel) : Prop where
  classes : k.classes.classes.size ≤ 0x100000000
  loaded : k.statics.size < 0x80000000
  objectNames : ∀ e ∈ k.heap.elements, e.gid < 0xFFFFFFFF
  arrayLengths : ∀ e ∈ k.heap.elements, ∀ n ∈ e.length?, n < 0x80000000
  threadNames : ∀ t ∈ k.threads.toList, t.gid < 0xFFFFFFFF
  depths : ∀ t ∈ k.threads.toList, t.frames.size < 0x80000000
  held : ∀ t ∈ k.threads.toList, t.lockedObjects.length < 0x80000000
  methods : ∀ t ∈ k.threads.toList, ∀ f ∈ t.frames.toList, f.method < 0x100000000
  pcs : ∀ t ∈ k.threads.toList, ∀ f ∈ t.frames.toList, ∀ pc ∈ f.pc, pc < 0x80000000
  frameSizes : ∀ t ∈ k.threads.toList, ∀ f ∈ t.frames.toList, f.slots.size < 0x80000000

/-- At the same point of the program, frames of the same size have their references in the same
slots. -/
def Frame.MarksAgree (f₁ f₂ : Frame) : Prop :=
  f₁.method = f₂.method → f₁.pc = f₂.pc → f₁.slots.size = f₂.slots.size →
    ∀ i < f₁.slots.size, f₁.isReference i = f₂.isReference i

def Thread.MarksAgree (t₁ t₂ : Thread) : Prop :=
  ∀ p ∈ t₁.frames.toList.zip t₂.frames.toList, p.1.MarksAgree p.2

instance (f₁ f₂ : Frame) : Decidable (f₁.MarksAgree f₂) :=
  inferInstanceAs (Decidable (f₁.method = f₂.method → f₁.pc = f₂.pc →
    f₁.slots.size = f₂.slots.size → ∀ i < f₁.slots.size, f₁.isReference i = f₂.isReference i))

instance (t₁ t₂ : Thread) : Decidable (t₁.MarksAgree t₂) :=
  inferInstanceAs (Decidable (∀ p ∈ t₁.frames.toList.zip t₂.frames.toList, p.1.MarksAgree p.2))

def Heap.SameName (h₁ h₂ : Heap) (i j : Nat) : Prop :=
  ∃ e₁ e₂, h₁.arena.get? i = some e₁ ∧ h₂.arena.get? j = some e₂ ∧ e₁.gid = e₂.gid

theorem wordOf_inj {m n : Nat} (hm : m < 0x100000000) (hn : n < 0x100000000) (h : wordOf m = wordOf n) :
    m = n := by
  unfold wordOf at h
  have hbits := congrArg (fun w : Int32 => w.toBitVec.toNat) h
  simp only [Int32.toBitVec_ofNat', BitVec.toNat_ofNat] at hbits
  omega

theorem wordOf_ne {n : Nat} (hn : n < 0xFFFFFFFF) : wordOf n ≠ -1 := by
  intro h
  have hone : (-1 : Int32) = wordOf (0xFFFFFFFF) := by decide
  rw [hone] at h
  have := wordOf_inj (by omega) (by omega) h
  omega

def nameOfWord (w : Int32) : Option Nat := if w = -1 then none else some w.toBitVec.toNat

theorem nameOfWord_nameWord {o : Option Nat} (h : ∀ n ∈ o, n < 0xFFFFFFFF) :
    nameOfWord (o.elim (-1) wordOf) = o := by
  cases o with
  | none => rfl
  | some n =>
    have hn := h n rfl
    have hbits : (wordOf n).toBitVec.toNat = n := by
      unfold wordOf
      rw [Int32.toBitVec_ofNat', BitVec.toNat_ofNat]
      omega
    simp [nameOfWord, wordOf_ne hn, hbits]

theorem nameWord_inj {o₁ o₂ : Option Nat} (h₁ : ∀ n ∈ o₁, n < 0xFFFFFFFF)
    (h₂ : ∀ n ∈ o₂, n < 0xFFFFFFFF) (h : o₁.elim (-1) wordOf = o₂.elim (-1) wordOf) : o₁ = o₂ := by
  rw [← nameOfWord_nameWord h₁, h, nameOfWord_nameWord h₂]

theorem perm_of_nameWords {l₁ l₂ : List (Option Nat)} (h₁ : ∀ o ∈ l₁, ∀ n ∈ o, n < 0xFFFFFFFF)
    (h₂ : ∀ o ∈ l₂, ∀ n ∈ o, n < 0xFFFFFFFF)
    (h : (l₁.map fun o => o.elim (-1) wordOf).Perm (l₂.map fun o => o.elim (-1) wordOf)) :
    l₁.Perm l₂ := by
  have hback : ∀ l : List (Option Nat), (∀ o ∈ l, ∀ n ∈ o, n < 0xFFFFFFFF) →
      (l.map fun o => o.elim (-1) wordOf).map nameOfWord = l := by
    intro l hl
    rw [List.map_map]
    conv => rhs; rw [← List.map_id l]
    exact List.map_congr_left fun o ho => nameOfWord_nameWord (hl o ho)
  have := h.map nameOfWord
  rwa [hback l₁ h₁, hback l₂ h₂] at this

theorem flatMap_append_inj {α β : Type} {R S : α → β → Prop} {f : α → List Int32}
    {g : β → List Int32} {l₁ : List α} {l₂ : List β} (hl : List.Forall₂ R l₁ l₂)
    (hpart : ∀ a ∈ l₁, ∀ b ∈ l₂, R a b → ∀ rest₁ rest₂, f a ++ rest₁ = g b ++ rest₂ →
      S a b ∧ rest₁ = rest₂)
    {rest₁ rest₂ : List Int32} (h : l₁.flatMap f ++ rest₁ = l₂.flatMap g ++ rest₂) :
    List.Forall₂ S l₁ l₂ ∧ rest₁ = rest₂ := by
  induction hl with
  | nil => exact ⟨.nil, h⟩
  | cons hab _ ih =>
    rw [List.flatMap_cons, List.flatMap_cons, List.append_assoc, List.append_assoc] at h
    obtain ⟨hS, h⟩ := hpart _ (by simp) _ (by simp) hab _ _ h
    obtain ⟨hrest, h⟩ := ih (fun a ha b hb => hpart a (by simp [ha]) b (by simp [hb])) h
    exact ⟨.cons hS hrest, h⟩

theorem exists_right_of_forall₂ {α β : Type} {R : α → β → Prop} {l₁ : List α} {l₂ : List β}
    (h : List.Forall₂ R l₁ l₂) {a : α} (ha : a ∈ l₁) : ∃ b, R a b := by
  induction h with
  | nil => cases ha
  | @cons a' b _ _ hab _ ih =>
    cases ha with
    | head => exact ⟨b, hab⟩
    | tail _ ha => exact ih ha

theorem Heap.mem_elements {h : Heap} {i : Nat} {e : Element} (he : h.arena.get? i = some e) :
    e ∈ h.elements :=
  (Arena.mem_elements _ _).mpr ⟨i, he⟩

theorem Heap.SameName.biUnique {h₁ h₂ : Heap} (hn₁ : h₁.DistinctNames) (hn₂ : h₂.DistinctNames) :
    BiUnique (h₁.SameName h₂) := by
  constructor
  · intro i i' j ⟨e₁, e₂, he₁, he₂, he⟩ ⟨e₁', e₂', he₁', he₂', he'⟩
    rw [he₂] at he₂'
    cases he₂'
    exact hn₁ i i' e₁ e₁' he₁ he₁' (he.trans he'.symm)
  · intro i j j' ⟨e₁, e₂, he₁, he₂, he⟩ ⟨e₁', e₂', he₁', he₂', he'⟩
    rw [he₁] at he₁'
    cases he₁'
    exact hn₂ j j' e₂ e₂' he₂ he₂' (he.symm.trans he')

namespace Kernel.FitsWords

variable {k₁ k₂ : Kernel} {rest₁ rest₂ : List Int32}

theorem nameOf?_lt {k : Kernel} (hk : k.FitsWords) (r : Ref) :
    ∀ n ∈ k.heap.nameOf? r, n < 0xFFFFFFFF := by
  intro n hn
  obtain ⟨e, he, rfl⟩ := Option.map_eq_some_iff.mp hn
  obtain ⟨i, _, hget⟩ := Heap.get?_eq_some.mp he
  exact hk.objectNames e (Heap.mem_elements hget)

theorem ref_inj (h₁ : k₁.FitsWords) (h₂ : k₂.FitsWords) {r₁ r₂ : Ref}
    (h : k₁.heap.refWord r₁ = k₂.heap.refWord r₂) :
    r₁.Corresponds k₁.heap k₂.heap (k₁.heap.SameName k₂.heap) r₂ := by
  rw [Heap.refWord_eq, Heap.refWord_eq] at h
  have hname := nameWord_inj (h₁.nameOf?_lt r₁) (h₂.nameOf?_lt r₂) h
  unfold Heap.nameOf? at hname
  rw [Heap.get?_eq_bind_slot?, Heap.get?_eq_bind_slot?] at hname
  have hlive : ∀ {h : Heap} {r : Ref} {i : Nat}, h.slot? r = some i → ∃ e, h.arena.get? i = some e :=
    fun hs => (Arena.contains_iff _ _).mp (Heap.slot?_eq_some_iff.mp hs).2
  unfold Ref.Corresponds
  cases hs₁ : k₁.heap.slot? r₁ with
  | none =>
    cases hs₂ : k₂.heap.slot? r₂ with
    | none => exact .none
    | some j =>
      obtain ⟨e₂, he₂⟩ := hlive hs₂
      simp [hs₁, hs₂, he₂] at hname
  | some i =>
    obtain ⟨e₁, he₁⟩ := hlive hs₁
    cases hs₂ : k₂.heap.slot? r₂ with
    | none => simp [hs₁, hs₂, he₁] at hname
    | some j =>
      obtain ⟨e₂, he₂⟩ := hlive hs₂
      simp [hs₁, hs₂, he₁, he₂] at hname
      exact .some ⟨e₁, e₂, he₁, he₂, hname⟩

theorem cell_inj (h₁ : k₁.FitsWords) (h₂ : k₂.FitsWords) {c₁ c₂ : Cell} (htag : c₁.2 = c₂.2)
    (h : k₁.heap.cellWord c₁ = k₂.heap.cellWord c₂) :
    c₁.Corresponds k₁.heap k₂.heap (k₁.heap.SameName k₂.heap) c₂ := by
  unfold Heap.cellWord at h
  rw [← htag] at h
  refine ⟨htag, ?_, ?_⟩
  · intro hf
    simpa [hf] using h
  · intro ht
    rw [if_pos ht, if_pos ht] at h
    exact h₁.ref_inj h₂ h

theorem cells_append_inj (h₁ : k₁.FitsWords) (h₂ : k₂.FitsWords) {l₁ l₂ : List Cell}
    (htags : l₁.map (·.2) = l₂.map (·.2))
    (h : l₁.map k₁.heap.cellWord ++ rest₁ = l₂.map k₂.heap.cellWord ++ rest₂) :
    List.Forall₂ (Cell.Corresponds k₁.heap k₂.heap (k₁.heap.SameName k₂.heap)) l₁ l₂ ∧
      rest₁ = rest₂ := by
  rw [List.map_eq_flatMap, List.map_eq_flatMap] at h
  apply flatMap_append_inj (map_eq_iff_forall₂.mp htags) _ h
  intro c₁ _ c₂ _ htag rest₁ rest₂ h
  rw [List.singleton_append, List.singleton_append, List.cons.injEq] at h
  exact ⟨h₁.cell_inj h₂ htag h.1, h.2⟩

theorem frame_append_inj (h₁ : k₁.FitsWords) (h₂ : k₂.FitsWords) {t₁ t₂ : Thread}
    (ht₁ : t₁ ∈ k₁.threads.toList) (ht₂ : t₂ ∈ k₂.threads.toList) {f₁ f₂ : Frame}
    (hf₁ : f₁ ∈ t₁.frames.toList) (hf₂ : f₂ ∈ t₂.frames.toList)
    (hmarks : f₁.MarksAgree f₂)
    (h : k₁.heap.frameWords f₁ ++ rest₁ = k₂.heap.frameWords f₂ ++ rest₂) :
    f₁.Corresponds k₁.heap k₂.heap (k₁.heap.SameName k₂.heap) f₂ ∧ rest₁ = rest₂ := by
  rw [Heap.frameWords_eq, Heap.frameWords_eq] at h
  simp only [List.cons_append, List.cons.injEq] at h
  obtain ⟨hmethod, hpc, hsize, h⟩ := h
  have hmethod := wordOf_inj (h₁.methods t₁ ht₁ f₁ hf₁) (h₂.methods t₂ ht₂ f₂ hf₂) hmethod
  have hpcs : ∀ {k : Kernel}, k.FitsWords → ∀ t ∈ k.threads.toList, ∀ f ∈ t.frames.toList,
      ∀ pc ∈ f.pc, pc < 0xFFFFFFFF := by
    intro k hk t ht f hf pc hpc
    have := hk.pcs t ht f hf pc hpc
    omega
  have hpc := nameWord_inj (hpcs h₁ t₁ ht₁ f₁ hf₁) (hpcs h₂ t₂ ht₂ f₂ hf₂) hpc
  have hsize : f₁.slots.size = f₂.slots.size := by
    have hs₁ := h₁.frameSizes t₁ ht₁ f₁ hf₁
    have hs₂ := h₂.frameSizes t₂ ht₂ f₂ hf₂
    exact wordOf_inj (by omega) (by omega) hsize
  -- with method, pc and size read, it is known which slots are references
  have htags : f₁.cells.map (·.2) = f₂.cells.map (·.2) := by
    apply List.ext_getElem?
    intro i
    rw [List.getElem?_map, List.getElem?_map, Frame.getElem?_cells, Frame.getElem?_cells,
      Option.map_map, Option.map_map]
    by_cases hi : i < f₁.slots.size
    · have hi' : i < f₂.slots.size := hsize ▸ hi
      simp [hi, hi', hmarks hmethod hpc hsize i hi]
    · have hi' : ¬ i < f₂.slots.size := hsize ▸ hi
      simp [hi, hi']
  obtain ⟨hcells, hrest⟩ := h₁.cells_append_inj h₂ htags h
  exact ⟨⟨hmethod, hpc, hcells⟩, hrest⟩

structure StackRead (k₁ k₂ : Kernel) (t₁ t₂ : Thread) : Prop where
  object : t₁.object.Corresponds k₁.heap k₂.heap (k₁.heap.SameName k₂.heap) t₂.object
  frames : List.Forall₂ (Frame.Corresponds k₁.heap k₂.heap (k₁.heap.SameName k₂.heap))
    t₁.frames.toList t₂.frames.toList

theorem stack_append_inj (h₁ : k₁.FitsWords) (h₂ : k₂.FitsWords) {t₁ t₂ : Thread}
    (ht₁ : t₁ ∈ k₁.threads.toList) (ht₂ : t₂ ∈ k₂.threads.toList) (hmarks : t₁.MarksAgree t₂)
    (h : k₁.heap.stackWords t₁ ++ rest₁ = k₂.heap.stackWords t₂ ++ rest₂) :
    StackRead k₁ k₂ t₁ t₂ ∧ rest₁ = rest₂ := by
  unfold Heap.stackWords at h
  simp only [List.cons_append, List.cons.injEq] at h
  obtain ⟨hobject, hdepth, h⟩ := h
  have hdepth : t₁.frames.toList.length = t₂.frames.toList.length := by
    have hd₁ := h₁.depths t₁ ht₁
    have hd₂ := h₂.depths t₂ ht₂
    rw [Array.length_toList, Array.length_toList]
    exact wordOf_inj (by omega) (by omega) hdepth
  have hframes : List.Forall₂ Frame.MarksAgree t₁.frames.toList t₂.frames.toList := by
    rw [List.forall₂_iff_zip]
    exact ⟨hdepth, fun hp => hmarks _ hp⟩
  obtain ⟨hread, hrest⟩ := flatMap_append_inj hframes
    (fun f₁ hf₁ f₂ hf₂ hm _ _ => h₁.frame_append_inj h₂ ht₁ ht₂ hf₁ hf₂ hm) h
  exact ⟨⟨h₁.ref_inj h₂ hobject, hread⟩, hrest⟩

theorem class_inj (h₁ : k₁.FitsWords) (h₂ : k₂.FitsWords) (hclasses : k₁.classes = k₂.classes)
    {c₁ c₂ : ClassId} {desc₁ desc₂ : ClassDescriptor} (hc₁ : k₁.classes.classes[c₁]? = some desc₁)
    (hc₂ : k₂.classes.classes[c₂]? = some desc₂) (h : wordOf c₁ = wordOf c₂) :
    c₁ = c₂ ∧ desc₁ = desc₂ := by
  have hlt₁ := (Array.getElem?_eq_some_iff.mp hc₁).1
  have hlt₂ := (Array.getElem?_eq_some_iff.mp hc₂).1
  have hle₁ := h₁.classes
  have hle₂ := h₂.classes
  have heq := wordOf_inj (by omega) (by omega) h
  subst heq
  rw [hclasses, hc₂] at hc₁
  cases hc₁
  exact ⟨rfl, rfl⟩

theorem static_append_inj (h₁ : k₁.FitsWords) (h₂ : k₂.FitsWords)
    (hclasses : k₁.classes = k₂.classes) {c₁ c₂ : ClassId} {e₁ e₂ : Element}
    (he₁ : e₁.IsStaticOf k₁.classes c₁) (he₂ : e₂.IsStaticOf k₂.classes c₂)
    (h : k₁.heap.staticWords e₁ ++ rest₁ = k₂.heap.staticWords e₂ ++ rest₂) :
    e₁.StaticCorresponds k₁.heap k₂.heap (k₁.heap.SameName k₂.heap) e₂ ∧ rest₁ = rest₂ := by
  obtain ⟨rfl, ⟨status₁, r₁, hkind₁⟩, desc₁, hdesc₁, hmarks₁⟩ := he₁
  obtain ⟨rfl, ⟨status₂, r₂, hkind₂⟩, desc₂, hdesc₂, hmarks₂⟩ := he₂
  unfold Heap.staticWords at h
  rw [hkind₁, hkind₂, Heap.fieldWords_eq, Heap.fieldWords_eq] at h
  simp only [List.cons_append, List.nil_append, List.cons.injEq] at h
  obtain ⟨hclass, hcode, href, h⟩ := h
  obtain ⟨hclass, rfl⟩ := h₁.class_inj h₂ hclasses hdesc₁ hdesc₂ hclass
  obtain ⟨hcells, hrest⟩ := h₁.cells_append_inj h₂ (hmarks₁.trans hmarks₂.symm) h
  refine ⟨⟨hclass, ?_, ?_, hcells⟩, hrest⟩
  · simp [Element.status?, hkind₁, hkind₂, hcode]
  · simp only [Element.classRef?, hkind₁, hkind₂]
    exact .some (h₁.ref_inj h₂ href)

theorem statics_append_inj (h₁ : k₁.FitsWords) (h₂ : k₂.FitsWords) (hw₁ : k₁.WellShaped)
    (hw₂ : k₂.WellShaped) (hclasses : k₁.classes = k₂.classes)
    (h : wordOf k₁.statics.size :: k₁.statics.elements.flatMap k₁.heap.staticWords ++ rest₁ =
      wordOf k₂.statics.size :: k₂.statics.elements.flatMap k₂.heap.staticWords ++ rest₂) :
    List.Forall₂ (Element.StaticCorresponds k₁.heap k₂.heap (k₁.heap.SameName k₂.heap))
      k₁.statics.elements k₂.statics.elements ∧ rest₁ = rest₂ := by
  rw [List.cons_append, List.cons_append, List.cons.injEq] at h
  obtain ⟨hsize, h⟩ := h
  have hsize : k₁.statics.elements.length = k₂.statics.elements.length := by
    have hs₁ := h₁.loaded
    have hs₂ := h₂.loaded
    rw [← hw₁.loaded, ← hw₂.loaded]
    exact wordOf_inj (by omega) (by omega) hsize
  have hl : List.Forall₂ (fun _ _ => True) k₁.statics.elements k₂.statics.elements := by
    rw [List.forall₂_iff_get]
    exact ⟨hsize, fun _ _ _ => trivial⟩
  apply flatMap_append_inj hl _ h
  intro e₁ he₁ e₂ he₂ _ rest₁ rest₂ h
  obtain ⟨c₁, hc₁⟩ := (Arena.mem_elements _ _).mp he₁
  obtain ⟨c₂, hc₂⟩ := (Arena.mem_elements _ _).mp he₂
  exact h₁.static_append_inj h₂ hclasses (hw₁.statics c₁ e₁ hc₁) (hw₂.statics c₂ e₂ hc₂) h

theorem object_append_inj (h₁ : k₁.FitsWords) (h₂ : k₂.FitsWords)
    (hclasses : k₁.classes = k₂.classes) {i j : Nat} {e₁ e₂ : Element}
    (hi : k₁.heap.arena.get? i = some e₁) (hj : k₂.heap.arena.get? j = some e₂)
    (he₁ : e₁.IsInstance k₁.classes) (he₂ : e₂.IsInstance k₂.classes) (hgid : e₁.gid = e₂.gid)
    (h : k₁.heap.objectWords e₁ ++ rest₁ = k₂.heap.objectWords e₂ ++ rest₂) :
    e₁.Corresponds k₁.heap k₂.heap (k₁.heap.SameName k₂.heap) e₂ ∧ rest₁ = rest₂ := by
  obtain ⟨desc₁, hdesc₁, hshape₁⟩ := he₁
  obtain ⟨desc₂, hdesc₂, hshape₂⟩ := he₂
  have hlen₁ := h₁.arrayLengths e₁ (Heap.mem_elements hi)
  have hlen₂ := h₂.arrayLengths e₂ (Heap.mem_elements hj)
  unfold Heap.objectWords at h
  rw [Heap.fieldWords_eq, Heap.fieldWords_eq, List.cons_append, List.cons_append, List.cons_append,
    List.cons_append, List.cons.injEq, List.append_assoc, List.append_assoc] at h
  obtain ⟨hclass, h⟩ := h
  obtain ⟨hclass, rfl⟩ := h₁.class_inj h₂ hclasses hdesc₁ hdesc₂ hclass
  -- the class says whether a length follows
  cases hkind₁ : e₁.kind with
  | static _ _ =>
    rw [hkind₁] at hshape₁
    exact hshape₁.elim
  | object =>
    rw [hkind₁] at hshape₁
    cases hkind₂ : e₂.kind with
    | static _ _ =>
      rw [hkind₂] at hshape₂
      exact hshape₂.elim
    | array elem n =>
      rw [hkind₂] at hshape₂
      exact absurd (hshape₁.1.symm.trans hshape₂.1) (by simp)
    | object =>
      rw [hkind₂] at hshape₂
      simp only [Element.length?, hkind₁, hkind₂, Option.map_none, Option.toList_none,
        List.nil_append] at h ⊢
      obtain ⟨hcells, hrest⟩ := h₁.cells_append_inj h₂ (hshape₁.2.trans hshape₂.2.symm) h
      exact ⟨⟨hgid, hclass, by simp [Element.length?, hkind₁, hkind₂], hcells⟩, hrest⟩
  | array elem n =>
    rw [hkind₁] at hshape₁
    cases hkind₂ : e₂.kind with
    | static _ _ =>
      rw [hkind₂] at hshape₂
      exact hshape₂.elim
    | object =>
      rw [hkind₂] at hshape₂
      exact absurd (hshape₁.1.symm.trans hshape₂.1) (by simp)
    | array elem' n' =>
      rw [hkind₂] at hshape₂
      simp only [Element.length?, hkind₁, hkind₂, Option.map_some, Option.toList_some,
        List.cons_append, List.nil_append, List.cons.injEq] at h hlen₁ hlen₂ ⊢
      have hn₁ := hlen₁ n rfl
      have hn₂ := hlen₂ n' rfl
      have helem : elem = elem' := Option.some.inj (hshape₁.1.symm.trans hshape₂.1)
      have hlength := wordOf_inj (by omega) (by omega) h.1
      subst helem
      subst hlength
      obtain ⟨hcells, hrest⟩ := h₁.cells_append_inj h₂ (hshape₁.2.trans hshape₂.2.symm) h.2
      exact ⟨⟨hgid, hclass, by simp [Element.length?, hkind₁, hkind₂], hcells⟩, hrest⟩

def ObjectsRead (k₁ k₂ : Kernel) (i j : Nat) : Prop :=
  ∃ e₁ e₂, k₁.heap.arena.get? i = some e₁ ∧ k₂.heap.arena.get? j = some e₂ ∧
    e₁.Corresponds k₁.heap k₂.heap (k₁.heap.SameName k₂.heap) e₂

theorem ObjectsRead.targets {i j : Nat} (h : ObjectsRead k₁ k₂ i j) :
    List.Forall₂ (k₁.heap.SameName k₂.heap) (k₁.heap.targets (k₁.heap.referencesAt i))
      (k₂.heap.targets (k₂.heap.referencesAt j)) := by
  obtain ⟨e₁, e₂, he₁, he₂, he⟩ := h
  unfold Heap.referencesAt
  rw [he₁, he₂, Heap.targets_fieldReferences, Heap.targets_fieldReferences]
  exact Alike.cellTargets he.cells

theorem slot_append_inj (h₁ : k₁.FitsWords) (h₂ : k₂.FitsWords) (hw₁ : k₁.WellShaped)
    (hw₂ : k₂.WellShaped) (hclasses : k₁.classes = k₂.classes) {i j : Nat}
    (hij : k₁.heap.SameName k₂.heap i j)
    (h : k₁.heap.wordsAt i ++ rest₁ = k₂.heap.wordsAt j ++ rest₂) :
    ObjectsRead k₁ k₂ i j ∧ rest₁ = rest₂ := by
  obtain ⟨e₁, e₂, he₁, he₂, hgid⟩ := hij
  unfold Heap.wordsAt at h
  rw [he₁, he₂] at h
  obtain ⟨he, hrest⟩ := h₁.object_append_inj h₂ hclasses he₁ he₂ (hw₁.objects i e₁ he₁)
    (hw₂.objects j e₂ he₂) hgid h
  exact ⟨⟨e₁, e₂, he₁, he₂, he⟩, hrest⟩

theorem visit_append_inj (h₁ : k₁.FitsWords) (h₂ : k₂.FitsWords) (hw₁ : k₁.WellShaped)
    (hw₂ : k₂.WellShaped) (hclasses : k₁.classes = k₂.classes)
    (hunique : BiUnique (k₁.heap.SameName k₂.heap)) {refs₁ refs₂ : List Ref} {seen₁ seen₂ : SlotSet}
    (hrefs : List.Forall₂ (k₁.heap.SameName k₂.heap) (k₁.heap.targets refs₁) (k₂.heap.targets refs₂))
    (hseen : ∀ i j, k₁.heap.SameName k₂.heap i j → seen₁.contains i = seen₂.contains j)
    (h : (k₁.heap.visit refs₁ seen₁).flatMap k₁.heap.wordsAt ++ rest₁ =
      (k₂.heap.visit refs₂ seen₂).flatMap k₂.heap.wordsAt ++ rest₂) :
    List.Forall₂ (ObjectsRead k₁ k₂) (k₁.heap.visit refs₁ seen₁) (k₂.heap.visit refs₂ seen₂) ∧
      rest₁ = rest₂ := by
  induction refs₁, seen₁ using k₁.heap.visit_induction generalizing refs₂ seen₂ with
  | round refs₁ seen₁ ih =>
    have henroll := SlotSet.enroll_forall₂ hunique hrefs hseen
    rw [← Heap.enroll_eq, ← Heap.enroll_eq] at henroll
    rw [Heap.visit_eq k₁.heap, Heap.visit_eq k₂.heap] at h ⊢
    rw [List.flatMap_append, List.flatMap_append, List.append_assoc, List.append_assoc] at h
    -- the names of this round are known from what was read before it
    obtain ⟨hread, h⟩ := flatMap_append_inj henroll.1
      (fun _ _ _ _ hij _ _ => h₁.slot_append_inj h₂ hw₁ hw₂ hclasses hij) h
    have hnil : (k₁.heap.enroll refs₁ seen₁).1 = [] ↔ (k₂.heap.enroll refs₂ seen₂).1 = [] := by
      rw [← List.length_eq_zero_iff, ← List.length_eq_zero_iff, henroll.1.length_eq]
    by_cases hn : (k₁.heap.enroll refs₁ seen₁).1 = []
    · rw [if_pos hn, if_pos (hnil.mp hn)] at h ⊢
      exact ⟨List.rel_append hread .nil, h⟩
    · rw [if_neg hn, if_neg (mt hnil.mpr hn)] at h ⊢
      have htargets : List.Forall₂ (k₁.heap.SameName k₂.heap)
          (k₁.heap.targets ((k₁.heap.enroll refs₁ seen₁).1.flatMap k₁.heap.referencesAt))
          (k₂.heap.targets ((k₂.heap.enroll refs₂ seen₂).1.flatMap k₂.heap.referencesAt)) := by
        rw [Heap.targets_flatMap, Heap.targets_flatMap]
        exact List.rel_flatMap hread fun _ _ => ObjectsRead.targets
      obtain ⟨hnext, hrest⟩ := ih hn htargets henroll.2 h
      exact ⟨List.rel_append hread hnext, hrest⟩

structure StateRead (k₁ k₂ : Kernel) (t₁ t₂ : Thread) : Prop where
  gid : t₁.gid = t₂.gid
  state : t₁.state = t₂.state
  interrupted : t₁.interrupted = t₂.interrupted
  suspended : t₁.suspended = t₂.suspended
  permit : t₁.permit = t₂.permit
  lockObject : t₁.lockObject.bind k₁.heap.nameOf? = t₂.lockObject.bind k₂.heap.nameOf?
  locked : (t₁.lockedObjects.map k₁.heap.nameOf?).Perm (t₂.lockedObjects.map k₂.heap.nameOf?)

theorem state_append_inj (h₁ : k₁.FitsWords) (h₂ : k₂.FitsWords) {t₁ t₂ : Thread}
    (ht₁ : t₁ ∈ k₁.threads.toList) (ht₂ : t₂ ∈ k₂.threads.toList)
    (h : k₁.heap.threadWords t₁ ++ rest₁ = k₂.heap.threadWords t₂ ++ rest₂) :
    StateRead k₁ k₂ t₁ t₂ ∧ rest₁ = rest₂ := by
  unfold Heap.threadWords at h
  simp only [List.cons_append, List.nil_append, List.cons.injEq] at h
  obtain ⟨hgid, hstate, hflags, -, hlock, hcount, h⟩ := h
  have hcount : t₁.lockedObjects.length = t₂.lockedObjects.length := by
    have hl₁ := h₁.held t₁ ht₁
    have hl₂ := h₂.held t₂ ht₂
    exact wordOf_inj (by omega) (by omega) hcount
  obtain ⟨hheld, hrest⟩ := List.append_inj h (by simp [Heap.heldWords, hcount])
  have hgid : t₁.gid = t₂.gid := by
    have hg₁ := h₁.threadNames t₁ ht₁
    have hg₂ := h₂.threadNames t₂ ht₂
    exact wordOf_inj (Nat.lt_of_lt_of_le hg₁ (by decide)) (Nat.lt_of_lt_of_le hg₂ (by decide)) hgid
  -- the three flags share a word
  have hflags : t₁.interrupted = t₂.interrupted ∧ t₁.suspended = t₂.suspended ∧
      t₁.permit = t₂.permit := by
    revert hflags
    cases t₁.interrupted <;> cases t₁.suspended <;> cases t₁.permit <;>
      cases t₂.interrupted <;> cases t₂.suspended <;> cases t₂.permit <;> decide
  have hlock : t₁.lockObject.bind k₁.heap.nameOf? = t₂.lockObject.bind k₂.heap.nameOf? := by
    rw [Heap.elim_refWord, Heap.elim_refWord] at hlock
    apply nameWord_inj _ _ hlock
    · intro n hn
      obtain ⟨r, _, hr⟩ := Option.bind_eq_some_iff.mp hn
      exact h₁.nameOf?_lt r n hr
    · intro n hn
      obtain ⟨r, _, hr⟩ := Option.bind_eq_some_iff.mp hn
      exact h₂.nameOf?_lt r n hr
  refine ⟨⟨hgid, ThreadState.ordinal_inj.mp hstate, hflags.1, hflags.2.1, hflags.2.2, hlock, ?_⟩, hrest⟩
  -- the words are sorted, so they do not say in which order the objects are held
  have hwords : (t₁.lockedObjects.map k₁.heap.refWord).Perm (t₂.lockedObjects.map k₂.heap.refWord) := by
    have hsorted := List.mergeSort_perm (t₁.lockedObjects.map k₁.heap.refWord) (fun a b => a ≤ b)
    unfold Heap.heldWords at hheld
    rw [hheld] at hsorted
    exact hsorted.symm.trans (List.mergeSort_perm _ _)
  rw [Heap.map_refWord, Heap.map_refWord] at hwords
  apply perm_of_nameWords _ _ hwords
  · intro o ho n hn
    obtain ⟨r, _, rfl⟩ := List.mem_map.mp ho
    exact h₁.nameOf?_lt r n hn
  · intro o ho n hn
    obtain ⟨r, _, rfl⟩ := List.mem_map.mp ho
    exact h₂.nameOf?_lt r n hn

theorem atomicOwnerName_lt {k : Kernel} (hk : k.FitsWords) {o : Option GlobalId}
    (h : k.atomicOwnerName = .ok o) : ∀ n ∈ o, n < 0xFFFFFFFF := by
  unfold atomicOwnerName at h
  intro n hn
  split at h
  · cases h
    cases hn
  · obtain ⟨t, ht, h⟩ := bind_eq_ok.mp h
    cases h
    cases hn
    exact hk.threadNames t (Roster.mem_toList_of_get? (get_eq_ok.mp ht))

end Kernel.FitsWords

section

variable {h₁ h₂ : Heap} {P Q : Nat → Nat → Prop}

theorem Ref.Corresponds.restrict {r₁ r₂ : Ref} (hr : r₁.Corresponds h₁ h₂ P r₂)
    (hPQ : ∀ i j, h₁.slot? r₁ = some i → h₂.slot? r₂ = some j → P i j → Q i j) :
    r₁.Corresponds h₁ h₂ Q r₂ := by
  unfold Ref.Corresponds at *
  generalize h₁.slot? r₁ = s₁ at hr hPQ
  generalize h₂.slot? r₂ = s₂ at hr hPQ
  cases hr with
  | none => exact .none
  | some hij => exact .some (hPQ _ _ rfl rfl hij)

theorem Cell.Corresponds.restrict {l₁ l₂ : List Cell}
    (hl : List.Forall₂ (Cell.Corresponds h₁ h₂ P) l₁ l₂)
    (hPQ : ∀ i j, i ∈ l₁.filterMap h₁.cellTarget → j ∈ l₂.filterMap h₂.cellTarget → P i j → Q i j) :
    List.Forall₂ (Cell.Corresponds h₁ h₂ Q) l₁ l₂ := by
  rw [List.forall₂_iff_zip] at hl ⊢
  refine ⟨hl.1, ?_⟩
  intro c₁ c₂ hc
  have hmem := List.of_mem_zip hc
  have hcell := hl.2 hc
  refine ⟨hcell.tag, hcell.value, ?_⟩
  intro htag
  apply (hcell.target htag).restrict
  intro i j hi hj
  apply hPQ i j
  · exact List.mem_filterMap.mpr ⟨c₁, hmem.1, by simp [Heap.cellTarget, htag, hi]⟩
  · exact List.mem_filterMap.mpr ⟨c₂, hmem.2, by simp [Heap.cellTarget, ← hcell.tag, htag, hj]⟩

end

namespace Kernel

def visited (k : Kernel) : List Nat := k.heap.visitOrder k.encodingRoots

def VisitedAlike (k₁ k₂ : Kernel) (i j : Nat) : Prop :=
  i ∈ k₁.visited ∧ j ∈ k₂.visited ∧ k₁.heap.SameName k₂.heap i j

theorem mem_visited_of_mem_targets {k : Kernel} {i : Nat}
    (hi : i ∈ k.heap.targets k.encodingRoots) : i ∈ k.visited := by
  have h : SlotSet.empty.contains i = true ∨ i ∈ k.visited := Heap.mem_visit_of_mem_targets hi
  rw [SlotSet.contains_empty] at h
  exact h.resolve_left (by simp)

theorem mem_visited_of_mem_references {k : Kernel} {i j : Nat} (hi : i ∈ k.visited)
    (hj : j ∈ k.heap.targets (k.heap.referencesAt i)) : j ∈ k.visited := by
  have h := Heap.mem_visit_of_mem_references hi hj
  rw [SlotSet.contains_empty] at h
  exact h.resolve_left (by simp)

theorem mem_visited_of_thread {k : Kernel} {t : Thread} (ht : t ∈ k.threads.toList) {i : Nat}
    (hi : i ∈ k.heap.threadTargets t) : i ∈ k.visited := by
  apply mem_visited_of_mem_targets
  rw [targets_encodingRoots, List.mem_append]
  exact .inl (List.mem_flatMap.mpr ⟨t, ht, hi⟩)

theorem mem_visited_of_static {k : Kernel} {e : Element} (he : e ∈ k.statics.elements) {i : Nat}
    (hi : i ∈ k.heap.staticTargets e) : i ∈ k.visited := by
  apply mem_visited_of_mem_targets
  rw [targets_encodingRoots, List.mem_append]
  exact .inr (List.mem_flatMap.mpr ⟨e, he, hi⟩)

section

variable {k₁ k₂ : Kernel}

theorem thread_alike {t₁ t₂ : Thread} (ht₁ : t₁ ∈ k₁.threads.toList) (ht₂ : t₂ ∈ k₂.threads.toList)
    (hstack : FitsWords.StackRead k₁ k₂ t₁ t₂) (hstate : FitsWords.StateRead k₁ k₂ t₁ t₂) :
    t₁.Alike k₁.heap k₂.heap (k₁.VisitedAlike k₂) t₂ where
  object := by
    apply hstack.object.restrict
    intro i j hi hj hij
    refine ⟨mem_visited_of_thread ht₁ ?_, mem_visited_of_thread ht₂ ?_, hij⟩
    · simp [Heap.threadTargets, hi]
    · simp [Heap.threadTargets, hj]
  frames := by
    have hframes := hstack.frames
    rw [List.forall₂_iff_zip] at hframes ⊢
    refine ⟨hframes.1, ?_⟩
    intro f₁ f₂ hf
    have hmem := List.of_mem_zip hf
    have hframe := hframes.2 hf
    refine ⟨hframe.method, hframe.pc, Cell.Corresponds.restrict hframe.cells ?_⟩
    intro i j hi hj hij
    refine ⟨mem_visited_of_thread ht₁ ?_, mem_visited_of_thread ht₂ ?_, hij⟩
    · exact List.mem_append_right _ (List.mem_flatMap.mpr ⟨f₁, hmem.1, hi⟩)
    · exact List.mem_append_right _ (List.mem_flatMap.mpr ⟨f₂, hmem.2, hj⟩)
  gid := hstate.gid
  interrupted := hstate.interrupted
  suspended := hstate.suspended
  permit := hstate.permit
  lockObject := hstate.lockObject
  locked := hstate.locked

theorem static_alike {e₁ e₂ : Element} (he₁ : e₁ ∈ k₁.statics.elements)
    (he₂ : e₂ ∈ k₂.statics.elements)
    (he : e₁.StaticCorresponds k₁.heap k₂.heap (k₁.heap.SameName k₂.heap) e₂) :
    e₁.StaticCorresponds k₁.heap k₂.heap (k₁.VisitedAlike k₂) e₂ where
  classId := he.classId
  code := he.code
  classRef := by
    have hr := he.classRef
    cases hr₁ : e₁.classRef? with
    | none =>
      rw [hr₁] at hr
      cases hr₂ : e₂.classRef? with
      | none => exact .none
      | some r₂ =>
        rw [hr₂] at hr
        cases hr
    | some r₁ =>
      rw [hr₁] at hr
      cases hr₂ : e₂.classRef? with
      | none =>
        rw [hr₂] at hr
        cases hr
      | some r₂ =>
        rw [hr₂] at hr
        cases hr with
        | some hr =>
          apply Option.Rel.some
          apply hr.restrict
          intro i j hi hj hij
          refine ⟨mem_visited_of_static he₁ ?_, mem_visited_of_static he₂ ?_, hij⟩
          · simp [Heap.staticTargets, hr₁, hi]
          · simp [Heap.staticTargets, hr₂, hj]
  cells := by
    apply Cell.Corresponds.restrict he.cells
    intro i j hi hj hij
    exact ⟨mem_visited_of_static he₁ (List.mem_append_right _ hi),
      mem_visited_of_static he₂ (List.mem_append_right _ hj), hij⟩

theorem object_alike {i j : Nat} (hi : i ∈ k₁.visited) (hj : j ∈ k₂.visited)
    (hij : FitsWords.ObjectsRead k₁ k₂ i j) :
    ∃ e₁ e₂, k₁.heap.arena.get? i = some e₁ ∧ k₂.heap.arena.get? j = some e₂ ∧
      e₁.Corresponds k₁.heap k₂.heap (k₁.VisitedAlike k₂) e₂ := by
  obtain ⟨e₁, e₂, he₁, he₂, he⟩ := hij
  refine ⟨e₁, e₂, he₁, he₂, he.gid, he.classId, he.length, Cell.Corresponds.restrict he.cells ?_⟩
  intro i' j' hi' hj' hij'
  refine ⟨mem_visited_of_mem_references hi ?_, mem_visited_of_mem_references hj ?_, hij'⟩
  · unfold Heap.referencesAt
    rwa [he₁, Heap.targets_fieldReferences]
  · unfold Heap.referencesAt
    rwa [he₂, Heap.targets_fieldReferences]

end

/-- States over one registry whose encodings can be compared: nothing wraps, and the program says which
slots of a frame are references. -/
structure Comparable (k₁ k₂ : Kernel) : Prop where
  classes : k₁.classes = k₂.classes
  fits₁ : k₁.FitsWords
  fits₂ : k₂.FitsWords
  marks : List.Forall₂ Thread.MarksAgree k₁.threads.toList k₂.threads.toList

namespace Comparable

variable {k₁ k₂ : Kernel}

theorem objectsRead_of_visitedAlike (hunique : BiUnique (k₁.heap.SameName k₂.heap))
    (hobjects : List.Forall₂ (FitsWords.ObjectsRead k₁ k₂) k₁.visited k₂.visited) {i j : Nat}
    (hij : k₁.VisitedAlike k₂ i j) : FitsWords.ObjectsRead k₁ k₂ i j := by
  rw [List.forall₂_iff_get] at hobjects
  obtain ⟨n, rfl⟩ := List.mem_iff_get.mp hij.1
  have hread := hobjects.2 n n.2 (hobjects.1 ▸ n.2)
  obtain ⟨e₁, e₂, he₁, he₂, he⟩ := id hread
  -- the partner in the list is the only slot of that name
  have hj := hunique.2 ⟨e₁, e₂, he₁, he₂, he.gid⟩ hij.2.2
  exact hj ▸ hread

variable (hk : k₁.Comparable k₂) (hw₁ : k₁.WellShaped) (hw₂ : k₂.WellShaped)
  (hunique : BiUnique (k₁.heap.SameName k₂.heap))

include hk hw₁ hw₂ hunique

theorem body_append_inj {rest₁ rest₂ : List Int32}
    (h : k₁.encodedBody ++ rest₁ = k₂.encodedBody ++ rest₂) :
    List.Forall₂ (FitsWords.StackRead k₁ k₂) k₁.threads.toList k₂.threads.toList ∧
      List.Forall₂ (Element.StaticCorresponds k₁.heap k₂.heap (k₁.heap.SameName k₂.heap))
        k₁.statics.elements k₂.statics.elements ∧
      List.Forall₂ (FitsWords.ObjectsRead k₁ k₂) k₁.visited k₂.visited ∧ rest₁ = rest₂ := by
  unfold encodedBody at h
  rw [List.append_assoc, List.append_assoc, List.append_assoc, List.append_assoc] at h
  obtain ⟨hstacks, h⟩ := flatMap_append_inj hk.marks (fun t₁ ht₁ t₂ ht₂ ht _ _ =>
    hk.fits₁.stack_append_inj hk.fits₂ ht₁ ht₂ ht) h
  obtain ⟨hstatics, h⟩ := hk.fits₁.statics_append_inj hk.fits₂ hw₁ hw₂ hk.classes h
  -- stacks and statics name the objects from which the visit starts
  have hroots : List.Forall₂ (k₁.heap.SameName k₂.heap) (k₁.heap.targets k₁.encodingRoots)
      (k₂.heap.targets k₂.encodingRoots) := by
    rw [targets_encodingRoots, targets_encodingRoots]
    apply List.rel_append
    · apply List.rel_flatMap hstacks
      intro t₁ t₂ ht
      exact List.rel_append (forall₂_toList ht.object)
        (List.rel_flatMap ht.frames fun _ _ hf => Alike.cellTargets hf.cells)
    · exact List.rel_flatMap hstatics fun _ _ he => Alike.staticTargets he
  obtain ⟨hobjects, hrest⟩ := hk.fits₁.visit_append_inj hk.fits₂ hw₁ hw₂ hk.classes
    hunique hroots
    (fun _ _ _ => by rw [SlotSet.contains_empty, SlotSet.contains_empty]) h
  exact ⟨hstacks, hstatics, hobjects, hrest⟩

theorem corresponds_of_encode {w : List Int32} (he₁ : k₁.encode = .ok w) (he₂ : k₂.encode = .ok w) :
    k₁.Corresponds k₂ (k₁.VisitedAlike k₂) ∧ List.Forall₂ (k₁.VisitedAlike k₂) k₁.visited k₂.visited := by
  obtain ⟨n₁, howner₁, h₁⟩ := encode_eq_ok.mp he₁
  obtain ⟨n₂, howner₂, h₂⟩ := encode_eq_ok.mp he₂
  have h := h₁.trans h₂.symm
  obtain ⟨hstacks, hstatics, hobjects, h⟩ := hk.body_append_inj hw₁ hw₂ hunique h
  obtain ⟨hstates, h⟩ := flatMap_append_inj hk.marks (fun t₁ ht₁ t₂ ht₂ _ _ _ =>
    hk.fits₁.state_append_inj hk.fits₂ ht₁ ht₂) h
  rw [List.cons.injEq, List.cons.injEq] at h
  obtain ⟨hflag, howner, -⟩ := h
  have halike : List.Forall₂ (k₁.VisitedAlike k₂) k₁.visited k₂.visited := by
    rw [List.forall₂_iff_zip] at hobjects ⊢
    refine ⟨hobjects.1, ?_⟩
    intro i j hij
    have hmem := List.of_mem_zip hij
    obtain ⟨e₁, e₂, he₁, he₂, he⟩ := hobjects.2 hij
    exact ⟨hmem.1, hmem.2, e₁, e₂, he₁, he₂, he.gid⟩
  refine ⟨?_, halike⟩
  constructor
  · constructor
    · exact ⟨fun _ _ _ h h' => hunique.1 h.2.2 h'.2.2, fun _ _ _ h h' => hunique.2 h.2.2 h'.2.2⟩
    · intro i j hij
      exact object_alike hij.1 hij.2.1 (objectsRead_of_visitedAlike hunique hobjects hij)
    · rw [List.forall₂_iff_zip] at hstacks hstates ⊢
      refine ⟨hstacks.1, ?_⟩
      intro t₁ t₂ ht
      have hmem := List.of_mem_zip ht
      exact thread_alike hmem.1 hmem.2 (hstacks.2 ht) (hstates.2 ht)
    · rw [hw₁.loaded, hw₂.loaded, hstatics.length_eq]
    · rw [List.forall₂_iff_zip] at hstatics ⊢
      refine ⟨hstatics.1, ?_⟩
      intro e₁ e₂ he
      have hmem := List.of_mem_zip he
      exact static_alike hmem.1 hmem.2 (hstatics.2 he)
    · revert hflag
      cases k₁.heap.outOfMemory <;> cases k₂.heap.outOfMemory <;> decide
    · rw [howner₁, howner₂, nameWord_inj (hk.fits₁.atomicOwnerName_lt howner₁)
        (hk.fits₂.atomicOwnerName_lt howner₂) howner]
  · exact map_eq_iff_forall₂.mpr (hstates.imp fun _ _ ht => ht.state)

end Comparable

/-- Equal encodings come from states between whose visited objects a bijection keeps names, classes,
lengths and slots, and that agree on their threads, static slots and flags. -/
theorem encode_readable {k₁ k₂ : Kernel} (hb₁ : Built (fun k op => op.IsProper k) k₁)
    (hb₂ : Built (fun k op => op.IsProper k) k₂) (hk : k₁.Comparable k₂) {w : List Int32}
    (he₁ : k₁.encode = .ok w) (he₂ : k₂.encode = .ok w) :
    ∃ f : Nat → Nat, Set.BijOn f {i | i ∈ k₁.visited} {j | j ∈ k₂.visited} ∧
      k₁.Corresponds k₂ fun i j => i ∈ k₁.visited ∧ f i = j := by
  have hunique := Heap.SameName.biUnique (Named.built hb₁).distinctObjects
    (Named.built hb₂).distinctObjects
  obtain ⟨hcorr, hvisit⟩ := hk.corresponds_of_encode (.built hb₁) (.built hb₂) hunique he₁ he₂
  -- where `f` sends the other slots does not matter
  have hright : ∀ i, ∃ j, i ∈ k₁.visited → k₁.VisitedAlike k₂ i j := by
    intro i
    by_cases hi : i ∈ k₁.visited
    · obtain ⟨j, hij⟩ := exists_right_of_forall₂ hvisit hi
      exact ⟨j, fun _ => hij⟩
    · exact ⟨0, fun h => absurd h hi⟩
  obtain ⟨f, hf⟩ := Classical.skolem.mp hright
  have hfun : k₁.VisitedAlike k₂ = fun i j => i ∈ k₁.visited ∧ f i = j := by
    funext i j
    apply propext
    constructor
    · intro hij
      exact ⟨hij.1, hcorr.unique.2 (hf i hij.1) hij⟩
    · intro ⟨hi, hij⟩
      exact hij ▸ hf i hi
  refine ⟨f, ⟨?_, ?_, ?_⟩, hfun ▸ hcorr⟩
  · intro i hi
    exact (hf i hi).2.1
  · intro i hi i' hi' hii'
    exact hcorr.unique.1 (hf i hi) (hii' ▸ hf i' hi')
  · intro j hj
    obtain ⟨i, hij⟩ := exists_right_of_forall₂ hvisit.flip hj
    exact ⟨i, hij.1, hcorr.unique.2 (hf i hij.1) hij⟩

def twoStatics : ClassDescriptor :=
  { name := "Shared", statics := ⟨[⟨"first", .reference⟩, ⟨"second", .reference⟩]⟩ }

def twoArrays (numbersFirst : Bool) : List Op :=
  let references : Op := .newArray .reference 2 none (some ⟨1, 0⟩)
  let numbers : Op := .newArray .int 1 none (some ⟨2, 0⟩)
  let (r, n) : Ref × Ref := if numbersFirst then (⟨2⟩, ⟨1⟩) else (⟨1⟩, ⟨2⟩)
  [.register twoStatics, .load 3] ++ (if numbersFirst then [numbers, references] else [references, numbers]) ++
    [.writeStatic 3 "first" (.ref r), .writeStatic 3 "second" (.ref n), .writeSlot r 1 (.ref n),
      .writeSlot n 0 (.int 7), .createThread "main" none none,
      .start 0 { method := 0, pc := some 3, slots := #[n.slot, 5], refs := ⟨1⟩, locals := 2 }, .lock 0 n]

def arraysInOrder : Kernel := (withLimit none).performAll (twoArrays false)

def arraysReversed : Kernel := ((withLimit none).adopt arraysInOrder).performAll (twoArrays true)

theorem isProper_twoArrays (numbersFirst : Bool) (k : Kernel) :
    ∀ op ∈ twoArrays numbersFirst, op.IsProper k := by
  have hplain : twoStatics.IsPlain := by
    refine ⟨rfl, ?_⟩
    intro elem
    cases elem <;> decide
  cases numbersFirst <;> simp [twoArrays, Op.IsProper, Op.KeepsArrayNames, hplain]

theorem comparable_arrays : arraysInOrder.Comparable arraysReversed where
  classes := by decide +kernel
  fits₁ := by constructor <;> decide +kernel
  fits₂ := by constructor <;> decide +kernel
  marks := by decide +kernel

theorem encode_readable_arrays :
    arraysInOrder.heap.nameOf? ⟨1⟩ = arraysReversed.heap.nameOf? ⟨2⟩ ∧
      ∃ f : Nat → Nat, Set.BijOn f {i | i ∈ arraysInOrder.visited} {j | j ∈ arraysReversed.visited} ∧
        arraysInOrder.Corresponds arraysReversed fun i j => i ∈ arraysInOrder.visited ∧ f i = j := by
  have hb₁ : Built (fun k op => op.IsProper k) arraysInOrder :=
    (Built.start none {}).performAll (isProper_twoArrays false)
  have hb₂ : Built (fun k op => op.IsProper k) arraysReversed := by
    apply Built.performAll _ (isProper_twoArrays true)
    exact .adopt (.start none {}) hb₁ ⟨by decide +kernel, by decide +kernel⟩
  have hw : arraysInOrder.encode.toOption = arraysReversed.encode.toOption := by decide +kernel
  obtain ⟨w, hw₁⟩ : ∃ w, arraysInOrder.encode.toOption = some w := by
    rw [← Option.isSome_iff_exists]
    decide +kernel
  exact ⟨by decide +kernel, encode_readable hb₁ hb₂ comparable_arrays
    (toOption_eq_some.mp hw₁) (toOption_eq_some.mp (hw ▸ hw₁))⟩

def arrayInstance : List Op :=
  [.newObject 5 none none, .newObject 3 none none, .writeSlot ⟨2⟩ 3 (.int 4)]

def arrayAndObject : List Op :=
  [.newArray .int 3 none none, .newObject 4 none none]

def fourNumbers : ClassDescriptor where
  name := "Quad"
  instances := ⟨[⟨"a", .int⟩, ⟨"b", .int⟩, ⟨"c", .int⟩, ⟨"d", .int⟩]⟩

def sharedPair (objects : List Op) : Kernel :=
  (withLimit none).performAll ([.register fourNumbers, .register twoStatics, .register (.array .int),
    .load 4] ++ objects ++ [.writeStatic 4 "first" (.ref ⟨1⟩), .writeStatic 4 "second" (.ref ⟨2⟩)])

theorem encode_ambiguous_arrayInstance :
    ∃ k₁ k₂ w, Built (fun _ op => op.KeepsArrayNames) k₁ ∧ Built (fun _ op => op.KeepsArrayNames) k₂ ∧
      k₁.heap.DistinctNames ∧ k₂.heap.DistinctNames ∧ k₁.pool = k₂.pool ∧ k₁.Comparable k₂ ∧
      k₁.encode = .ok w ∧ k₂.encode = .ok w ∧ ¬ ∃ f : Nat → Nat, Set.BijOn f {i | i ∈ k₁.visited} {j | j ∈ k₂.visited} ∧
        k₁.Corresponds k₂ fun i j => i ∈ k₁.visited ∧ f i = j := by
  have hplain : ∀ c : ClassDescriptor, c = fourNumbers ∨ c = twoStatics → c.IsPlain := by
    rintro c (rfl | rfl) <;> refine ⟨rfl, ?_⟩ <;> intro elem <;> cases elem <;> decide
  have hbuilt : ∀ objects : List Op, (∀ op ∈ objects, op.KeepsArrayNames) →
      Built (fun _ op => op.KeepsArrayNames) (sharedPair objects) := by
    intro objects hobjects
    apply (Built.start none {}).performAll
    intro _ op hop
    simp only [List.mem_append, List.mem_cons, List.not_mem_nil, or_false] at hop
    rcases hop with ((rfl | rfl | rfl | rfl) | hop) | rfl | rfl
    · exact .inl (hplain _ (.inl rfl))
    · exact .inl (hplain _ (.inr rfl))
    · exact .inr ⟨.int, rfl⟩
    · trivial
    · exact hobjects op hop
    · trivial
    · trivial
  have hb₁ := hbuilt arrayInstance (by simp [arrayInstance, Op.KeepsArrayNames])
  have hb₂ := hbuilt arrayAndObject (by simp [arrayAndObject, Op.KeepsArrayNames])
  refine ⟨_, _, [1, 4, -1, 0, 1, 2, 0, 5, 3, 0, 0, 0, 4, 0, -1], hb₁, hb₂,
    (Named.built hb₁).distinctObjects, (Named.built hb₂).distinctObjects, by decide +kernel, ?_,
    toOption_eq_some.mp (by decide +kernel), toOption_eq_some.mp (by decide +kernel), ?_⟩
  · constructor
    · decide +kernel
    · constructor <;> decide +kernel
    · constructor <;> decide +kernel
    · decide +kernel
  · -- the first object has no length here, and the only object of its name there has one
    intro ⟨f, _, hcorr⟩
    obtain ⟨e₁, e₂, he₁, he₂, he⟩ := hcorr.objects 1 (f 1) ⟨by decide +kernel, rfl⟩
    have hfirst : ∀ e ∈ (sharedPair arrayInstance).heap.arena.get? 1, e.gid = 1 ∧ e.length? = none := by
      decide +kernel
    have hnamed : ∀ e ∈ (sharedPair arrayAndObject).heap.elements, e.gid = 1 → e.length? = some 3 := by
      decide +kernel
    obtain ⟨hgid, hlength⟩ := hfirst e₁ he₁
    have := hnamed e₂ (Heap.mem_elements he₂) (he.gid ▸ hgid)
    rw [← he.length, hlength] at this
    cases this

end Kernel

end Interleave
