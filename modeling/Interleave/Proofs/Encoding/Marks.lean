import Interleave.Encoding.StateTable
import Interleave.Proofs.Encoding.Readable
import Mathlib.Data.List.Flatten
import Mathlib.Data.List.Perm.Subperm

/-!
Which slots of a frame hold references. An encoding has one word for every slot and says nothing about
its kind, so a number stands for a reference if it is the word that the reference would be written as,
and if the object that it would denote is listed anyway.
-/

namespace Interleave

def Frame.line (f : Frame) : List Cell :=
  (wordOf f.method, false) :: (f.pc.elim (-1) wordOf, false) :: (wordOf f.slots.size, false) :: f.cells

def Thread.line (t : Thread) : List Cell :=
  (t.object.slot, true) :: (wordOf t.depth, false) :: t.frames.toList.flatMap Frame.line

namespace Heap

theorem stackWords_eq (h : Heap) (t : Thread) : h.stackWords t = t.line.map h.cellWord := by
  unfold stackWords Thread.line
  rw [List.map_cons, List.map_cons, List.map_flatMap]
  congr 3
  funext f
  exact h.frameWords_eq f

theorem threadTargets_eq (h : Heap) (t : Thread) : h.threadTargets t = t.line.filterMap h.cellTarget := by
  unfold threadTargets Thread.line
  have hobject : h.cellTarget (t.object.slot, true) = h.slot? t.object := rfl
  have hdepth : h.cellTarget (wordOf t.depth, false) = none := rfl
  rw [List.filterMap_cons, List.filterMap_cons, List.filterMap_flatMap, hobject, hdepth]
  cases h.slot? t.object <;> rfl

end Heap

def Frame.write (f : Frame) (i : Nat) (c : Cell) : Frame :=
  { f with
    slots := f.slots.setIfInBounds i c.1
    refs := if c.2 then f.refs.insert i else f.refs.erase i }

theorem Frame.cells_write (f : Frame) (i : Nat) (c : Cell) : (f.write i c).cells = f.cells.set i c := by
  apply List.ext_getElem?
  intro j
  rw [getElem?_cells, List.getElem?_set, getElem?_cells, length_cells]
  unfold write isReference
  dsimp only
  rw [Array.getElem?_setIfInBounds]
  by_cases hij : i = j
  · subst hij
    rw [if_pos rfl, if_pos rfl]
    by_cases hi : i < f.slots.size
    · rw [if_pos hi, if_pos hi]
      obtain ⟨v, isRef⟩ := c
      cases isRef <;> simp
    · rw [if_neg hi, if_neg hi]
      rfl
  · rw [if_neg hij, if_neg hij]
    congr 1
    funext v
    split <;> simp [hij]

def Thread.write (t : Thread) (n i : Nat) (c : Cell) : Thread :=
  { t with frames := t.frames.modify n (·.write i c) }

theorem Thread.depth_write (t : Thread) (n i : Nat) (c : Cell) : (t.write n i c).depth = t.depth :=
  Array.size_modify

theorem flatMap_modify {α β : Type} {f : α → List β} {g : α → α} {l : List α} {i : Nat} {a : α}
    (h : l[i]? = some a) :
    (l.modify i g).flatMap f = (l.take i).flatMap f ++ f (g a) ++ (l.drop (i + 1)).flatMap f := by
  obtain ⟨hi, rfl⟩ := List.getElem?_eq_some_iff.mp h
  rw [List.modify_eq_take_drop, List.drop_eq_getElem_cons hi, List.modifyHead_cons, List.flatMap_append,
    List.flatMap_cons, List.append_assoc]

theorem flatMap_modify_of_eq {α β : Type} {f : α → List β} {g : α → α} (h : ∀ a, f (g a) = f a)
    (l : List α) (i : Nat) : (l.modify i g).flatMap f = l.flatMap f := by
  induction l generalizing i with
  | nil => simp
  | cons a l ih =>
    cases i with
    | zero => simp [h]
    | succ i => simp [ih]

def Frame.lineBefore (f : Frame) (i : Nat) : List Cell := f.line.take (i + 3)

def Thread.lineBefore (t : Thread) (n i : Nat) : List Cell :=
  (t.object.slot, true) :: (wordOf t.depth, false) :: ((t.frames.toList.take n).flatMap Frame.line ++
    t.frames[n]?.toList.flatMap (·.lineBefore i))

theorem Frame.line_write {f : Frame} {i : Nat} (hi : i < f.slots.size) :
    ∃ post, ∀ c, (f.write i c).line = f.lineBefore i ++ c :: post := by
  refine ⟨f.cells.drop (i + 1), ?_⟩
  intro c
  unfold line lineBefore line
  rw [cells_write, List.set_eq_take_append_cons_drop, if_pos (by rwa [length_cells])]
  simp [write]

theorem Thread.line_write {t : Thread} {n i : Nat} {f : Frame} (hf : t.frames[n]? = some f)
    (hi : i < f.slots.size) : ∃ post, ∀ c, (t.write n i c).line = t.lineBefore n i ++ c :: post := by
  obtain ⟨post, hpost⟩ := Frame.line_write hi
  refine ⟨post ++ (t.frames.toList.drop (n + 1)).flatMap Frame.line, ?_⟩
  intro c
  unfold line lineBefore
  rw [depth_write, hf]
  unfold write
  rw [Array.toList_modify, flatMap_modify (by rwa [Array.getElem?_toList]), hpost]
  simp

namespace Kernel

def writeCell (k : Kernel) (t : ThreadId) (n i : Nat) (c : Cell) : Kernel :=
  { k with threads := { k.threads with threads := k.threads.threads.modify t (·.write n i c) } }

def cellAt? (k : Kernel) (t : ThreadId) (n i : Nat) : Option Cell := do
  let info ← k.threads.get? t
  let f ← info.frames[n]?
  f.cells[i]?

theorem cellAt?_eq_some {k : Kernel} {t : ThreadId} {n i : Nat} {c : Cell} :
    k.cellAt? t n i = some c ↔
      ∃ info f, k.threads.get? t = some info ∧ info.frames[n]? = some f ∧ f.cells[i]? = some c := by
  unfold cellAt?
  simp [Option.bind_eq_some_iff]

def stackCells (k : Kernel) : List Cell := k.threads.toList.flatMap Thread.line

/-- What an encoding writes of the stacks before slot `i` of frame `n` of thread `t`. -/
def cellsBefore (k : Kernel) (t : ThreadId) (n i : Nat) : List Cell :=
  (k.threads.toList.take t).flatMap Thread.line ++
    (k.threads.get? t).toList.flatMap (·.lineBefore n i)

theorem stackCells_writeCell {k : Kernel} {t : ThreadId} {n i : Nat} {c₀ : Cell}
    (h : k.cellAt? t n i = some c₀) :
    ∃ post, ∀ c, (k.writeCell t n i c).stackCells = k.cellsBefore t n i ++ c :: post := by
  obtain ⟨info, f, ht, hf, hc⟩ := cellAt?_eq_some.mp h
  have hi : i < f.slots.size := f.length_cells ▸ (List.getElem?_eq_some_iff.mp hc).1
  obtain ⟨post, hpost⟩ := Thread.line_write hf hi
  refine ⟨post ++ (k.threads.toList.drop (t + 1)).flatMap Thread.line, ?_⟩
  intro c
  unfold stackCells cellsBefore writeCell Roster.toList
  rw [ht]
  dsimp only
  rw [Array.toList_modify, flatMap_modify (Array.getElem?_toList.trans ht), hpost]
  simp

theorem encodedBody_eq (k : Kernel) :
    k.encodedBody = k.stackCells.map k.heap.cellWord ++
      (wordOf k.statics.size :: k.statics.elements.flatMap k.heap.staticWords) ++
      k.visited.flatMap k.heap.wordsAt := by
  unfold encodedBody stackCells visited
  rw [List.map_flatMap]
  congr 3
  funext t
  exact k.heap.stackWords_eq t

theorem targets_eq (k : Kernel) :
    k.heap.targets k.encodingRoots = k.stackCells.filterMap k.heap.cellTarget ++
      k.statics.elements.flatMap k.heap.staticTargets := by
  rw [targets_encodingRoots]
  unfold stackCells
  rw [List.filterMap_flatMap]
  congr 2
  funext t
  exact k.heap.threadTargets_eq t

structure DifferAt (k₁ k₂ : Kernel) (pre : List Cell) (c₁ c₂ : Cell) : Prop where
  heap : k₂.heap = k₁.heap
  statics : k₂.statics = k₁.statics
  cells : ∃ post, k₁.stackCells = pre ++ c₁ :: post ∧ k₂.stackCells = pre ++ c₂ :: post
  states : k₂.threads.toList.flatMap k₁.heap.threadWords = k₁.threads.toList.flatMap k₁.heap.threadWords
  owner : k₂.atomicOwnerName = k₁.atomicOwnerName

theorem threadWords_writeCell (k : Kernel) (t : ThreadId) (n i : Nat) (c : Cell) :
    (k.writeCell t n i c).threads.toList.flatMap k.heap.threadWords =
      k.threads.toList.flatMap k.heap.threadWords := by
  unfold writeCell Roster.toList
  dsimp only
  rw [Array.toList_modify]
  apply flatMap_modify_of_eq
  intro info
  unfold Heap.threadWords
  rw [info.depth_write]
  rfl

theorem atomicOwnerName_writeCell (k : Kernel) (t : ThreadId) (n i : Nat) (c : Cell) :
    (k.writeCell t n i c).atomicOwnerName = k.atomicOwnerName := by
  unfold atomicOwnerName writeCell Roster.get Roster.get?
  dsimp only
  cases k.atomic.owner with
  | none => rfl
  | some u =>
    dsimp only
    rw [Array.getElem?_modify]
    by_cases htu : t = u
    · rw [if_pos htu]
      cases k.threads.threads[u]? <;> rfl
    · rw [if_neg htu]

theorem differAt_writeCell {k : Kernel} {t : ThreadId} {n i : Nat} {c₀ : Cell}
    (h : k.cellAt? t n i = some c₀) (c₁ c₂ : Cell) :
    (k.writeCell t n i c₁).DifferAt (k.writeCell t n i c₂) (k.cellsBefore t n i) c₁ c₂ := by
  obtain ⟨post, hpost⟩ := stackCells_writeCell h
  refine ⟨rfl, rfl, ⟨post, hpost c₁, hpost c₂⟩, ?_, ?_⟩
  · exact (k.threadWords_writeCell t n i c₂).trans (k.threadWords_writeCell t n i c₁).symm
  · rw [atomicOwnerName_writeCell, atomicOwnerName_writeCell]

namespace DifferAt

variable {k₁ k₂ : Kernel} {pre : List Cell} {r : Ref} {v : Int32}

theorem targets (h : k₁.DifferAt k₂ pre (r.slot, true) (v, false)) :
    ∃ rest, k₁.heap.targets k₁.encodingRoots =
        pre.filterMap k₁.heap.cellTarget ++ ((k₁.heap.slot? r).toList ++ rest) ∧
      k₁.heap.targets k₂.encodingRoots = pre.filterMap k₁.heap.cellTarget ++ rest := by
  obtain ⟨post, hcells₁, hcells₂⟩ := h.cells
  have htargets₂ := k₂.targets_eq
  rw [h.heap, h.statics, hcells₂] at htargets₂
  refine ⟨post.filterMap k₁.heap.cellTarget ++ k₁.statics.elements.flatMap k₁.heap.staticTargets, ?_, ?_⟩
  · have hcell : k₁.heap.cellTarget (r.slot, true) = k₁.heap.slot? r := rfl
    rw [targets_eq, hcells₁, List.filterMap_append, List.filterMap_cons, hcell]
    cases k₁.heap.slot? r <;> simp
  · have hcell : k₁.heap.cellTarget (v, false) = none := rfl
    rw [htargets₂, List.filterMap_append, List.filterMap_cons, hcell, List.append_assoc]

theorem encode_eq (h : k₁.DifferAt k₂ pre (r.slot, true) (v, false)) (hv : v = k₁.heap.refWord r)
    (hnamed : ∀ o, k₁.heap.slot? r = some o → o ∈ pre.filterMap k₁.heap.cellTarget) :
    k₁.encode = k₂.encode := by
  have hwords : k₂.stackCells.map k₁.heap.cellWord = k₁.stackCells.map k₁.heap.cellWord := by
    obtain ⟨post, hcells₁, hcells₂⟩ := h.cells
    rw [hcells₁, hcells₂, List.map_append, List.map_append, List.map_cons, List.map_cons, hv]
    rfl
  have hvisited : k₂.visited = k₁.visited := by
    obtain ⟨rest, htargets₁, htargets₂⟩ := h.targets
    unfold visited Heap.visitOrder
    rw [h.heap]
    apply Heap.visit_congr
    rw [htargets₁, htargets₂]
    cases ho : k₁.heap.slot? r with
    | none => rfl
    | some o => exact (SlotSet.enroll_append_of_mem (.inl (hnamed o ho))).symm
  rw [Kernel.encode_eq, Kernel.encode_eq, encodedBody_eq, encodedBody_eq, h.heap, h.statics, h.owner,
    h.states, hwords, hvisited]

theorem visited_subset (h : k₁.DifferAt k₂ pre (r.slot, true) (v, false)) : k₂.visited ⊆ k₁.visited := by
  obtain ⟨rest, htargets₁, htargets₂⟩ := h.targets
  unfold visited Heap.visitOrder
  rw [h.heap]
  apply Heap.mem_visit_sound
  · intro i j hi hj
    exact mem_visited_of_mem_references hi hj
  · intro i hi
    apply mem_visited_of_mem_targets
    rw [htargets₂, List.mem_append] at hi
    rw [htargets₁, List.mem_append, List.mem_append]
    exact hi.imp_right .inr

theorem length_lt (h : k₁.DifferAt k₂ pre (r.slot, true) (v, false)) {o : Nat}
    (ho : k₁.heap.slot? r = some o) (hmissing : o ∉ k₂.visited) :
    k₂.encodedBody.length < k₁.encodedBody.length := by
  obtain ⟨rest, htargets₁, -⟩ := h.targets
  have hmem : o ∈ k₁.visited := by
    apply mem_visited_of_mem_targets
    rw [htargets₁, ho]
    simp
  have hsub : (o :: k₂.visited).Subperm k₁.visited := by
    apply List.Nodup.subperm
    · exact List.nodup_cons.mpr ⟨hmissing, (k₂.heap.nodup_visit _ _).1⟩
    · exact List.cons_subset.mpr ⟨hmem, h.visited_subset⟩
  -- its words are not counted on the right
  have hlonger : ((o :: k₂.visited).flatMap k₁.heap.wordsAt).length ≤
      (k₁.visited.flatMap k₁.heap.wordsAt).length := by
    obtain ⟨l, hperm, hsub⟩ := hsub
    rw [← (hperm.flatMap_right _).length_eq]
    exact (hsub.flatMap _).length_le
  have hwords : 0 < (k₁.heap.wordsAt o).length := by
    obtain ⟨e, he⟩ := (Arena.contains_iff _ _).mp (Heap.slot?_eq_some_iff.mp ho).2
    unfold Heap.wordsAt
    rw [he]
    exact Nat.succ_pos _
  obtain ⟨post, hcells₁, hcells₂⟩ := h.cells
  rw [encodedBody_eq, encodedBody_eq, h.heap, h.statics, hcells₁, hcells₂]
  rw [List.flatMap_cons, List.length_append] at hlonger
  simp only [List.length_append, List.length_map, List.length_cons]
  omega

theorem body_eq (h : k₁.DifferAt k₂ pre (r.slot, true) (v, false)) {w : List Int32}
    (he₁ : k₁.encode = .ok w) (he₂ : k₂.encode = .ok w) : k₁.encodedBody = k₂.encodedBody := by
  obtain ⟨n₁, howner₁, rfl⟩ := encode_eq_ok.mp he₁
  obtain ⟨n₂, howner₂, hsame⟩ := encode_eq_ok.mp he₂
  rw [h.owner, howner₁] at howner₂
  cases howner₂
  rw [h.heap, h.states] at hsame
  exact (List.append_cancel_right hsame).symm

theorem of_encode (h : k₁.DifferAt k₂ pre (r.slot, true) (v, false)) {w : List Int32}
    (he₁ : k₁.encode = .ok w) (he₂ : k₂.encode = .ok w) :
    v = k₁.heap.refWord r ∧ ∀ o, k₁.heap.slot? r = some o → o ∈ k₂.visited := by
  have hbody := h.body_eq he₁ he₂
  constructor
  · obtain ⟨post, hcells₁, hcells₂⟩ := h.cells
    rw [encodedBody_eq, encodedBody_eq, h.heap, hcells₁, hcells₂, List.append_assoc, List.append_assoc]
      at hbody
    obtain ⟨hwords, -⟩ := List.append_inj hbody (by simp)
    rw [List.map_append, List.map_append, List.map_cons, List.map_cons] at hwords
    exact (List.cons.inj (List.append_cancel_left hwords)).1.symm
  · intro o ho
    by_contra hmissing
    have hlt := h.length_lt ho hmissing
    rw [hbody] at hlt
    exact Nat.lt_irrefl _ hlt

end DifferAt

end Kernel

def Frame.SameShape (f₁ f₂ : Frame) : Prop :=
  f₁.method = f₂.method ∧ f₁.pc = f₂.pc ∧ f₁.slots.size = f₂.slots.size

def Thread.SameShape (t₁ t₂ : Thread) : Prop :=
  List.Forall₂ Frame.SameShape t₁.frames.toList t₂.frames.toList

def Kernel.SameShape (k₁ k₂ : Kernel) : Prop :=
  List.Forall₂ Thread.SameShape k₁.threads.toList k₂.threads.toList

instance (f₁ f₂ : Frame) : Decidable (f₁.SameShape f₂) :=
  inferInstanceAs (Decidable (_ ∧ _ ∧ _))

instance (t₁ t₂ : Thread) : Decidable (t₁.SameShape t₂) :=
  inferInstanceAs (Decidable (List.Forall₂ _ _ _))

instance (k₁ k₂ : Kernel) : Decidable (k₁.SameShape k₂) :=
  inferInstanceAs (Decidable (List.Forall₂ _ _ _))

theorem forall₂_getElem? {α β : Type} {R : α → β → Prop} {l₁ : List α} {l₂ : List β}
    (h : List.Forall₂ R l₁ l₂) {i : Nat} {a : α} {b : β} (ha : l₁[i]? = some a) (hb : l₂[i]? = some b) :
    R a b := by
  obtain ⟨hi₁, rfl⟩ := List.getElem?_eq_some_iff.mp ha
  obtain ⟨hi₂, rfl⟩ := List.getElem?_eq_some_iff.mp hb
  exact (List.forall₂_iff_get.mp h).2 i hi₁ hi₂

section

variable {h₁ h₂ : Heap} {rest₁ rest₂ : List Int32}

theorem Frame.SameShape.append_inj {f₁ f₂ : Frame} (hf : f₁.SameShape f₂)
    (h : h₁.frameWords f₁ ++ rest₁ = h₂.frameWords f₂ ++ rest₂) :
    f₁.cells.map h₁.cellWord = f₂.cells.map h₂.cellWord ∧ rest₁ = rest₂ := by
  rw [Heap.frameWords_eq, Heap.frameWords_eq] at h
  simp only [List.cons_append, List.cons.injEq] at h
  apply List.append_inj h.2.2.2
  rw [List.length_map, List.length_map, Frame.length_cells, Frame.length_cells, hf.2.2]

theorem Thread.SameShape.append_inj {t₁ t₂ : Thread} (ht : t₁.SameShape t₂)
    (h : h₁.stackWords t₁ ++ rest₁ = h₂.stackWords t₂ ++ rest₂) :
    List.Forall₂ (fun f₁ f₂ => f₁.cells.map h₁.cellWord = f₂.cells.map h₂.cellWord) t₁.frames.toList
      t₂.frames.toList ∧ rest₁ = rest₂ := by
  unfold Heap.stackWords at h
  simp only [List.cons_append, List.cons.injEq] at h
  exact flatMap_append_inj ht (fun _ _ _ _ hf _ _ => hf.append_inj) h.2.2

end

namespace Kernel

theorem SameShape.cellWord_eq {k₁ k₂ : Kernel} (hk : k₁.SameShape k₂) {w : List Int32}
    (he₁ : k₁.encode = .ok w) (he₂ : k₂.encode = .ok w) {t : ThreadId} {n i : Nat} {c₁ c₂ : Cell}
    (hc₁ : k₁.cellAt? t n i = some c₁) (hc₂ : k₂.cellAt? t n i = some c₂) :
    k₁.heap.cellWord c₁ = k₂.heap.cellWord c₂ := by
  obtain ⟨n₁, -, hw₁⟩ := encode_eq_ok.mp he₁
  obtain ⟨n₂, -, hw₂⟩ := encode_eq_ok.mp he₂
  have hw := hw₁.trans hw₂.symm
  -- the stacks come first
  unfold encodedBody at hw
  simp only [List.append_assoc] at hw
  obtain ⟨hthreads, -⟩ := flatMap_append_inj hk (fun _ _ _ _ ht _ _ => ht.append_inj) hw
  obtain ⟨t₁, f₁, ht₁, hf₁, hc₁⟩ := cellAt?_eq_some.mp hc₁
  obtain ⟨t₂, f₂, ht₂, hf₂, hc₂⟩ := cellAt?_eq_some.mp hc₂
  have hframes := forall₂_getElem? hthreads (Array.getElem?_toList.trans ht₁)
    (Array.getElem?_toList.trans ht₂)
  have hcells := forall₂_getElem? hframes (Array.getElem?_toList.trans hf₁)
    (Array.getElem?_toList.trans hf₂)
  exact forall₂_getElem? (List.forall₂_map_left_iff.mp (List.forall₂_map_right_iff.mp
    (List.forall₂_eq_eq_eq ▸ hcells))) hc₁ hc₂

/-- In states of the same shape with the same encoding, a number stands in the place of a reference only
if it is the word of the reference. One slot can be exchanged like that if the reference denotes nothing
or an object that has been named before, and it cannot if the object is not visited without the
reference. -/
theorem encode_marks (k : Kernel) :
    (∀ (k' : Kernel) (w : List Int32), k.SameShape k' → k.encode = .ok w → k'.encode = .ok w →
      ∀ t n i c c', k.cellAt? t n i = some c → k'.cellAt? t n i = some c' →
        c.2 = c'.2 ∨ c.2 = true ∧ c' = (k.heap.refWord ⟨c.1⟩, false) ∨
          c'.2 = true ∧ c = (k'.heap.refWord ⟨c'.1⟩, false)) ∧
    ∀ (t : ThreadId) (n i : Nat) (c : Cell) (r : Ref) (v : Int32), k.cellAt? t n i = some c →
      (v = k.heap.refWord r →
        (∀ o, k.heap.slot? r = some o → o ∈ (k.cellsBefore t n i).filterMap k.heap.cellTarget) →
        (k.writeCell t n i (r.slot, true)).encode = (k.writeCell t n i (v, false)).encode) ∧
      ∀ w, (k.writeCell t n i (r.slot, true)).encode = .ok w →
        (k.writeCell t n i (v, false)).encode = .ok w →
        v = k.heap.refWord r ∧
          ∀ o, k.heap.slot? r = some o → o ∈ (k.writeCell t n i (v, false)).visited := by
  constructor
  · rintro k' w hk he he' t n i ⟨v, isRef⟩ ⟨v', isRef'⟩ hc hc'
    have hword := hk.cellWord_eq he he' hc hc'
    cases isRef with
    | false =>
      cases isRef' with
      | false => exact .inl rfl
      | true => exact .inr (.inr ⟨rfl, Prod.ext hword rfl⟩)
    | true =>
      cases isRef' with
      | false => exact .inr (.inl ⟨rfl, Prod.ext hword.symm rfl⟩)
      | true => exact .inl rfl
  · intro t n i c r v hc
    have hdiffer := differAt_writeCell hc (r.slot, true) (v, false)
    exact ⟨hdiffer.encode_eq, fun w => hdiffer.of_encode⟩

def twoLocals : Kernel :=
  (withLimit none).performAll
    [.createThread "main" none none, .newArray .int 2 none none, .start 0 (.fresh 0 2)]

theorem encode_marks_twoLocals :
    ((twoLocals.writeCell 0 0 1 (0, true)).SameShape (twoLocals.writeCell 0 0 1 (0, false)) ∧
      ∃ w, (twoLocals.writeCell 0 0 1 (0, true)).encode = .ok w ∧
        (twoLocals.writeCell 0 0 1 (0, false)).encode = .ok w ∧ twoLocals.heap.refWord ⟨0⟩ = 0) ∧
    ∀ v, (twoLocals.writeCell 0 0 1 (1, true)).encode ≠ (twoLocals.writeCell 0 0 1 (v, false)).encode := by
  have hcell : twoLocals.cellAt? 0 0 1 = some (0, false) := by decide +kernel
  obtain ⟨w, hw⟩ : ∃ w, (twoLocals.writeCell 0 0 1 (0, true)).encode.toOption = some w := by
    rw [← Option.isSome_iff_exists]
    decide +kernel
  obtain ⟨w', hw'⟩ : ∃ w, (twoLocals.writeCell 0 0 1 (1, true)).encode.toOption = some w := by
    rw [← Option.isSome_iff_exists]
    decide +kernel
  rw [toOption_eq_some] at hw hw'
  constructor
  · have hshape : (twoLocals.writeCell 0 0 1 (0, true)).SameShape (twoLocals.writeCell 0 0 1 (0, false)) := by
      decide +kernel
    have hnamed : ∀ o ∈ twoLocals.heap.slot? ⟨0⟩,
        o ∈ (twoLocals.cellsBefore 0 0 1).filterMap twoLocals.heap.cellTarget := by decide +kernel
    have hsame := ((encode_marks twoLocals).2 0 0 1 (0, false) ⟨0⟩ 0 hcell).1 (by decide +kernel) hnamed
    refine ⟨hshape, w, hw, hsame ▸ hw, ?_⟩
    rcases (encode_marks _).1 _ w hshape hw (hsame ▸ hw) 0 0 1 (0, true) (0, false) (by decide +kernel)
      (by decide +kernel) with h | ⟨-, h⟩ | ⟨h, -⟩
    · cases h
    · exact (congrArg Prod.fst h).symm
    · cases h
  · intro v heq
    obtain ⟨hv, hmem⟩ := ((encode_marks twoLocals).2 0 0 1 (0, false) ⟨1⟩ v hcell).2 w' hw' (heq ▸ hw')
    have hone : twoLocals.heap.refWord ⟨1⟩ = 1 := by decide +kernel
    rw [hone] at hv
    subst hv
    exact absurd (hmem 1 (by decide +kernel)) (by decide +kernel)

def zeroLocal : Kernel :=
  (withLimit none).performAll [.createThread "main" none none, .start 0 (.fresh 0 1)]

def ownLocal : Kernel :=
  zeroLocal.performAll [.setFrame 0 { Frame.fresh 0 1 with refs := ⟨1⟩ }]

theorem built_zeroLocal : Built (fun k op => op.IsProper k) zeroLocal := by
  apply (Built.start none {}).performAll
  simp [Op.IsProper, Op.KeepsArrayNames]

theorem encode_confuses_marks :
    Built (fun k op => op.IsProper k) zeroLocal ∧ Built (fun k op => op.IsProper k) ownLocal ∧
      zeroLocal.SameShape ownLocal ∧ zeroLocal.cellAt? 0 0 0 = some (0, false) ∧
      ownLocal.cellAt? 0 0 0 = some (0, true) ∧
      ∃ sig, zeroLocal.signature = .ok sig ∧ ownLocal.signature = .ok sig ∧
        ((StateTable.visit { matching := .exact } sig).2.visit sig).1 = .seen 0 := by
  have hb : Built (fun k op => op.IsProper k) ownLocal := by
    apply built_zeroLocal.performAll
    simp [Op.IsProper, Op.KeepsArrayNames]
  refine ⟨built_zeroLocal, hb, by decide +kernel, by decide +kernel, by decide +kernel,
    .ofWords [0, 1, 0, 0, 1, 0, 0, 1, 5, 0, 1, 0, 1, -1, 0, 0, -1], ?_, ?_, ?_⟩
  · exact toOption_eq_some.mp (by decide +kernel)
  · exact toOption_eq_some.mp (by decide +kernel)
  · decide +kernel

end Kernel

end Interleave
