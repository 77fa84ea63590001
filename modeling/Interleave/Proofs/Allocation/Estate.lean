import Interleave.Proofs.Allocation.Ground
import Interleave.Proofs.Allocation.Work
import Interleave.Proofs.Field.Slots

/-!
What a thread has after its work, without regard to the slots of the heap: the things it has made, with
their names and contents, and the contents of its top frame. The slots of objects and frames take writes
as their contents do.
-/

namespace Interleave

def overwrite {α : Type} (l : List α) (i : Nat) : List α → List α
  | [] => l
  | x :: xs => overwrite (l.set i x) (i + 1) xs

theorem mem_overwrite {α : Type} {l xs : List α} {i : Nat} {x : α} (h : x ∈ overwrite l i xs) :
    x ∈ l ∨ x ∈ xs := by
  induction xs generalizing l i with
  | nil => exact .inl h
  | cons y xs ih =>
    rcases ih h with h | h
    · rcases List.mem_or_eq_of_mem_set h with h | rfl
      · exact .inl h
      · exact .inr List.mem_cons_self
    · exact .inr (List.mem_cons_of_mem y h)

theorem overwrite_eq_self {α : Type} {l xs : List α} {i : Nat}
    (h : ∀ j x, xs[j]? = some x → l[i + j]? = some x) : overwrite l i xs = l := by
  induction xs generalizing l i with
  | nil => rfl
  | cons x xs ih =>
    have hset : l.set i x = l := by
      obtain ⟨hlt, hx⟩ := List.getElem?_eq_some_iff.mp (h 0 x rfl)
      rw [← hx]
      exact List.set_getElem_self hlt
    unfold overwrite
    rw [hset]
    apply ih
    intro j y hy
    rw [Nat.add_assoc, Nat.add_comm 1 j]
    exact h (j + 1) y hy

theorem map_overwrite {α β : Type} (g : α → β) (l xs : List α) (i : Nat) :
    (overwrite l i xs).map g = overwrite (l.map g) i (xs.map g) := by
  induction xs generalizing l i with
  | nil => rfl
  | cons x xs ih =>
    unfold overwrite
    rw [ih, List.map_set, List.map_cons]

theorem Layout.getElem?_refMask {l : Layout} {name : String} {slot : Nat} {kind : ValueKind}
    (h : l.lookup? name = some (slot, kind)) :
    ∀ j, j < kind.width → l.refMask[slot + j]? = some kind.isReference := by
  intro j hj
  obtain ⟨p, hp, heq⟩ := Option.map_eq_some_iff.mp h
  cases heq
  exact getElem?_refMask_iff.mpr
    ⟨p, List.mem_of_find?_eq_some hp, ⟨Nat.le_add_right _ _, Nat.add_lt_add_left hj _⟩, rfl⟩

namespace Shape

variable {sh : Shape}

theorem getElem?_marks_of_field? {name : String} {slot : Nat} {kind : ValueKind}
    (h : sh.field? name = some (slot, kind)) :
    ∀ j, j < kind.width → sh.marks[slot + j]? = some kind.isReference := by
  cases sh with
  | object desc => exact Layout.getElem?_refMask h
  | array => cases h

theorem getElem?_marks_of_element? {i : Nat} {elem : ValueKind} (h : sh.element? i = some elem) :
    ∀ j, j < elem.width → sh.marks[i * elem.width + j]? = some elem.isReference := by
  intro j hj
  cases sh with
  | object => cases h
  | array elem' length =>
    obtain ⟨hi, heq⟩ := Option.ite_none_right_eq_some.mp h
    cases heq
    have hlt : i * elem.width + j < length * elem.width :=
      calc i * elem.width + j < (i + 1) * elem.width := by rw [Nat.succ_mul]; omega
        _ ≤ length * elem.width := Nat.mul_le_mul_right _ hi
    simp [marks, ValueKind.arrayMarks, hlt]

end Shape

theorem Value.Suits.length {v : Value} {kind : ValueKind} (h : v.Suits kind) :
    v.contents.length = kind.width := by
  have hlength := congrArg List.length h
  rwa [List.length_map, List.length_replicate] at hlength

theorem Value.Suits.slots {v : Value} {kind : ValueKind} (h : v.Suits kind) {l : List Content}
    {slot : Nat} (hl : ∀ j, j < kind.width → (l.map (·.isLink))[slot + j]? = some kind.isReference)
    {j : Nat} {c : Content} (hc : v.contents[j]? = some c) :
    ∃ c₀, l[slot + j]? = some c₀ ∧ c₀.isLink = c.isLink := by
  have hj : j < kind.width := h.length ▸ (List.getElem?_eq_some_iff.mp hc).1
  have hlink : some c.isLink = some kind.isReference := by
    unfold Suits at h
    have hmark := congrArg (·[j]?) h
    rwa [List.getElem?_map, hc, List.getElem?_replicate, if_pos hj] at hmark
  have hslot := hl j hj
  rw [← hlink, List.getElem?_map] at hslot
  exact Option.map_eq_some_iff.mp hslot

namespace Fields

variable {f f' : Fields} {own : List Ref} {l : List Content} {i : Nat}

theorem length_cells (f : Fields) : f.cells.length = f.size := by
  simp [cells, size]

theorem cells_setInt {v : Int32} (h : f.setInt i v = .ok f') :
    f'.cells = f.cells.set i (v, f.isReference i) := by
  have href := isReference_setInt h
  unfold setInt at h
  split at h
  · next hlt =>
    cases h
    apply List.ext_getElem?
    intro j
    rw [getElem?_cells, href, Array.getElem?_setIfInBounds, List.getElem?_set, getElem?_cells]
    split
    · next hij =>
      subst hij
      rw [if_pos (show i < f.values.size from hlt), if_pos (by rw [length_cells]; exact hlt)]
      rfl
    · rfl
  · cases h

theorem setInt_content (hf : f.cells = l.map (·.cell own)) {c₀ c : Content} (hl : l[i]? = some c₀)
    (hmark : c₀.isLink = c.isLink) :
    ∃ f', f.setInt i (c.cell own).1 = .ok f' ∧ f'.cells = (l.set i c).map (·.cell own) := by
  have hcell : f.values[i]?.map (fun v => (v, f.isReference i)) = some (c₀.cell own) := by
    rw [← getElem?_cells, hf, List.getElem?_map, hl]
    rfl
  obtain ⟨v, hv, hcell⟩ := Option.map_eq_some_iff.mp hcell
  have hlt : i < f.size := (Array.getElem?_eq_some_iff.mp hv).1
  have hset : f.setInt i (c.cell own).1 =
      .ok { f with values := f.values.setIfInBounds i (c.cell own).1 } :=
    if_pos hlt
  have href : f.isReference i = (c.cell own).2 := by
    rw [c.snd_cell, ← hmark, ← c₀.snd_cell own, ← hcell]
  refine ⟨_, hset, ?_⟩
  rw [cells_setInt hset, hf, href, List.map_set]

theorem write_value (hf : f.cells = l.map (·.cell own)) {v : Value}
    (hslots : ∀ j c, v.contents[j]? = some c → ∃ c₀, l[i + j]? = some c₀ ∧ c₀.isLink = c.isLink) :
    ∃ f', (v.slotValue own).write f i = .ok f' ∧
      f'.cells = (overwrite l i v.contents).map (·.cell own) := by
  cases v with
  | int w =>
    obtain ⟨c₀, hl, hmark⟩ := hslots 0 (.word w) rfl
    exact setInt_content hf hl hmark
  | ref x =>
    obtain ⟨c₀, hl, hmark⟩ := hslots 0 (.link x) rfl
    exact setInt_content hf hl hmark
  | long w =>
    obtain ⟨c₀, hl, hmark⟩ := hslots 0 _ rfl
    obtain ⟨f₁, h₁, hf₁⟩ := setInt_content hf hl hmark
    obtain ⟨c₁, hl₁, hmark₁⟩ := hslots 1 _ rfl
    rw [← List.getElem?_set_ne (Nat.ne_of_lt (Nat.lt_succ_self i))] at hl₁
    obtain ⟨f₂, h₂, hf₂⟩ := setInt_content hf₁ hl₁ hmark₁
    exact ⟨f₂, bind_eq_ok.mpr ⟨f₁, h₁, h₂⟩, hf₂⟩

end Fields

namespace Frame

variable {f f' : Frame} {own : List Ref} {stack : List Content} {i : Nat}

theorem cells_set {refs : SlotSet} {v : Int32} (hi : i < f.slots.size)
    (hrefs : ∀ j, j ≠ i → refs.contains j = f.refs.contains j) :
    { f with slots := f.slots.setIfInBounds i v, refs }.cells = f.cells.set i (v, refs.contains i) := by
  apply List.ext_getElem?
  intro j
  rw [getElem?_cells, Array.getElem?_setIfInBounds, List.getElem?_set, getElem?_cells]
  split
  · next hij =>
    subst hij
    rw [if_pos (by rw [length_cells]; exact hi)]
    rfl
  · next hij =>
    unfold isReference
    rw [hrefs j fun hji => hij hji.symm]

theorem cells_push {refs : SlotSet} {v : Int32}
    (hrefs : ∀ j, j ≠ f.slots.size → refs.contains j = f.refs.contains j) :
    { f with slots := f.slots.push v, refs }.cells =
      f.cells ++ [(v, refs.contains f.slots.size)] := by
  apply List.ext_getElem?
  intro j
  rw [getElem?_cells, Array.getElem?_push]
  split
  · next hj =>
    rw [hj, ← length_cells, List.getElem?_concat_length, length_cells]
    rfl
  · next hj =>
    unfold isReference
    rw [hrefs j hj]
    by_cases hlt : j < f.cells.length
    · rw [List.getElem?_append_left hlt, getElem?_cells]
      rfl
    · rw [length_cells] at hlt
      have hlast : (f.cells ++ [(v, refs.contains f.slots.size)]).length ≤ j := by
        rw [List.length_append, length_cells, List.length_singleton]
        omega
      rw [List.getElem?_eq_none hlast, Array.getElem?_eq_none (Nat.le_of_not_lt hlt)]
      rfl

structure Shows (f : Frame) (own : List Ref) (stack : List Content) (f' : Frame) : Prop where
  method : f'.method = f.method
  pc : f'.pc = f.pc
  locals : f'.locals = f.locals
  proper : f'.Proper
  cells : f'.cells = stack.map (·.cell own)

theorem Shows.setLocal (h : f.Shows own stack f') (c : Content) (hi : i < f.locals) :
    ∃ f'', c.setLocal own i f' = .ok f'' ∧ f.Shows own (stack.set i c) f'' := by
  rw [← h.locals] at hi
  have hlt : i < f'.slots.size := Nat.lt_of_lt_of_le hi h.proper.locals
  have hset : ∀ (v : Int32) (refs : SlotSet), (∀ j, j ≠ i → refs.contains j = f'.refs.contains j) →
      (v, refs.contains i) = c.cell own →
      f.Shows own (stack.set i c) { f' with slots := f'.slots.setIfInBounds i v, refs } := by
    intro v refs hrefs hcell
    refine ⟨h.method, h.pc, h.locals, h.proper.set hlt hrefs, ?_⟩
    rw [cells_set hlt hrefs, h.cells, hcell, List.map_set]
  cases c with
  | word v =>
    refine ⟨_, if_pos hi, hset v _ ?_ ?_⟩
    · intro j hj
      simp [hj.symm]
    · simp [Content.cell]
  | link x =>
    refine ⟨_, if_pos hi, hset _ _ ?_ ?_⟩
    · intro j hj
      simp [hj.symm]
    · simp [Content.cell]

theorem Shows.push (h : f.Shows own stack f') (c : Content) :
    f.Shows own (stack ++ [c]) (c.push own f') := by
  have hpush : ∀ (v : Int32) (refs : SlotSet),
      (∀ j, j ≠ f'.slots.size → refs.contains j = f'.refs.contains j) →
      (v, refs.contains f'.slots.size) = c.cell own →
      f.Shows own (stack ++ [c]) { f' with slots := f'.slots.push v, refs } := by
    intro v refs hrefs hcell
    refine ⟨h.method, h.pc, h.locals, h.proper.push hrefs, ?_⟩
    rw [cells_push hrefs, h.cells, hcell, List.map_append]
    rfl
  cases c with
  | word v =>
    apply hpush v f'.refs fun _ _ => rfl
    rw [h.proper.contains_size]
    rfl
  | link x =>
    apply hpush
    · intro j hj
      simp [hj.symm]
    · simp [Content.cell]

end Frame

structure Item where
  shape : Shape
  key : IdKey
  contents : List Content

structure Estate where
  items : List Item := []
  stack : List Content := []

def Shape.blank (sh : Shape) : List Content := sh.marks.map .blank

def Cell.content (c : Cell) : Content := if c.2 then .link (.given ⟨c.1⟩) else .word c.1

theorem Cell.cell_content (c : Cell) (own : List Ref) : c.content.cell own = c := by
  obtain ⟨v, isRef⟩ := c
  cases isRef <;> rfl

def Kernel.originOf (s : Kernel) (t : ThreadId) (site : Option Site) : Origin :=
  .ofCreation ((s.threads.get? t).map (·.gid)) site

namespace Estate

def start (s : Kernel) (t : ThreadId) : Estate where
  stack := (((s.threads.get? t).bind Thread.topFrame?).map Frame.cells).getD [] |>.map Cell.content

def shapes (E : Estate) : List Shape := E.items.map (·.shape)

def made (E : Estate) (o : Origin) : Nat := E.items.countP (·.key.origin = o)

def add (s : Kernel) (E : Estate) (o : Origin) (sh : Shape) : Estate :=
  { E with items := E.items ++ [⟨sh, ⟨o, s.tally.count o + E.made o + 1⟩, sh.blank⟩] }

def write (E : Estate) (j slot : Nat) (cs : List Content) : Estate :=
  { E with items := E.items.modify j fun item =>
      { item with contents := overwrite item.contents slot cs } }

def after (s : Kernel) (t : ThreadId) (E : Estate) : Work → Estate
  | .newObject c site =>
    match s.classes.classes[c]? with
    | some desc => E.add s (s.originOf t site) (.object desc)
    | none => E
  | .newArray elem length site => E.add s (s.originOf t site) (.array elem length)
  | .setField j name v =>
    match E.shapes[j]?.bind (Shape.field? name) with
    | some (slot, _) => E.write j slot v.contents
    | none => E
  | .setElement j i v => E.write j (i * v.contents.length) v.contents
  | .setLocal i c => { E with stack := E.stack.set i c }
  | .push c => { E with stack := E.stack ++ [c] }

end Estate

structure Item.Sound (s : Kernel) (n : Nat) (item : Item) : Prop where
  marks : item.contents.map (·.isLink) = item.shape.marks
  known : ∀ c ∈ item.contents, c.IsKnown s n

theorem Item.Sound.mono {s : Kernel} {n m : Nat} {item : Item} (h : item.Sound s n) (hle : n ≤ m) :
    item.Sound s m :=
  ⟨h.marks, fun c hc => (h.known c hc).mono hle⟩

theorem Content.isLink_blank (isRef : Bool) : (blank isRef).isLink = isRef := by
  cases isRef <;> rfl

theorem Content.isKnown_blank (s : Kernel) (n : Nat) (isRef : Bool) : (blank isRef).IsKnown s n := by
  cases isRef with
  | false => trivial
  | true => exact .inl rfl

theorem Cell.isKnown_content {s : Kernel} {c : Cell} (h : c.IsSafe s.heap) (n : Nat) :
    c.content.IsKnown s n := by
  unfold content
  split
  · next hc => exact h hc
  · trivial

namespace Estate

structure Sound (s : Kernel) (E : Estate) : Prop where
  items : ∀ item ∈ E.items, item.Sound s E.items.length
  stack : ∀ c ∈ E.stack, c.IsKnown s E.items.length

variable {s : Kernel} {E : Estate} {t : ThreadId} {j slot : Nat} {v : Value}

theorem length_shapes (E : Estate) : E.shapes.length = E.items.length := List.length_map _

theorem item_of_shape {α : Type} {g : Shape → Option α} {x : α} (h : E.shapes[j]?.bind g = some x) :
    ∃ item, E.items[j]? = some item ∧ g item.shape = some x := by
  obtain ⟨sh, hsh, hx⟩ := Option.bind_eq_some_iff.mp h
  obtain ⟨item, hitem, rfl⟩ := Option.map_eq_some_iff.mp ((List.getElem?_map ..).symm.trans hsh)
  exact ⟨item, hitem, hx⟩

theorem shapes_write (cs : List Content) : (E.write j slot cs).shapes = E.shapes := by
  unfold shapes write
  apply List.ext_getElem?
  intro i
  rw [List.getElem?_map, List.getElem?_map, List.getElem?_modify]
  cases E.items[i]? with
  | none => rfl
  | some item => split <;> rfl

theorem length_write (cs : List Content) : (E.write j slot cs).items.length = E.items.length :=
  List.length_modify ..

theorem made_write (cs : List Content) (o : Origin) : (E.write j slot cs).made o = E.made o := by
  have hkeys : (E.write j slot cs).items.map (·.key) = E.items.map (·.key) := by
    apply List.ext_getElem?
    intro i
    rw [List.getElem?_map, List.getElem?_map, write, List.getElem?_modify]
    cases E.items[i]? with
    | none => rfl
    | some item => split <;> rfl
  have hmade : ∀ E : Estate, E.made o = (E.items.map (·.key)).countP (·.origin = o) := by
    intro E
    rw [List.countP_map]
    rfl
  rw [hmade, hmade, hkeys]

theorem made_add (o o' : Origin) (sh : Shape) :
    (E.add s o sh).made o' = E.made o' + if o' = o then 1 else 0 := by
  unfold add made
  rw [List.countP_append, List.countP_singleton]
  simp only [decide_eq_true_eq, @eq_comm Origin o']

theorem shapes_after (w : Work) : (E.after s t w).shapes = E.shapes ++ (w.shape? s).toList := by
  cases w with
  | newObject c site =>
    dsimp only [after, Work.shape?]
    cases s.classes.classes[c]? with
    | none => exact (List.append_nil _).symm
    | some desc => exact List.map_append
  | newArray => exact List.map_append
  | setField j name v =>
    dsimp only [after, Work.shape?, Option.toList]
    rw [List.append_nil]
    split
    · exact shapes_write _
    · rfl
  | setElement j i v => exact (shapes_write _).trans (List.append_nil _).symm
  | setLocal | push => exact (List.append_nil _).symm

namespace Sound

theorem start (hs : s.Closed) (t : ThreadId) : (start s t).Sound s := by
  refine ⟨nofun, ?_⟩
  intro c hc
  obtain ⟨cell, hcell, rfl⟩ := List.mem_map.mp hc
  apply Cell.isKnown_content
  cases ht : s.threads.get? t with
  | none => simp [ht] at hcell
  | some info =>
    cases hf : info.topFrame? with
    | none => simp [ht, hf] at hcell
    | some f =>
      rw [ht, Option.bind_some, hf] at hcell
      exact hs.frame (Roster.mem_toList_of_get? ht) (Array.mem_of_back? hf) cell hcell

theorem add (hE : E.Sound s) (o : Origin) (sh : Shape) : (E.add s o sh).Sound s := by
  have hlength : (E.add s o sh).items.length = E.items.length.succ := List.length_append
  refine ⟨?_, ?_⟩
  · intro item hitem
    rw [hlength]
    rcases List.mem_append.mp hitem with hitem | hitem
    · exact (hE.items item hitem).mono (Nat.le_succ _)
    · rw [List.mem_singleton.mp hitem]
      refine ⟨?_, ?_⟩
      · simp [Shape.blank, Function.comp_def, Content.isLink_blank]
      · intro c hc
        obtain ⟨isRef, -, rfl⟩ := List.mem_map.mp hc
        exact Content.isKnown_blank ..
  · intro c hc
    rw [hlength]
    exact (hE.stack c hc).mono (Nat.le_succ _)

theorem slots (hE : E.Sound s) {item : Item} (hitem : E.items[j]? = some item) {kind : ValueKind}
    (hv : v.Suits kind)
    (hmarks : ∀ i, i < kind.width → item.shape.marks[slot + i]? = some kind.isReference) :
    ∀ i c, v.contents[i]? = some c →
      ∃ c₀, item.contents[slot + i]? = some c₀ ∧ c₀.isLink = c.isLink := by
  rw [← (hE.items item (List.mem_of_getElem? hitem)).marks] at hmarks
  exact fun i c => hv.slots hmarks

theorem write (hE : E.Sound s) {item : Item} (hitem : E.items[j]? = some item)
    (hslots : ∀ i c, v.contents[i]? = some c →
      ∃ c₀, item.contents[slot + i]? = some c₀ ∧ c₀.isLink = c.isLink)
    (hknown : ∀ c ∈ v.contents, c.IsKnown s E.items.length) : (E.write j slot v.contents).Sound s := by
  refine ⟨?_, ?_⟩
  · intro item' hitem'
    rw [length_write]
    obtain ⟨i, hi⟩ := List.mem_iff_getElem?.mp hitem'
    rw [Estate.write, List.getElem?_modify] at hi
    obtain ⟨old, hold, rfl⟩ := Option.map_eq_some_iff.mp hi
    have hsound := hE.items old (List.mem_of_getElem? hold)
    split
    · next hij =>
      subst hij
      rw [hitem] at hold
      cases hold
      refine ⟨?_, ?_⟩
      · -- what is written holds references where there were references before
        rw [map_overwrite, overwrite_eq_self, hsound.marks]
        intro i isRef hi
        obtain ⟨c, hc, rfl⟩ := Option.map_eq_some_iff.mp ((List.getElem?_map ..).symm.trans hi)
        obtain ⟨c₀, hc₀, hlink⟩ := hslots i c hc
        rw [List.getElem?_map, hc₀, Option.map_some, hlink]
      · intro c hc
        rcases mem_overwrite hc with hc | hc
        · exact hsound.known c hc
        · exact hknown c hc
    · exact hsound
  · intro c hc
    rw [length_write]
    exact hE.stack c hc

end Sound

end Estate

end Interleave
