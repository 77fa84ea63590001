import Interleave.Encoding.Order

/-!
What the operations of an arena do to its elements, slot by slot.
-/

namespace Interleave.Arena

variable {α : Type}

theorem contains_iff (a : Arena α) (i : Nat) : a.contains i = true ↔ ∃ x, a.get? i = some x := by
  rw [contains_eq, Option.isSome_iff_exists]

theorem contains_of_get? {a : Arena α} {i : Nat} {x : α} (h : a.get? i = some x) :
    a.contains i = true := by
  rw [contains_iff]
  exact ⟨x, h⟩

theorem contains_congr {a b : Arena α} {i j : Nat} (h : b.get? j = a.get? i) :
    b.contains j = a.contains i := by
  rw [contains_eq, contains_eq, h]

theorem get?_eq_none_of_not_contains {a : Arena α} {i : Nat} (h : a.contains i = false) :
    a.get? i = none := by
  rw [contains_eq] at h
  simpa using h

theorem get?_insert (a : Arena α) (i j : Nat) (x : α) :
    (a.insert i x).get? j = if i = j then some x else a.get? j := by
  simp only [get?, insert]
  rw [Array.getElem?_set]
  split
  · rfl
  · exact join_grow _ _ _

theorem get?_modify (a : Arena α) (i j : Nat) (f : α → α) :
    (a.modify i f).get? j = if i = j then (a.get? j).map f else a.get? j := by
  unfold modify
  split
  · simp only [get?]
    rw [Array.getElem?_set]
    split
    · next hij => simp [hij]
    · rfl
  · next hc =>
    split
    · next hij =>
      subst hij
      rw [get?_eq_none_of_not_contains (Bool.eq_false_iff.mpr hc)]
      rfl
    · rfl

theorem get?_replace (a : Arena α) (i j : Nat) (x : α) :
    (a.replace i x).get? j = if i = j then (a.get? j).map fun _ => x else a.get? j :=
  a.get?_modify i j _

theorem get?_erase (a : Arena α) (i j : Nat) :
    (a.erase i).get? j = if i = j then none else a.get? j := by
  unfold erase
  split
  · simp only [get?]
    rw [Array.getElem?_set]
    split <;> rfl
  · next hc =>
    split
    · next hij => rw [← hij, get?_eq_none_of_not_contains (Bool.eq_false_iff.mpr hc)]
    · rfl

theorem erase_of_not_contains {a : Arena α} {i : Nat} (h : a.contains i = false) : a.erase i = a :=
  dif_neg (Bool.eq_false_iff.mp h)

theorem get?_foldl_erase (l : List Nat) (a : Arena α) (j : Nat) :
    (l.foldl erase a).get? j = if j ∈ l then none else a.get? j := by
  induction l generalizing a with
  | nil => simp
  | cons i l ih =>
    rw [List.foldl_cons, ih, get?_erase]
    by_cases hj : j ∈ l
    · simp [hj]
    · by_cases hij : i = j
      · simp [hij]
      · simp [hj, hij, Ne.symm hij]

theorem contains_insert (a : Arena α) (i j : Nat) (x : α) :
    (a.insert i x).contains j = (a.contains j || decide (i = j)) :=
  a.occupied.contains_insert i j

theorem contains_modify (a : Arena α) (i j : Nat) (f : α → α) :
    (a.modify i f).contains j = a.contains j := by
  unfold modify
  split <;> rfl

theorem contains_replace (a : Arena α) (i j : Nat) (x : α) :
    (a.replace i x).contains j = a.contains j :=
  a.contains_modify i j _

theorem contains_erase (a : Arena α) (i j : Nat) :
    (a.erase i).contains j = (a.contains j && decide (i ≠ j)) := by
  rw [contains_eq, contains_eq, get?_erase]
  split
  · next hij => simp [hij]
  · next hij => simp [hij]

theorem live_insert (a : Arena α) (i : Nat) (x : α) :
    (a.insert i x).live = if a.contains i then a.live else a.live + 1 := by
  unfold insert
  rw [contains_eq]
  cases a.get? i <;> rfl

theorem live_modify (a : Arena α) (i : Nat) (f : α → α) : (a.modify i f).live = a.live := by
  unfold modify
  split <;> rfl

theorem live_erase (a : Arena α) (i : Nat) :
    (a.erase i).live = if a.contains i then a.live - 1 else a.live := by
  unfold erase
  split <;> rfl

theorem contains_nextFree (a : Arena α) : a.contains a.nextFree = false := by
  unfold nextFree
  fun_induction nextFree.go a a.hint with
  | case1 i _ ih => exact ih
  | case2 i h => simpa using h

theorem get?_allocate (a : Arena α) (build : Nat → α) (j : Nat) :
    (a.allocate build).2.get? j = if a.nextFree = j then some (build j) else a.get? j := by
  unfold allocate seek
  rw [get?_insert]
  split
  · next hj => rw [hj]
  · rfl

theorem mem_elements (a : Arena α) (x : α) : x ∈ a.elements ↔ ∃ i, a.get? i = some x := by
  unfold elements
  rw [List.mem_filterMap]
  constructor
  · intro ⟨i, _, hi⟩
    exact ⟨i, hi⟩
  · intro ⟨i, hi⟩
    exact ⟨i, SlotSet.mem_toList.mpr (contains_of_get? hi), hi⟩

theorem mem_indices {a : Arena α} {i : Nat} : i ∈ a.indices ↔ a.contains i = true :=
  SlotSet.mem_toList

theorem pairwise_indices (a : Arena α) : a.indices.Pairwise (· < ·) := a.occupied.pairwise_toList

theorem indices_eq {a : Arena α} {n : Nat} (h : a.capacity ≤ n) :
    a.indices = (List.range n).filter a.contains :=
  SlotSet.toList_eq_filter_range fun _ hi => Nat.lt_of_lt_of_le (lt_capacity_of_contains hi) h

theorem elements_eq {a : Arena α} {n : Nat} (h : a.capacity ≤ n) :
    a.elements = (List.range n).filterMap a.get? := by
  unfold elements
  rw [indices_eq h, List.filterMap_filter]
  congr
  funext i
  split
  · rfl
  · next hi => rw [get?_eq_none_of_not_contains (Bool.eq_false_iff.mpr hi)]

theorem elements_empty : ({} : Arena α).elements = [] := by
  have hcapacity : ({} : Arena α).capacity ≤ 0 := Nat.le_refl 0
  exact elements_eq hcapacity

theorem map_some_elements (a : Arena α) : a.elements.map some = a.indices.map a.get? := by
  have hsome : ∀ i ∈ a.indices, (a.get? i).isSome := by
    intro i hi
    rw [← contains_eq]
    exact mem_indices.mp hi
  unfold elements
  generalize a.indices = l at hsome
  induction l with
  | nil => rfl
  | cons i l ih =>
    obtain ⟨x, hx⟩ := Option.isSome_iff_exists.mp (hsome i List.mem_cons_self)
    rw [List.filterMap_cons_some hx, List.map_cons, List.map_cons, hx,
      ih fun j hj => hsome j (List.mem_cons_of_mem i hj)]

theorem length_indices (a : Arena α) : a.indices.length = a.elements.length := by
  have hlength := congrArg List.length a.map_some_elements
  rw [List.length_map, List.length_map] at hlength
  exact hlength.symm

theorem length_elements {a : Arena α} {n : Nat} (h : a.capacity ≤ n) :
    a.elements.length = (List.range n).countP a.contains := by
  rw [← length_indices, indices_eq h]
  exact List.countP_eq_length_filter.symm

theorem length_elements_congr {a b : Arena α} (h : ∀ i, b.contains i = a.contains i) :
    b.elements.length = a.elements.length := by
  rw [length_elements (Nat.le_max_left b.capacity a.capacity),
    length_elements (Nat.le_max_right b.capacity a.capacity), funext h]

theorem countP_insert {p : Nat → Bool} {i : Nat} {l : List Nat} (hl : l.Nodup) (hi : i ∈ l)
    (hp : p i = false) : l.countP (fun j => p j || decide (i = j)) = l.countP p + 1 := by
  induction l with
  | nil => simp at hi
  | cons j l ih =>
    rw [List.nodup_cons] at hl
    rw [List.countP_cons, List.countP_cons]
    by_cases hij : i = j
    · subst hij
      have hrest : l.countP (fun j => p j || decide (i = j)) = l.countP p := by
        apply List.countP_congr
        intro j hj
        have hne : i ≠ j := fun h => hl.1 (h ▸ hj)
        simp [hne]
      simp [hrest, hp]
    · have hmem : i ∈ l := by
        cases List.mem_cons.mp hi with
        | inl h => exact absurd h hij
        | inr h => exact h
      rw [ih hl.2 hmem]
      simp [hij]
      omega

theorem length_elements_insert {a : Arena α} {i : Nat} {x : α} (h : a.contains i = false) :
    (a.insert i x).elements.length = a.elements.length + 1 := by
  have hcontains : (a.insert i x).contains = fun j => a.contains j || decide (i = j) :=
    funext fun j => a.contains_insert i j x
  have hlt : i < (a.insert i x).capacity := by
    apply lt_capacity_of_contains
    simp [hcontains]
  rw [length_elements (Nat.le_max_left (a.insert i x).capacity a.capacity),
    length_elements (Nat.le_max_right (a.insert i x).capacity a.capacity), hcontains]
  apply countP_insert List.nodup_range _ h
  rw [List.mem_range]
  omega

theorem length_elements_replace (a : Arena α) (i : Nat) (x : α) :
    (a.replace i x).elements.length = a.elements.length :=
  length_elements_congr fun j => a.contains_replace i j x

theorem length_elements_erase {a : Arena α} {i : Nat} (h : a.contains i = true) :
    (a.erase i).elements.length + 1 = a.elements.length := by
  have hcontains : a.contains = fun j => (a.erase i).contains j || decide (i = j) := by
    funext j
    rw [contains_erase]
    by_cases hij : i = j
    · simp [← hij, h]
    · simp [hij]
  have hlt := lt_capacity_of_contains h
  rw [length_elements (Nat.le_max_left (a.erase i).capacity a.capacity),
    length_elements (Nat.le_max_right (a.erase i).capacity a.capacity), hcontains]
  symm
  apply countP_insert List.nodup_range
  · rw [List.mem_range]
    omega
  · simp [contains_erase]

section

variable {a b : Arena α}

theorem get?_of_capture (h : b.capture.1 = a.capture.1) (i : Nat) : b.get? i = a.get? i := by
  have hcells : b.cells = a.cells := congrArg (·.cells) h
  unfold get?
  rw [hcells]

theorem contains_of_capture (h : b.capture.1 = a.capture.1) (i : Nat) : b.contains i = a.contains i :=
  congrArg (·.occupied.contains i) h

theorem indices_of_capture (h : b.capture.1 = a.capture.1) : b.indices = a.indices :=
  congrArg (·.occupied.toList) h

theorem elements_of_capture (h : b.capture.1 = a.capture.1) : b.elements = a.elements := by
  unfold elements
  rw [indices_of_capture h, funext (get?_of_capture h)]

end

def ofCells (cells : Array (Option α)) : Arena α where
  cells
  occupied := .ofList ((List.range cells.size).filter fun i => cells[i]?.join.isSome)
  live := cells.toList.countP Option.isSome
  marked := by
    intro i
    rw [SlotSet.contains_ofList]
    cases hi : cells[i]? with
    | none => simp [hi]
    | some x =>
      obtain ⟨hlt, hx⟩ := Array.getElem?_eq_some_iff.mp hi
      simp [hlt, hx]

end Interleave.Arena
