import Interleave.SlotSet

/-!
Slotted storage. An element keeps its slot from insertion to removal, freed slots are reused lowest
first, and storage grows by whole chunks. The arena records which slots were touched since it was
last captured or restored, and counts every change in an epoch that never goes back.
-/

namespace Interleave

def Marks {α : Type} (occupied : SlotSet) (cells : Array (Option α)) : Prop :=
  ∀ i, occupied.contains i = cells[i]?.join.isSome

theorem marks_empty {α : Type} : Marks .empty (#[] : Array (Option α)) := by
  intro i
  simp

structure Arena (α : Type) where
  cells : Array (Option α) := #[]
  occupied : SlotSet := .empty
  live : Nat := 0
  -- every slot below is occupied
  hint : Nat := 0
  changed : SlotSet := .empty
  epoch : Nat := 0
  marked : Marks occupied cells := by exact marks_empty

namespace Arena

structure Image (α : Type) where
  cells : Array (Option α)
  occupied : SlotSet
  live : Nat
  marked : Marks occupied cells

def chunk : Nat := 64

variable {α : Type}

def grow (cells : Array (Option α)) (i : Nat) : Array (Option α) :=
  cells ++ Array.replicate ((i / chunk + 1) * chunk - cells.size) none

theorem size_grow (cells : Array (Option α)) (i : Nat) : i < (grow cells i).size := by
  have hchunk : i < (i / chunk + 1) * chunk := by
    have := Nat.div_add_mod i chunk
    have := Nat.mod_lt i (show 0 < chunk by decide)
    unfold chunk at *
    omega
  unfold grow
  rw [Array.size_append, Array.size_replicate]
  omega

theorem join_grow (cells : Array (Option α)) (i j : Nat) :
    (grow cells i)[j]?.join = cells[j]?.join := by
  unfold grow
  rw [Array.getElem?_append]
  split
  · rfl
  · next h =>
    rw [Array.getElem?_eq_none (Nat.le_of_not_lt h), Array.getElem?_replicate]
    split <;> rfl

end Arena

namespace Marks

variable {α : Type} {occupied : SlotSet} {cells : Array (Option α)}

theorem lt_size (h : Marks occupied cells) {i : Nat} (hi : occupied.contains i = true) : i < cells.size := by
  rw [h i] at hi
  apply Nat.lt_of_not_le
  intro hle
  rw [Array.getElem?_eq_none hle] at hi
  cases hi

theorem insert (h : Marks occupied cells) (i : Nat) (x : α) :
    Marks (occupied.insert i) ((Arena.grow cells i).set i (some x) (Arena.size_grow cells i)) := by
  intro j
  rw [SlotSet.contains_insert, Array.getElem?_set]
  split
  · next hij => simp [hij]
  · next hij => rw [Arena.join_grow, h j, decide_eq_false hij, Bool.or_false]

theorem modify (h : Marks occupied cells) {i : Nat} (hi : i < cells.size) (f : α → α) :
    Marks occupied (cells.set i (cells[i]?.join.map f) hi) := by
  intro j
  rw [h j, Array.getElem?_set]
  split
  · next hij => simp [hij]
  · rfl

theorem erase (h : Marks occupied cells) {i : Nat} (hi : i < cells.size) :
    Marks (occupied.erase i) (cells.set i none hi) := by
  intro j
  rw [SlotSet.contains_erase, Array.getElem?_set]
  split
  · next hij => simp [hij]
  · next hij => rw [h j, decide_eq_true hij, Bool.and_true]

end Marks

namespace Arena

variable {α : Type}

def capacity (a : Arena α) : Nat := a.cells.size

def get? (a : Arena α) (i : Nat) : Option α := a.cells[i]?.join

def contains (a : Arena α) (i : Nat) : Bool := a.occupied.contains i

theorem contains_eq (a : Arena α) (i : Nat) : a.contains i = (a.get? i).isSome := a.marked i

theorem lt_size_of_contains {a : Arena α} {i : Nat} (h : a.contains i = true) : i < a.cells.size :=
  a.marked.lt_size h

theorem lt_capacity_of_contains {a : Arena α} {i : Nat} (h : a.contains i = true) : i < a.capacity :=
  lt_size_of_contains h

def indices (a : Arena α) : List Nat := a.occupied.toList

def elements (a : Arena α) : List α := a.indices.filterMap a.get?

def isEmpty (a : Arena α) : Bool := a.live == 0

def nextFree (a : Arena α) : Nat :=
  go a.hint
where
  go (i : Nat) : Nat :=
    if a.contains i then go (i + 1) else i
  termination_by a.capacity - i
  decreasing_by
    have := lt_capacity_of_contains (by assumption : a.contains i = true)
    omega

def seek (a : Arena α) : Nat × Arena α := (a.nextFree, { a with hint := a.nextFree })

def insert (a : Arena α) (i : Nat) (x : α) : Arena α :=
  { a with
    cells := (grow a.cells i).set i (some x) (size_grow a.cells i)
    occupied := a.occupied.insert i
    live := if (a.get? i).isNone then a.live + 1 else a.live
    changed := a.changed.insert i
    epoch := a.epoch + 1
    marked := a.marked.insert i x }

def allocate (a : Arena α) (build : Nat → α) : Nat × Arena α :=
  let (i, a) := a.seek
  (i, a.insert i (build i))

def modify (a : Arena α) (i : Nat) (f : α → α) : Arena α :=
  if h : a.contains i then
    { a with
      cells := a.cells.set i ((a.get? i).map f) (lt_size_of_contains h)
      changed := a.changed.insert i
      epoch := a.epoch + 1
      marked := a.marked.modify (lt_size_of_contains h) f }
  else
    a

def replace (a : Arena α) (i : Nat) (x : α) : Arena α := a.modify i fun _ => x

def erase (a : Arena α) (i : Nat) : Arena α :=
  if h : a.contains i then
    { cells := a.cells.set i none (lt_size_of_contains h)
      occupied := a.occupied.erase i
      live := a.live - 1
      hint := min a.hint i
      changed := a.changed.insert i
      epoch := a.epoch + 1
      marked := a.marked.erase (lt_size_of_contains h) }
  else
    a

def capture (a : Arena α) : Image α × Arena α :=
  (⟨a.cells, a.occupied, a.live, a.marked⟩, { a with changed := .empty })

def restore (a : Arena α) (m : Image α) : Arena α :=
  { cells := m.cells
    occupied := m.occupied
    live := m.live
    hint := 0
    changed := .empty
    epoch := a.epoch + 1
    marked := m.marked }

end Arena

end Interleave
