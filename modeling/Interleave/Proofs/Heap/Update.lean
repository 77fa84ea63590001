import Interleave.Heap.Basic
import Interleave.Proofs.Arena

/-!
What the updates of a heap do to its elements.
-/

namespace Interleave

theorem Ref.eq_of_index? {r r' : Ref} {i : Nat} (h : r.index? = some i) (h' : r'.index? = some i) :
    r = r' := by
  have hslot : ∀ {r : Ref}, r.index? = some i → r.slot.toInt = i := by
    intro r h
    unfold index? at h
    split at h
    · cases h
    · next hn =>
      cases h
      unfold isNull at hn
      rw [decide_eq_true_eq, Int32.lt_iff_toInt_lt] at hn
      have hz : (0 : Int32).toInt = 0 := by decide
      unfold Int32.toNatClampNeg
      omega
  cases r
  cases r'
  congr
  exact Int32.toInt_inj.mp ((hslot h).trans (hslot h').symm)

theorem Ref.mem_filterMap_index? {o : Ref} {i : Nat} (hi : o.index? = some i) {l : List Ref} :
    i ∈ l.filterMap index? ↔ o ∈ l := by
  rw [List.mem_filterMap]
  constructor
  · intro ⟨o', ho', hi'⟩
    exact eq_of_index? hi' hi ▸ ho'
  · intro ho
    exact ⟨o, ho, hi⟩

namespace Heap

theorem get?_eq_some {h : Heap} {r : Ref} {e : Element} :
    h.get? r = some e ↔ ∃ i, r.index? = some i ∧ h.arena.get? i = some e := by
  unfold get?
  rw [Option.bind_eq_some_iff]

theorem isNull_of_get? {h : Heap} {r : Ref} {e : Element} (he : h.get? r = some e) : r.isNull = false := by
  obtain ⟨i, hi, -⟩ := get?_eq_some.mp he
  rw [← Bool.not_eq_true, ← Ref.index?_eq_none_iff, hi]
  exact nofun

theorem arena_put (h : Heap) (r : Ref) (e : Element) (j : Nat) :
    (h.put r e).arena.get? j =
      if r.index? = some j then (h.arena.get? j).map fun _ => e else h.arena.get? j := by
  unfold put
  cases hr : r.index? with
  | none => rfl
  | some i =>
    rw [Arena.get?_replace]
    simp only [Option.some.injEq]

theorem get?_put (h : Heap) (r r' : Ref) (e : Element) :
    (h.put r e).get? r' = if r = r' then (h.get? r').map fun _ => e else h.get? r' := by
  unfold get?
  cases hr' : r'.index? with
  | none => simp
  | some j =>
    rw [Option.bind_some, Option.bind_some, arena_put]
    by_cases hrr : r = r'
    · rw [if_pos hrr, if_pos (hrr ▸ hr')]
    · have hne : r.index? ≠ some j := fun hr => hrr (Ref.eq_of_index? hr hr')
      rw [if_neg hrr, if_neg hne]

theorem arena_setOutOfMemory (h : Heap) (flag : Bool) : (h.setOutOfMemory flag).arena = h.arena := by
  unfold setOutOfMemory
  split <;> rfl

theorem arena_place_eq (h : Heap) (build : Ref → Element) :
    (h.place build).2.arena = (h.arena.allocate fun i => build (.ofIndex i)).2 := by
  unfold place
  dsimp only
  split
  · exact arena_setOutOfMemory _ _
  · rfl

theorem arena_place (h : Heap) (build : Ref → Element) (j : Nat) :
    (h.place build).2.arena.get? j =
      if h.arena.nextFree = j then some (build (.ofIndex j)) else h.arena.get? j := by
  rw [arena_place_eq, Arena.get?_allocate]

theorem get?_place (h : Heap) (build : Ref → Element) (r : Ref) :
    (h.place build).2.get? r =
      if r.index? = some h.arena.nextFree then some (build r) else h.get? r := by
  unfold get?
  cases hi : r.index? with
  | none => simp
  | some i =>
    have hr : Ref.ofIndex i = r := Ref.eq_of_index? (Ref.index?_ofIndex (Ref.lt_of_index?_eq_some hi)) hi
    rw [Option.bind_some, Option.bind_some, arena_place, hr]
    simp only [Option.some.injEq, eq_comm]

theorem contains_eq (h : Heap) (r : Ref) : h.contains r = r.index?.any h.arena.contains := by
  unfold contains get?
  cases r.index? with
  | none => rfl
  | some i => exact (h.arena.contains_eq i).symm

theorem get?_eq_none_of_nextFree {h : Heap} {r : Ref} (hr : r.index? = some h.arena.nextFree) :
    h.get? r = none := by
  unfold get?
  rw [hr, Option.bind_some]
  exact Arena.get?_eq_none_of_not_contains h.arena.contains_nextFree

theorem get?_place_of_some {h : Heap} {build : Ref → Element} {r : Ref} {e : Element}
    (he : h.get? r = some e) : (h.place build).2.get? r = some e := by
  rw [get?_place, if_neg, he]
  intro hr
  rw [get?_eq_none_of_nextFree hr] at he
  cases he

end Heap

end Interleave
