import Interleave.Heap.Basic
import Interleave.ThreadMask

/-!
Who reaches what. Masks are spread from the roots along traced references. A slot whose mask has grown is
queued, and when its turn comes it passes on the mask that it has by then. Masks only grow, so the queue runs
empty.
-/

namespace Interleave

def Element.tracedSlots (e : Element) : List Nat := e.traced.filterMap Ref.index?

structure Marker where
  masks : Array ThreadMask
  queue : List Nat

namespace Marker

def mask (s : Marker) (i : Nat) : ThreadMask := s.masks.getD i .empty

/-- Add `m` to the mask of slot `i`. A free slot is passed over: no root should denote one, but this is not
checked here. -/
def mark (arena : Arena Element) (s : Marker) (i : Nat) (m : ThreadMask) : Marker :=
  let grown := (s.mask i).union m
  if arena.contains i ∧ i < s.masks.size ∧ grown ≠ s.mask i then
    { masks := s.masks.setIfInBounds i grown, queue := s.queue ++ [i] }
  else
    s

def markAll (arena : Arena Element) (s : Marker) (l : List (Nat × ThreadMask)) : Marker :=
  l.foldl (fun s (i, m) => s.mark arena i m) s

def pass (arena : Arena Element) (s : Marker) (i : Nat) : Marker :=
  match arena.get? i with
  | some e => s.markAll arena (e.tracedSlots.map (·, s.mask i))
  | none => s

def slack (m : ThreadMask) : Nat := UInt64.size - m.bits.toNat

def total (f : Nat → Nat) : List Nat → Nat
  | [] => 0
  | i :: rest => f i + total f rest

def turns (s : Marker) : Nat := s.queue.length + total (fun i => slack (s.mask i)) (List.range s.masks.size)

theorem slack_lt {old m : ThreadMask} (h : old.union m ≠ old) : slack (old.union m) < slack old := by
  have h1 := ThreadMask.toNat_lt_toNat_union h
  have h2 := (old.union m).bits.toNat_lt
  simp only [slack, UInt64.size]
  omega

theorem total_le {l : List Nat} {f g : Nat → Nat} (hle : ∀ x ∈ l, f x ≤ g x) :
    total f l ≤ total g l := by
  induction l with
  | nil => simp [total]
  | cons x xs ih =>
    have hx := hle x (by simp)
    have hxs := ih fun y hy => hle y (by simp [hy])
    simp only [total]
    omega

theorem total_lt {l : List Nat} {f g : Nat → Nat} {i : Nat} (hle : ∀ x ∈ l, f x ≤ g x)
    (hi : i ∈ l) (hlt : f i < g i) : total f l < total g l := by
  induction l with
  | nil => simp at hi
  | cons x xs ih =>
    have hx : f x ≤ g x := hle x (by simp)
    have hxs : ∀ y ∈ xs, f y ≤ g y := fun y hy => hle y (by simp [hy])
    simp only [total]
    rcases List.mem_cons.mp hi with rfl | hi
    · have := total_le hxs
      omega
    · have := ih hxs hi
      omega

theorem mask_set (s : Marker) (q : List Nat) (i j : Nat) (m : ThreadMask) :
    ({ masks := s.masks.setIfInBounds i m, queue := q } : Marker).mask j =
      if i = j ∧ i < s.masks.size then m else s.mask j := by
  unfold mask
  rw [Array.getD_eq_getD_getElem?, Array.getD_eq_getD_getElem?, Array.getElem?_setIfInBounds]
  by_cases hij : i = j
  · subst hij
    by_cases hi : i < s.masks.size
    · simp [hi]
    · simp [hi]
  · simp [hij]

theorem turns_mark_le (arena : Arena Element) (s : Marker) (i : Nat) (m : ThreadMask) :
    (s.mark arena i m).turns ≤ s.turns := by
  -- a slot that is queued makes up for its turn by its mask
  unfold mark
  dsimp only
  split
  · next h =>
    have hslack := slack_lt h.2.2
    have htotal : total (fun j => slack (if i = j ∧ i < s.masks.size then (s.mask i).union m else s.mask j))
        (List.range s.masks.size) < total (fun j => slack (s.mask j)) (List.range s.masks.size) := by
      apply total_lt _ (List.mem_range.mpr h.2.1)
      · rwa [if_pos ⟨rfl, h.2.1⟩]
      · intro j _
        split
        · next hij =>
          rw [← hij.1]
          exact Nat.le_of_lt hslack
        · exact Nat.le_refl _
    unfold turns
    simp only [mask_set, Array.size_setIfInBounds, List.length_append, List.length_singleton]
    omega
  · exact Nat.le_refl _

theorem turns_markAll_le (arena : Arena Element) (s : Marker) (l : List (Nat × ThreadMask)) :
    (s.markAll arena l).turns ≤ s.turns := by
  induction l generalizing s with
  | nil => exact Nat.le_refl _
  | cons im rest ih => exact Nat.le_trans (ih _) (turns_mark_le arena s im.1 im.2)

theorem turns_pass_lt (arena : Arena Element) {s : Marker} {i : Nat} {rest : List Nat}
    (h : s.queue = i :: rest) : ({ s with queue := rest }.pass arena i).turns < s.turns := by
  have hpopped : ({ s with queue := rest } : Marker).turns < s.turns := by
    simp [turns, mask, h]
  unfold pass
  split
  · exact Nat.lt_of_le_of_lt (turns_markAll_le arena _ _) hpopped
  · exact hpopped

def drain (arena : Arena Element) (s : Marker) : Marker :=
  match h : s.queue with
  | [] => s
  | i :: rest =>
    have := turns_pass_lt arena h
    drain arena ({ s with queue := rest }.pass arena i)
termination_by s.turns

end Marker

def Reach.masks (arena : Arena Element) (seeds : List (Nat × ThreadMask)) : Array ThreadMask :=
  (((⟨Array.replicate arena.capacity .empty, []⟩ : Marker).markAll arena seeds).drain arena).masks

end Interleave
