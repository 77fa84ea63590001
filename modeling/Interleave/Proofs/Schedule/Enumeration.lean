import Interleave.Choice
import Mathlib.Data.List.Induction

/-!
How a generator goes through its choices. From its creation or its last reset on, it brings them one by one
in their order, each of them once, and nothing after that.
-/

namespace Interleave.Generator

inductive Call where
  | advance
  | reset
  deriving DecidableEq

def Call.advances (calls : List Call) : Nat := (calls.reverse.takeWhile (· = .advance)).length

/-- A generator, and what it has returned since it was made or last reset. -/
structure Round where
  generator : Generator
  returned : List (Option ThreadId) := []

def Round.call (r : Round) : Call → Round
  | .advance => ⟨r.generator.advance.2, r.returned ++ [r.generator.advance.1]⟩
  | .reset => ⟨r.generator.reset, []⟩

structure Round.Enumerates (r : Round) (choices : List ThreadId) (n : Nat) : Prop where
  returned : r.returned = (choices.take n).map some ++ List.replicate (n - choices.length) none
  processed : r.generator.processed = min n choices.length
  current : r.generator.current? = (choices.take n).getLast?
  more : r.generator.hasMore = true ↔ r.generator.processed < choices.length
  exhausted : r.generator.phase = .exhausted ↔ r.generator.processed = choices.length
  created : r.generator.phase = .created ↔ r.generator.processed ≠ choices.length ∧ n = 0
  advancing : r.generator.phase = .advancing ↔ r.generator.processed ≠ choices.length ∧ 0 < n

theorem Call.advances_append_advance (calls : List Call) :
    advances (calls ++ [.advance]) = advances calls + 1 := by
  simp [advances]

theorem Call.advances_append_reset (calls : List Call) : advances (calls ++ [.reset]) = 0 := by
  simp [advances]

section Counting

variable {g : Generator}

theorem hasMore_iff : g.hasMore = true ↔ g.processed < g.choices.length := decide_eq_true_iff

theorem advance_of_lt (h : g.processed < g.choices.length) :
    g.advance = (g.choices[g.processed]?, { g with cursor := some g.processed }) :=
  if_pos (hasMore_iff.mpr h)

theorem advance_of_le (h : g.choices.length ≤ g.processed) : g.advance = (none, g) :=
  if_neg fun hmore => Nat.not_lt.mpr h (hasMore_iff.mp hmore)

theorem isNone_cursor_iff : g.cursor.isNone = true ↔ g.processed = 0 := by
  unfold processed
  cases g.cursor <;> simp

theorem current?_eq (h : g.processed ≤ g.choices.length) :
    g.current? = (g.choices.take g.processed).getLast? := by
  unfold current? processed at *
  cases hcursor : g.cursor with
  | none => rfl
  | some i =>
    have hi : i < g.choices.length := by
      rw [hcursor] at h
      exact h
    simp [List.getLast?_take, List.getElem?_eq_getElem hi]

theorem phase_eq (g : Generator) : g.phase =
    if g.choices.length ≤ g.processed then .exhausted
    else if g.processed = 0 then .created
    else .advancing := by
  unfold phase
  simp only [Bool.not_eq_true', ← Bool.not_eq_true, hasMore_iff, isNone_cursor_iff, Nat.not_lt]

end Counting

theorem map_getElem?_range (choices : List ThreadId) (n : Nat) :
    (List.range n).map (choices[·]?) =
      (choices.take n).map some ++ List.replicate (n - choices.length) none := by
  induction choices generalizing n with
  | nil =>
    simp only [List.getElem?_nil, List.map_const', List.length_range, List.take_nil, List.map_nil,
      List.length_nil, Nat.sub_zero, List.nil_append]
  | cons c choices ih =>
    cases n with
    | zero => simp
    | succ n =>
      have hrest : ((c :: choices)[·]?) ∘ Nat.succ = (choices[·]?) := rfl
      rw [List.range_succ_eq_map, List.map_cons, List.map_map, hrest, ih, List.take_succ_cons,
        List.map_cons, List.length_cons, Nat.add_sub_add_right]
      rfl

namespace Round

structure Follows (r : Round) (choices : List ThreadId) (n : Nat) : Prop where
  same : r.generator.choices = choices
  processed : r.generator.processed = min n choices.length
  returned : r.returned = (List.range n).map (choices[·]?)

variable {r : Round} {choices : List ThreadId} {n : Nat}

theorem Follows.advance (h : r.Follows choices n) : (r.call .advance).Follows choices (n + 1) := by
  obtain ⟨rfl, hprocessed, hreturned⟩ := h
  have hrange : (List.range (n + 1)).map (r.generator.choices[·]?) =
      r.returned ++ [r.generator.choices[n]?] := by
    rw [List.range_succ, List.map_append, hreturned]
    rfl
  rcases Nat.lt_or_ge r.generator.processed r.generator.choices.length with hmore | hmore
  · have hn : r.generator.processed = n := by omega
    rw [call, advance_of_lt hmore, hn]
    refine ⟨rfl, ?_, hrange.symm⟩
    show n + 1 = _
    omega
  · have hnone : r.generator.choices[n]? = none := List.getElem?_eq_none (by omega)
    rw [hnone] at hrange
    rw [call, advance_of_le hmore]
    refine ⟨rfl, ?_, hrange.symm⟩
    show r.generator.processed = _
    omega

theorem Follows.reset (h : r.Follows choices n) : (r.call .reset).Follows choices 0 :=
  ⟨h.same, (Nat.zero_min _).symm, rfl⟩

theorem Follows.foldl (h : r.Follows choices 0) (calls : List Call) :
    (calls.foldl call r).Follows choices (Call.advances calls) := by
  -- from the end, since the last reset is what counts
  induction calls using List.reverseRecOn with
  | nil => exact h
  | append_singleton calls c ih =>
    rw [List.foldl_append]
    cases c with
    | advance =>
      rw [Call.advances_append_advance]
      exact ih.advance
    | reset =>
      rw [Call.advances_append_reset]
      exact ih.reset

theorem Follows.enumerates (h : r.Follows choices n) : r.Enumerates choices n := by
  obtain ⟨rfl, hprocessed, hreturned⟩ := h
  have hle : r.generator.processed ≤ r.generator.choices.length := by omega
  refine ⟨?_, hprocessed, ?_, hasMore_iff, ?_, ?_, ?_⟩
  · rw [hreturned, map_getElem?_range]
  · rw [current?_eq hle, hprocessed, ← List.take_eq_take_min]
  -- no choice has been taken if nothing was called, or if there is none
  all_goals
    rw [phase_eq]
    split_ifs <;> simp <;> omega

end Round

/-- Whatever has been called, a generator has gone through its choices as far as the calls since the last
reset have taken it. -/
theorem enumerates_choices (kind : ChoiceKind) (choices : List ThreadId) (creator : Option ThreadId)
    (access : Option ArrayAccess) (schedules : Bool) (calls : List Call) :
    (calls.foldl Round.call ⟨{ kind, choices, creator, access, schedules }, []⟩).Enumerates choices
      (Call.advances calls) := by
  have hstart : Round.Follows ⟨{ kind, choices, creator, access, schedules }, []⟩ choices 0 :=
    ⟨rfl, (Nat.zero_min _).symm, rfl⟩
  exact (hstart.foldl calls).enumerates

-- a thread that is there twice is chosen twice
example :
    let r := [Call.advance, .reset, .advance, .advance, .advance].foldl Round.call ⟨root [4, 4], []⟩
    (r.returned, r.generator.current?, r.generator.phase) =
      ([some 4, some 4, none], some 4, .exhausted) := by
  decide

end Interleave.Generator
