import Interleave.Proofs.Json.Tokens

/-!
Values are read as they were written. This excludes numbers that are not integers, since nothing is kept of
them but that they are there.
-/

namespace Interleave

inductive JsonValue.IsExact : JsonValue → Prop where
  | null : IsExact .null
  | bool (b : Bool) : IsExact (.bool b)
  | int (n : Int) : IsExact (.int n)
  | str {pieces : List JsonPiece} (h : ∀ p ∈ pieces, p.IsExact) : IsExact (.str pieces)
  | arr {items : List JsonValue} (h : ∀ x ∈ items, x.IsExact) : IsExact (.arr items)
  | obj {members : List (List JsonPiece × JsonValue)} (hkeys : ∀ m ∈ members, ∀ p ∈ m.1, p.IsExact)
    (h : ∀ m ∈ members, m.2.IsExact) : IsExact (.obj members)

namespace JsonReader

open JsonPrinter

variable {level outer fuel : Nat} {rest s : List Char} {c : Char}

theorem skipBlank_newline (level : Nat) (s : List Char) : skipBlank (newline level ++ s) = skipBlank s := by
  have hall : ∀ c ∈ newline level, isBlank c = true := by
    intro c hc
    rcases List.mem_cons.mp hc with rfl | hc
    · rfl
    · rw [List.eq_of_mem_replicate hc]
      rfl
  exact List.dropWhile_append_of_pos hall

theorem skipBlank_blank (s : List Char) : skipBlank (' ' :: s) = skipBlank s :=
  List.dropWhile_cons_of_pos rfl

theorem skipBlank_cons (h : isBlank c = false) (s : List Char) : skipBlank (c :: s) = c :: s :=
  List.dropWhile_cons_of_neg (by rw [h]; exact Bool.false_ne_true)

theorem value?_congr {s' : List Char} (h : skipBlank s = skipBlank s') (fuel : Nat) :
    value? fuel s = value? fuel s' := by
  cases fuel with
  | zero => rw [value?, value?]
  | succ fuel => rw [value?, value?, h]

theorem items?_congr {s' : List Char} (h : skipBlank s = skipBlank s') (fuel : Nat) :
    items? fuel s = items? fuel s' := by
  cases fuel with
  | zero => rw [items?, items?]
  | succ fuel => rw [items?, items?, value?_congr h]

theorem members?_congr {s' : List Char} (h : skipBlank s = skipBlank s') (fuel : Nat) :
    members? fuel s = members? fuel s' := by
  cases fuel with
  | zero => rw [members?, members?]
  | succ fuel => rw [members?, members?, h]

def opens (c : Char) : Bool := !isBlank c && c != ']'

theorem skipBlank_opens (h : opens c = true) (s : List Char) : skipBlank (c :: s) = c :: s := by
  apply skipBlank_cons
  simp only [opens, Bool.and_eq_true, Bool.not_eq_true'] at h
  exact h.1

theorem opens_of_isDigit (h : c.isDigit = true) : opens c = true := by
  have hne : ∀ d : Char, d.isDigit = false → c ≠ d := by
    rintro d hd rfl
    exact Bool.noConfusion (h.symm.trans hd)
  simp [opens, isBlank, hne ' ' rfl, hne '\t' rfl, hne '\n' rfl, hne '\r' rfl, hne ']' rfl]

theorem integer_eq_cons (n : Int) : ∃ c s, integer n = c :: s ∧ (c = '-' ∨ c.isDigit = true) := by
  cases n with
  | ofNat n =>
    obtain ⟨d, ds, hds, -⟩ := decimal_eq_cons n
    exact ⟨d, ds, hds, .inr (isDigit_of_mem_decimal (n := n) (by rw [hds]; exact List.mem_cons_self))⟩
  | negSucc n => exact ⟨'-', _, rfl, .inl rfl⟩

theorem value_eq_cons (level : Nat) (v : JsonValue) : ∃ c s, value level v = c :: s ∧ opens c = true := by
  fun_cases value level v with
  | case4 n =>
    obtain ⟨c, s, hs, rfl | hc⟩ := integer_eq_cons n
    · exact ⟨_, _, hs, rfl⟩
    · exact ⟨_, _, hs, opens_of_isDigit hc⟩
  | _ => exact ⟨_, _, rfl, by decide⟩

theorem value?_number (h : c = '-' ∨ c.isDigit = true) :
    value? (fuel + 1) (c :: s) = number? (c :: s) := by
  have hopens : opens c = true := by
    rcases h with rfl | h
    · rfl
    · exact opens_of_isDigit h
  rw [value?, skipBlank_opens hopens]
  split
  case h_7 => rfl
  all_goals
    next heq =>
      cases heq
      exact absurd h (by decide)

def Reads (v : JsonValue) : Prop :=
  ∀ level fuel rest, Stops rest → 2 * (value level v).length ≤ fuel →
    value? fuel (value level v ++ rest) = some (v, rest)

theorem exists_steps {v : JsonValue} (h : 2 * (value level v).length ≤ fuel) : ∃ n, fuel = n + 1 + 1 := by
  obtain ⟨c, s, hs, -⟩ := value_eq_cons level v
  rw [hs, List.length_cons] at h
  exact ⟨fuel - 2, by omega⟩

theorem stops_cons (h : c.isDigit = false ∧ c ≠ '.' ∧ c ≠ 'e' ∧ c ≠ 'E') (s : List Char) :
    Stops (c :: s) := by
  rintro d ⟨⟩
  exact h

theorem stops_newline (level : Nat) (s : List Char) : Stops (newline level ++ s) :=
  stops_cons (by decide) _

theorem stops_items (level : Nat) (xs : List JsonValue) (hrest : Stops rest) :
    Stops (items level xs ++ rest) := by
  cases xs with
  | nil => exact hrest
  | cons x xs => exact stops_cons (by decide) _

theorem stops_members (level : Nat) (ms : List (List JsonPiece × JsonValue)) (hrest : Stops rest) :
    Stops (members level ms ++ rest) := by
  cases ms with
  | nil => exact hrest
  | cons m ms => exact stops_cons (by decide) _

theorem items?_items (level outer fuel : Nat) (rest : List Char) {x : JsonValue} {xs : List JsonValue}
    (h : ∀ y ∈ x :: xs, Reads y)
    (hfuel : 2 * ((value level x).length + (items level xs).length) ≤ fuel) :
    items? (fuel + 1) (value level x ++ (items level xs ++ (newline outer ++ ']' :: rest))) =
      some (x :: xs, rest) := by
  induction xs generalizing x fuel with
  | nil =>
    have hx := h x List.mem_cons_self level fuel (newline outer ++ ']' :: rest) (stops_newline _ _)
      (by simp only [items, List.length_nil] at hfuel; omega)
    rw [items?, items, List.nil_append, hx]
    simp only [Option.bind_eq_bind, Option.bind_some]
    rw [skipBlank_newline, skipBlank_cons rfl]
    rfl
  | cons y ys ih =>
    have hlen : (items level (y :: ys)).length =
        (newline level).length + (value level y).length + (items level ys).length + 1 := by
      simp only [items, List.cons_append, List.length_cons, List.length_append]
    have hx := h x List.mem_cons_self level fuel
      (items level (y :: ys) ++ (newline outer ++ ']' :: rest)) (stops_items _ _ (stops_newline _ _)) (by omega)
    obtain ⟨fuel, rfl⟩ : ∃ n, fuel = n + 1 := ⟨fuel - 1, by omega⟩
    have hys := ih fuel (fun z hz => h z (List.mem_cons_of_mem x hz)) (by omega)
    rw [items?, hx]
    simp only [Option.bind_eq_bind, Option.bind_some]
    simp only [items, List.cons_append, List.append_assoc]
    rw [skipBlank_cons rfl]
    simp only
    rw [items?_congr (skipBlank_newline _ _), hys]
    rfl

theorem members?_member {key : List JsonPiece} (hkey : ∀ p ∈ key, p.IsExact) {x : JsonValue} (hx : Reads x)
    (hrest : Stops rest) (hfuel : 2 * (value level x).length ≤ fuel) :
    members? (fuel + 1) (string key ++ ([':', ' '] ++ (value level x ++ rest))) =
      match skipBlank rest with
      | ',' :: s => do
        let (ms, s) ← members? fuel s
        return ((key, x) :: ms, s)
      | '\x7d' :: s => some ([(key, x)], s)
      | _ => none := by
  have hvalue : value? fuel (' ' :: (value level x ++ rest)) = some (x, rest) :=
    (value?_congr (skipBlank_blank _) fuel).trans (hx level fuel rest hrest hfuel)
  unfold string
  simp only [List.cons_append, List.nil_append, List.append_assoc]
  rw [members?, skipBlank_cons rfl]
  simp only
  rw [string?_pieces hkey]
  simp only [Option.bind_eq_bind, Option.bind_some]
  rw [skipBlank_cons rfl]
  simp only
  rw [hvalue]
  rfl

theorem members?_members (level outer fuel : Nat) (rest : List Char) {key : List JsonPiece} {x : JsonValue}
    {ms : List (List JsonPiece × JsonValue)}
    (hkeys : ∀ m ∈ (key, x) :: ms, ∀ p ∈ m.1, p.IsExact) (h : ∀ m ∈ (key, x) :: ms, Reads m.2)
    (hfuel : 2 * ((value level x).length + (members level ms).length) ≤ fuel) :
    members? (fuel + 1) (string key ++ ([':', ' '] ++ (value level x ++
      (members level ms ++ (newline outer ++ '\x7d' :: rest))))) = some ((key, x) :: ms, rest) := by
  have hkey := hkeys (key, x) List.mem_cons_self
  have hx : Reads x := h (key, x) List.mem_cons_self
  induction ms generalizing key x fuel with
  | nil =>
    rw [members?_member hkey hx (stops_members _ _ (stops_newline _ _)) (by omega), members, List.nil_append,
      skipBlank_newline, skipBlank_cons rfl]
    rfl
  | cons m ms ih =>
    obtain ⟨key', y⟩ := m
    have hlen : (members level ((key', y) :: ms)).length = (newline level).length + (string key').length +
        (value level y).length + (members level ms).length + 3 := by
      simp only [members, List.cons_append, List.length_cons, List.length_append, List.length_nil]
      omega
    obtain ⟨fuel, rfl⟩ : ∃ n, fuel = n + 1 := ⟨fuel - 1, by omega⟩
    have hms := ih fuel (fun m hm => hkeys m (List.mem_cons_of_mem _ hm))
      (fun m hm => h m (List.mem_cons_of_mem _ hm)) (by omega)
      (hkeys _ (List.mem_cons_of_mem _ List.mem_cons_self)) (h _ (List.mem_cons_of_mem _ List.mem_cons_self))
    rw [members?_member hkey hx (stops_members _ _ (stops_newline _ _)) (by omega), members]
    simp only [List.cons_append, List.append_assoc]
    rw [skipBlank_cons rfl]
    simp only
    rw [members?_congr (skipBlank_newline _ _)]
    simp only [List.cons_append] at hms
    rw [hms]
    rfl

theorem reads_arr {items : List JsonValue} (h : ∀ x ∈ items, Reads x) : Reads (.arr items) := by
  intro level fuel rest _ hfuel
  obtain ⟨fuel, rfl⟩ := exists_steps hfuel
  cases items with
  | nil =>
    rw [value?]
    rfl
  | cons x xs =>
    have hlen : (value level (.arr (x :: xs))).length = (newline (level + 1)).length +
        (value (level + 1) x).length + (JsonPrinter.items (level + 1) xs).length + (newline level).length + 2 := by
      simp only [value, List.cons_append, List.length_cons, List.length_append, List.length_nil]
    have hitems := items?_items (level + 1) level fuel rest h (by omega)
    obtain ⟨c, s, hs, hopens⟩ := value_eq_cons (level + 1) x
    rw [value]
    simp only [List.cons_append, List.append_assoc, List.nil_append]
    rw [value?, skipBlank_cons rfl]
    simp only
    rw [hs] at hitems ⊢
    rw [skipBlank_newline, List.cons_append, skipBlank_opens hopens]
    split
    · next heq =>
      cases heq
      cases hopens
    · exact Option.bind_eq_some_iff.mpr ⟨_, hitems, rfl⟩

theorem reads_obj {members : List (List JsonPiece × JsonValue)}
    (hkeys : ∀ m ∈ members, ∀ p ∈ m.1, p.IsExact) (h : ∀ m ∈ members, Reads m.2) :
    Reads (.obj members) := by
  intro level fuel rest _ hfuel
  obtain ⟨fuel, rfl⟩ := exists_steps hfuel
  cases members with
  | nil =>
    rw [value?]
    rfl
  | cons m ms =>
    obtain ⟨key, x⟩ := m
    have hlen : (value level (.obj ((key, x) :: ms))).length = (newline (level + 1)).length +
        (string key).length + (value (level + 1) x).length + (JsonPrinter.members (level + 1) ms).length +
        (newline level).length + 4 := by
      simp only [value, List.cons_append, List.length_cons, List.length_append, List.length_nil]
      omega
    have hmembers := members?_members (level + 1) level fuel rest hkeys h (by omega)
    obtain ⟨s, hs⟩ : ∃ s, string key = '"' :: s := ⟨_, rfl⟩
    rw [value]
    simp only [List.cons_append, List.append_assoc, List.nil_append] at hmembers ⊢
    rw [value?, skipBlank_cons rfl]
    simp only
    rw [hs] at hmembers ⊢
    rw [skipBlank_newline, List.cons_append, skipBlank_cons rfl]
    exact Option.bind_eq_some_iff.mpr ⟨_, hmembers, rfl⟩

theorem reads_of_isExact {v : JsonValue} (h : v.IsExact) : Reads v := by
  induction h with
  | arr _ ih => exact reads_arr ih
  | obj hkeys _ ih => exact reads_obj hkeys ih
  | null =>
    intro level fuel rest _ hfuel
    obtain ⟨fuel, rfl⟩ := exists_steps hfuel
    rw [value, value?]
    rfl
  | bool b =>
    intro level fuel rest _ hfuel
    obtain ⟨fuel, rfl⟩ := exists_steps hfuel
    cases b <;> rw [value, value?] <;> rfl
  | int n =>
    intro level fuel rest hrest hfuel
    obtain ⟨fuel, rfl⟩ := exists_steps hfuel
    obtain ⟨c, s, hs, hc⟩ := integer_eq_cons n
    have hnumber := number?_integer n hrest
    rw [value]
    rw [hs, List.cons_append] at hnumber ⊢
    rw [value?_number hc, hnumber]
  | @str pieces h =>
    intro level fuel rest _ hfuel
    obtain ⟨fuel, rfl⟩ := exists_steps hfuel
    rw [value, string, List.cons_append, List.cons_append, List.append_assoc, value?, skipBlank_cons rfl]
    exact Option.bind_eq_some_iff.mpr ⟨_, string?_pieces h rest, rfl⟩

theorem read?_print {v : JsonValue} (h : v.IsExact) : read? (JsonPrinter.print v) = some v := by
  have hv := reads_of_isExact h 0 (2 * (value 0 v).length + 2) [] nofun (by omega)
  rw [List.append_nil] at hv
  unfold read? JsonPrinter.print
  rw [String.toList_ofList]
  dsimp only
  rw [hv]
  rfl

end JsonReader

end Interleave
