import Interleave.Json.Printer
import Interleave.Json.Reader

/-!
Numbers and strings are read as they were written.
-/

namespace Interleave

def JsonPiece.IsExact : JsonPiece → Prop
  | .char _ => True
  | .half unit => (isHigh unit || isLow unit) = true

namespace JsonReader

open JsonPrinter

def Stops (s : List Char) : Prop :=
  ∀ c ∈ s.head?, c.isDigit = false ∧ c ≠ '.' ∧ c ≠ 'e' ∧ c ≠ 'E'

section Numbers

theorem isDigit_digitChar {n : Nat} (h : n < 10) : (digitChar n).isDigit = true := by
  have hall : ∀ n < 10, (digitChar n).isDigit = true := by decide
  exact hall n h

theorem digitValue_digitChar {n : Nat} (h : n < 10) : digitValue (digitChar n) = n := by
  have hall : ∀ n < 10, digitValue (digitChar n) = n := by decide
  exact hall n h

theorem isDigit_of_mem_decimal {n : Nat} {c : Char} (h : c ∈ decimal n) : c.isDigit = true := by
  fun_induction decimal n with
  | case1 n hlt =>
    rw [List.mem_singleton.mp h]
    exact isDigit_digitChar hlt
  | case2 n _ ih =>
    rcases List.mem_append.mp h with h | h
    · exact ih h
    · rw [List.mem_singleton.mp h]
      exact isDigit_digitChar (Nat.mod_lt n (by decide))

theorem ofDigits_decimal (n : Nat) : ofDigits (decimal n) = n := by
  fun_induction decimal n with
  | case1 n hlt =>
    have hvalue := digitValue_digitChar hlt
    simpa [ofDigits] using hvalue
  | case2 n _ ih =>
    have hvalue := digitValue_digitChar (Nat.mod_lt n (show 0 < 10 by decide))
    unfold ofDigits at ih ⊢
    rw [List.foldl_append, ih, List.foldl_cons, List.foldl_nil, hvalue]
    omega

theorem decimal_eq_cons (n : Nat) : ∃ d ds, decimal n = d :: ds ∧ (d = '0' → ds = []) := by
  fun_induction decimal n with
  | case1 n hlt => exact ⟨_, [], rfl, fun _ => rfl⟩
  | case2 n hge ih =>
    obtain ⟨d, ds, hds, hzero⟩ := ih
    refine ⟨d, ds ++ [digitChar (n % 10)], by rw [hds]; rfl, ?_⟩
    intro hd
    have hvalue := ofDigits_decimal (n / 10)
    rw [hds, hzero hd, hd] at hvalue
    have hpos : ofDigits ['0'] = 0 := rfl
    omega

theorem digits?_decimal (n : Nat) {rest : List Char} (hrest : Stops rest) :
    digits? (decimal n ++ rest) = some (decimal n, rest) := by
  have hall : ∀ c ∈ decimal n, c.isDigit = true := fun _ => isDigit_of_mem_decimal
  have hstop : rest.takeWhile Char.isDigit = [] ∧ rest.dropWhile Char.isDigit = rest := by
    cases rest with
    | nil => exact ⟨rfl, rfl⟩
    | cons c rest =>
      have hc := (hrest c rfl).1
      simp [hc]
  unfold digits?
  rw [List.takeWhile_append_of_pos hall, List.dropWhile_append_of_pos hall, hstop.1, hstop.2,
    List.append_nil]
  obtain ⟨d, ds, hds, -⟩ := decimal_eq_cons n
  rw [hds]

theorem integer?_decimal (n : Nat) {rest : List Char} (hrest : Stops rest) :
    integer? (decimal n ++ rest) = some (decimal n, rest) := by
  unfold integer?
  rw [digits?_decimal n hrest]
  obtain ⟨d, ds, hds, hzero⟩ := decimal_eq_cons n
  rw [hds]
  simp only [Option.bind_eq_bind, Option.bind_some]
  split
  · next heq =>
    cases heq
    cases hzero rfl
  · rfl

theorem fraction?_of_stops {rest : List Char} (hrest : Stops rest) :
    fraction? rest = some (false, rest) := by
  unfold fraction?
  split
  · next s => exact absurd rfl (hrest '.' rfl).2.1
  · rfl

theorem exponent?_of_stops {rest : List Char} (hrest : Stops rest) :
    exponent? rest = some (false, rest) := by
  cases rest with
  | nil => rfl
  | cons c rest =>
    have hc := (hrest c rfl).2.2
    unfold exponent?
    simp [hc]

theorem unsigned?_decimal (negative : Bool) (n : Nat) {rest : List Char} (hrest : Stops rest)
    (hzero : negative = true → n ≠ 0) :
    unsigned? negative (decimal n ++ rest) =
      some (.int (if negative then -(n : Int) else n), rest) := by
  unfold unsigned?
  rw [integer?_decimal n hrest]
  simp only [Option.bind_eq_bind, Option.bind_some]
  rw [fraction?_of_stops hrest, Option.bind_some]
  dsimp only
  rw [exponent?_of_stops hrest, Option.bind_some, ofDigits_decimal]
  cases negative with
  | false => rfl
  | true => simp [hzero rfl]

theorem number?_integer (n : Int) {rest : List Char} (hrest : Stops rest) :
    number? (integer n ++ rest) = some (.int n, rest) := by
  cases n with
  | ofNat n =>
    obtain ⟨d, ds, hds, -⟩ := decimal_eq_cons n
    have hdigit : d.isDigit = true := isDigit_of_mem_decimal (by rw [hds]; exact List.mem_cons_self)
    have hunsigned : number? (decimal n ++ rest) = unsigned? false (decimal n ++ rest) := by
      rw [hds]
      unfold number?
      split
      · next heq =>
        cases heq
        cases hdigit
      · rfl
    exact hunsigned.trans (unsigned?_decimal false n hrest nofun)
  | negSucc n => exact unsigned?_decimal true (n + 1) hrest fun _ => Nat.succ_ne_zero n

end Numbers

section Strings

theorem hexValue?_hexChar {n : Nat} (h : n < 16) : hexValue? (hexChar n) = some n := by
  have hall : ∀ n < 16, hexValue? (hexChar n) = some n := by decide
  exact hall n h

theorem hexUnit?_unit {n : Nat} (h : n < 0x10000) :
    hexUnit? (hexChar (n / 4096 % 16)) (hexChar (n / 256 % 16)) (hexChar (n / 16 % 16))
      (hexChar (n % 16)) = some n := by
  unfold hexUnit?
  simp only [hexValue?_hexChar (Nat.mod_lt _ (show 0 < 16 by decide)), Option.bind_eq_bind,
    Option.bind_some, Option.pure_def, Option.some.injEq]
  omega

def before (p : JsonPiece) : List JsonPiece × List Char → List JsonPiece × List Char :=
  fun (pieces, rest) => (p :: pieces, rest)

theorem string?_unit {n : Nat} (h : n < 0x10000) (s : List Char) :
    string? (unit n ++ s) = (string? s).map (before (.ofUnit n)) := by
  unfold unit
  simp only [List.cons_append, List.nil_append]
  rw [string?, hexUnit?_unit h]
  cases string? s <;> rfl

theorem string?_escape {e c : Char} (he : escaped? e = some c) (hu : e ≠ 'u') (s : List Char) :
    string? ('\\' :: e :: s) = (string? s).map (before (.char c)) := by
  rw [string?, he]
  · cases string? s <;> rfl
  · intro a b c d rest heq
    cases heq
    exact absurd rfl hu

theorem string?_plain {c : Char} (hquote : c ≠ '"') (hback : c ≠ '\\') (hc : ¬ c.toNat < 0x20)
    (s : List Char) : string? (c :: s) = (string? s).map (before (.char c)) := by
  rw [string?]
  · simp only [beq_iff_eq, hback, hc, Bool.or_eq_true, decide_eq_true_eq, or_self, if_false]
    cases string? s <;> rfl
  · exact hquote
  · intro a b c' d rest heq
    exact absurd heq hback
  · intro e rest heq
    exact absurd heq hback

theorem ofUnit_control {c : Char} (h : c.toNat < 0x20) : JsonPiece.ofUnit c.toNat = .char c := by
  unfold JsonPiece.ofUnit JsonPiece.isHigh JsonPiece.isLow
  rw [if_neg (by simp; omega), Char.ofNat_toNat]

theorem string?_piece {p : JsonPiece} (hp : p.IsExact) (s : List Char) :
    string? (piece p ++ s) = (string? s).map (before p) := by
  unfold piece
  split
  iterate 7 exact string?_escape rfl (by decide) s
  · next c hquote hback _ _ _ _ _ =>
    split
    · next hcontrol =>
      rw [string?_unit (by omega), ofUnit_control hcontrol]
    · next hplain => exact string?_plain hquote hback hplain s
  · next n =>
    unfold JsonPiece.IsExact at hp
    have hlt : n < 0x10000 := by
      simp only [JsonPiece.isHigh, JsonPiece.isLow, Bool.or_eq_true, Bool.and_eq_true,
        decide_eq_true_eq] at hp
      omega
    rw [string?_unit hlt, JsonPiece.ofUnit, if_pos hp]

theorem string?_pieces {pieces : List JsonPiece} (h : ∀ p ∈ pieces, p.IsExact) (rest : List Char) :
    string? (pieces.flatMap piece ++ '"' :: rest) = some (pieces, rest) := by
  induction pieces with
  | nil => rw [List.flatMap_nil, List.nil_append, string?]
  | cons p pieces ih =>
    rw [List.flatMap_cons, List.append_assoc, string?_piece (h p List.mem_cons_self),
      ih fun q hq => h q (List.mem_cons_of_mem p hq)]
    rfl

end Strings

end JsonReader

end Interleave
