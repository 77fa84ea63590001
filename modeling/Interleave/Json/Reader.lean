import Interleave.Json.Basic

/-!
Reading JSON text. Nothing is accepted beyond the standard: no comments, no trailing commas, no leading
zeros, no control characters inside strings.
-/

namespace Interleave.JsonReader

def isBlank (c : Char) : Bool := c == ' ' || c == '\t' || c == '\n' || c == '\r'

def skipBlank (s : List Char) : List Char := s.dropWhile isBlank

def digitValue (c : Char) : Nat := c.toNat - '0'.toNat

def ofDigits (ds : List Char) : Nat := ds.foldl (fun n d => 10 * n + digitValue d) 0

def hexValue? (c : Char) : Option Nat :=
  if '0' ≤ c && c ≤ '9' then some (c.toNat - '0'.toNat)
  else if 'a' ≤ c && c ≤ 'f' then some (c.toNat - 'a'.toNat + 10)
  else if 'A' ≤ c && c ≤ 'F' then some (c.toNat - 'A'.toNat + 10)
  else none

def hexUnit? (a b c d : Char) : Option Nat := do
  return ((← hexValue? a) * 16 + (← hexValue? b)) * 256 + ((← hexValue? c) * 16 + (← hexValue? d))

def escaped? : Char → Option Char
  | '"' => some '"'
  | '\\' => some '\\'
  | '/' => some '/'
  | 'b' => some '\x08'
  | 'f' => some '\x0c'
  | 'n' => some '\n'
  | 'r' => some '\r'
  | 't' => some '\t'
  | _ => none

def string? : List Char → Option (List JsonPiece × List Char)
  | [] => none
  | '"' :: rest => some ([], rest)
  | '\\' :: 'u' :: a :: b :: c :: d :: rest => do
    let unit ← hexUnit? a b c d
    let (pieces, rest) ← string? rest
    return (.ofUnit unit :: pieces, rest)
  | '\\' :: e :: rest => do
    let c ← escaped? e
    let (pieces, rest) ← string? rest
    return (.char c :: pieces, rest)
  | c :: rest =>
    if c == '\\' || c.toNat < 0x20 then
      none
    else do
      let (pieces, rest) ← string? rest
      return (.char c :: pieces, rest)

def digits? (s : List Char) : Option (List Char × List Char) :=
  match s.takeWhile Char.isDigit with
  | [] => none
  | ds => some (ds, s.dropWhile Char.isDigit)

def integer? (s : List Char) : Option (List Char × List Char) := do
  let (ds, rest) ← digits? s
  match ds with
  | '0' :: _ :: _ => none
  | _ => return (ds, rest)

def fraction? : List Char → Option (Bool × List Char)
  | '.' :: s => do return (true, (← digits? s).2)
  | s => some (false, s)

def exponent? (s : List Char) : Option (Bool × List Char) :=
  match s with
  | c :: s' =>
    if c == 'e' || c == 'E' then
      match s' with
      | '+' :: s' | '-' :: s' => do return (true, (← digits? s').2)
      | s' => do return (true, (← digits? s').2)
    else
      some (false, s)
  | [] => some (false, s)

def unsigned? (negative : Bool) (s : List Char) : Option (JsonValue × List Char) := do
  let (ds, s) ← integer? s
  let (hasFraction, s) ← fraction? s
  let (hasExponent, s) ← exponent? s
  let n := ofDigits ds
  -- negative zero is not an integer
  if hasFraction || hasExponent || (negative && n == 0) then
    return (.real, s)
  else
    return (.int (if negative then -(n : Int) else n), s)

def number? : List Char → Option (JsonValue × List Char)
  | '-' :: s => unsigned? true s
  | s => unsigned? false s

mutual

def value? : Nat → List Char → Option (JsonValue × List Char)
  | 0, _ => none
  | fuel + 1, s =>
    match skipBlank s with
    | '\x7b' :: s =>
      match skipBlank s with
      | '\x7d' :: s => some (.obj [], s)
      | s => do
        let (ms, s) ← members? fuel s
        return (.obj ms, s)
    | '[' :: s =>
      match skipBlank s with
      | ']' :: s => some (.arr [], s)
      | s => do
        let (xs, s) ← items? fuel s
        return (.arr xs, s)
    | '"' :: s => do
      let (pieces, s) ← string? s
      return (.str pieces, s)
    | 'n' :: 'u' :: 'l' :: 'l' :: s => some (.null, s)
    | 't' :: 'r' :: 'u' :: 'e' :: s => some (.bool true, s)
    | 'f' :: 'a' :: 'l' :: 's' :: 'e' :: s => some (.bool false, s)
    | s => number? s

def items? : Nat → List Char → Option (List JsonValue × List Char)
  | 0, _ => none
  | fuel + 1, s => do
    let (x, s) ← value? fuel s
    match skipBlank s with
    | ',' :: s => do
      let (xs, s) ← items? fuel s
      return (x :: xs, s)
    | ']' :: s => return ([x], s)
    | _ => none

def members? : Nat → List Char → Option (List (List JsonPiece × JsonValue) × List Char)
  | 0, _ => none
  | fuel + 1, s =>
    match skipBlank s with
    | '"' :: s => do
      let (key, s) ← string? s
      match skipBlank s with
      | ':' :: s => do
        let (x, s) ← value? fuel s
        match skipBlank s with
        | ',' :: s => do
          let (ms, s) ← members? fuel s
          return ((key, x) :: ms, s)
        | '\x7d' :: s => return ([(key, x)], s)
        | _ => none
      | _ => none
    | _ => none

end

def read? (text : String) : Option JsonValue := do
  let s := text.toList
  -- every nested value takes two steps and at least one character, so the steps suffice
  let (v, rest) ← value? (2 * s.length + 2) s
  match skipBlank rest with
  | [] => return v
  | _ => none

end Interleave.JsonReader
