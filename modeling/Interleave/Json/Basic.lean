/-!
JSON values as far as a configuration has to tell them apart.

A string is kept piece by piece, because an escape may denote half of a surrogate pair, and such a
string is only an error once somebody wants its text. A number that is not written as an integer is
kept without its value.
-/

namespace Interleave

inductive JsonPiece where
  | char (c : Char)
  | half (unit : Nat)
  deriving DecidableEq, Repr

inductive JsonValue where
  | null
  | bool (b : Bool)
  | int (n : Int)
  | real
  | str (pieces : List JsonPiece)
  | arr (items : List JsonValue)
  | obj (members : List (List JsonPiece × JsonValue))

namespace JsonPiece

def isHigh (unit : Nat) : Bool := 0xD800 ≤ unit && unit < 0xDC00

def isLow (unit : Nat) : Bool := 0xDC00 ≤ unit && unit < 0xE000

def pair (high low : Nat) : Char := Char.ofNat (0x10000 + (high - 0xD800) * 0x400 + (low - 0xDC00))

def chars? : List JsonPiece → Option (List Char)
  | [] => some []
  | char c :: rest => (chars? rest).map (c :: ·)
  | half high :: half low :: rest =>
    if isHigh high && isLow low then (chars? rest).map (pair high low :: ·) else none
  | half _ :: _ => none

def text? (pieces : List JsonPiece) : Option String := (chars? pieces).map String.ofList

def ofText (s : String) : List JsonPiece := s.toList.map char

def ofUnit (unit : Nat) : JsonPiece :=
  if isHigh unit || isLow unit then half unit else char (Char.ofNat unit)

end JsonPiece

end Interleave
