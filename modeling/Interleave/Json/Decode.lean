import Interleave.Json.Basic

/-!
Reading values of other types off JSON values. Nothing is converted: a number is no string, and a
number that is out of range is none at all.
-/

namespace Interleave

namespace JsonValue

def bool? : JsonValue → Option Bool
  | bool b => some b
  | _ => none

def text? : JsonValue → Option String
  | str pieces => JsonPiece.text? pieces
  | _ => none

def uint64? : JsonValue → Option UInt64
  | int n => if 0 ≤ n ∧ n.toNat < UInt64.size then some n.toNat.toUInt64 else none
  | _ => none

def int64? : JsonValue → Option Int64
  | int n =>
    if Int64.minValue.toInt ≤ n ∧ n ≤ Int64.maxValue.toInt then some (Int64.ofInt n) else none
  | _ => none

def named? (members : List (List JsonPiece × JsonValue)) : Option (List (String × JsonValue)) :=
  members.mapM fun (key, v) => do return (← JsonPiece.text? key, v)

def member? (v : JsonValue) (key : String) : Option JsonValue :=
  match v with
  | obj members => (members.find? (JsonPiece.text? ·.1 == some key)).map (·.2)
  | _ => none

end JsonValue

class OfJson (α : Type) where
  ofJson? : JsonValue → Option α

export OfJson (ofJson?)

instance : OfJson JsonValue := ⟨some⟩

instance : OfJson Bool := ⟨JsonValue.bool?⟩

instance : OfJson String := ⟨JsonValue.text?⟩

instance : OfJson UInt64 := ⟨JsonValue.uint64?⟩

instance : OfJson Int64 := ⟨JsonValue.int64?⟩

instance : OfJson Int where
  ofJson?
    | .int n => some n
    | _ => none

instance : OfJson Nat where
  ofJson?
    | .int (.ofNat n) => some n
    | _ => none

instance : OfJson Int32 where
  ofJson?
    | .int n =>
      if Int32.minValue.toInt ≤ n ∧ n ≤ Int32.maxValue.toInt then some (Int32.ofInt n) else none
    | _ => none

instance {α : Type} [OfJson α] : OfJson (Option α) where
  ofJson?
    | .null => some none
    | v => (ofJson? v).map some

instance {α : Type} [OfJson α] : OfJson (List α) where
  ofJson?
    | .arr items => items.mapM ofJson?
    | _ => none

instance {α β : Type} [OfJson α] [OfJson β] : OfJson (α × β) where
  ofJson?
    | .arr [a, b] => return (← ofJson? a, ← ofJson? b)
    | _ => none

namespace JsonValue

def memberD {α : Type} [OfJson α] (v : JsonValue) (key : String) (default : α) : Option α := do
  let a : Option α ← ofJson? ((v.member? key).getD .null)
  return a.getD default

end JsonValue

end Interleave
