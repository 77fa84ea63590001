import Interleave.Json.Basic

/-!
Values of other types as JSON values.
-/

namespace Interleave

namespace JsonValue

def ofText (s : String) : JsonValue := .str (JsonPiece.ofText s)

def ofInt64 (n : Int64) : JsonValue := int n.toInt

def ofEntries (entries : List (String × JsonValue)) : JsonValue :=
  obj (entries.map fun (name, v) => (JsonPiece.ofText name, v))

end JsonValue

class ToJson (α : Type) where
  toJson : α → JsonValue

export ToJson (toJson)

instance {α : Type} [ToJson α] : CoeHead α JsonValue := ⟨toJson⟩

instance : ToJson JsonValue := ⟨id⟩

instance : ToJson Bool := ⟨.bool⟩

instance : ToJson String := ⟨JsonValue.ofText⟩

instance : ToJson Nat := ⟨fun n => .int n⟩

instance : ToJson Int := ⟨.int⟩

instance : ToJson Int32 := ⟨fun n => .int n.toInt⟩

instance : ToJson Int64 := ⟨JsonValue.ofInt64⟩

instance : ToJson Unit := ⟨fun _ => .null⟩

instance {α : Type} [ToJson α] : ToJson (Option α) where
  toJson
    | some a => toJson a
    | none => .null

instance {α : Type} [ToJson α] : ToJson (List α) := ⟨fun as => .arr (as.map toJson)⟩

instance {α : Type} [ToJson α] : ToJson (Array α) := ⟨fun as => toJson as.toList⟩

instance {α β : Type} [ToJson α] [ToJson β] : ToJson (α × β) :=
  ⟨fun (a, b) => .arr [toJson a, toJson b]⟩

end Interleave
