import Interleave.Ident

/-!
How the fields of a class are laid out in slots: in declaration order, two slots for a wide value and
one for any other.
-/

namespace Interleave

inductive ValueKind where
  | boolean
  | byte
  | char
  | short
  | int
  | float
  | long
  | double
  | reference
  deriving DecidableEq, Repr

namespace ValueKind

def name : ValueKind → String
  | boolean => "boolean"
  | byte => "byte"
  | char => "char"
  | short => "short"
  | int => "int"
  | float => "float"
  | long => "long"
  | double => "double"
  | reference => "ref"

def all : List ValueKind := [boolean, byte, char, short, int, float, long, double, reference]

def ofName? (s : String) : Option ValueKind := all.find? (·.name == s)

def width : ValueKind → Nat
  | long | double => 2
  | _ => 1

def isReference : ValueKind → Bool
  | reference => true
  | _ => false

def descriptor : ValueKind → Char
  | boolean => 'Z'
  | byte => 'B'
  | char => 'C'
  | short => 'S'
  | int => 'I'
  | float => 'F'
  | long => 'J'
  | double => 'D'
  | reference => 'L'

end ValueKind

structure Field where
  name : String
  kind : ValueKind
  deriving DecidableEq, Repr

structure Layout where
  fields : List Field := []
  deriving DecidableEq, Repr

namespace Layout

def slotCount (l : Layout) : Nat :=
  l.fields.foldr (fun f n => f.kind.width + n) 0

def refMask (l : Layout) : List Bool :=
  l.fields.flatMap fun f => List.replicate f.kind.width f.kind.isReference

def placed (l : Layout) : List (Field × Nat) :=
  go 0 l.fields
where
  go (offset : Nat) : List Field → List (Field × Nat)
    | [] => []
    | f :: fs => (f, offset) :: go (offset + f.kind.width) fs

def lookup? (l : Layout) (name : String) : Option (Nat × ValueKind) :=
  (l.placed.find? (·.1.name == name)).map fun (f, offset) => (offset, f.kind)

end Layout

end Interleave
