/-!
When two states count as the same.
-/

namespace Interleave

inductive Matching where
  | hashed
  | exact
  deriving DecidableEq, Repr

namespace Matching

def name : Matching → String
  | hashed => "hashed"
  | exact => "exact"

def all : List Matching := [hashed, exact]

def ofName? (s : String) : Option Matching := all.find? (·.name == s)

end Matching

end Interleave
