/-!
The scheduling policies by name.
-/

namespace Interleave

inductive PolicyKind where
  | inOrder
  | roundRobin
  | priority
  | randomized
  deriving DecidableEq, Repr

namespace PolicyKind

def name : PolicyKind → String
  | inOrder => "default"
  | roundRobin => "round_robin"
  | priority => "priority"
  | randomized => "randomized"

def all : List PolicyKind := [inOrder, roundRobin, priority, randomized]

def ofName? (s : String) : Option PolicyKind := all.find? (·.name == s)

end PolicyKind

end Interleave
