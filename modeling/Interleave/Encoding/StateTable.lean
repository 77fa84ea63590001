import Interleave.Encoding.Matching
import Interleave.Encoding.Signature

/-!
Tables of visited states. A table that goes by fingerprints may take two different states for one, a
table that goes by encodings never does.
-/

namespace Interleave

namespace Matching

def same : Matching → Signature → Signature → Bool
  | hashed, a, b => a.hash == b.hash
  | exact, a, b => a.words == b.words

end Matching

inductive Visit where
  | new (id : Nat)
  | seen (id : Nat)
  deriving DecidableEq, Repr

namespace Visit

def id : Visit → Nat
  | new i | seen i => i

def isNew : Visit → Bool
  | new _ => true
  | seen _ => false

end Visit

structure StateTable where
  matching : Matching
  states : Array Signature := #[]

namespace StateTable

def size (t : StateTable) : Nat := t.states.size

def isEmpty (t : StateTable) : Bool := t.size == 0

def find? (t : StateTable) (s : Signature) : Option Nat := t.states.findIdx? (t.matching.same s)

def contains (t : StateTable) (s : Signature) : Bool := (t.find? s).isSome

def visit (t : StateTable) (s : Signature) : Visit × StateTable :=
  match t.find? s with
  | some id => (.seen id, t)
  | none => (.new t.size, { t with states := t.states.push s })

end StateTable

end Interleave
