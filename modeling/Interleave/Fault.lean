import Interleave.Ref

/-!
Faults: requests that make no sense in the current state, such as following a reference into a
reclaimed slot. A fault ends the run that made the request; nothing is said about the state after it.
-/

namespace Interleave

inductive Fault where
  | nullIndex
  | slotOutOfBounds
  | deadReference (r : Ref)
  | unregisteredClass (c : ClassId)
  | unknownThread (t : ThreadId)
  | localOutOfRange (idx locals : Nat)
  | threadOutOfSequence
  deriving DecidableEq, Repr

namespace Fault

def message : Fault → String
  | nullIndex => "null dereference"
  | slotOutOfBounds => "index out of bounds"
  | deadReference r => s!"dereferencing reclaimed or null heap slot {r.label}"
  | unregisteredClass c => s!"unregistered {c.label}"
  | unknownThread t => s!"unknown {t.label}"
  | localOutOfRange idx locals => s!"local {idx} out of range ({locals})"
  | threadOutOfSequence => "assertion `left == right` failed: thread id out of sequence"

end Fault

def Ref.index (r : Ref) : Except Fault Nat :=
  match r.index? with
  | none => throw .nullIndex
  | some i => pure i

end Interleave
