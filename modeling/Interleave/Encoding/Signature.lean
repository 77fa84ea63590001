import Interleave.Encoding.Fingerprint
import Interleave.Encoding.Words
import Interleave.Hex
import Interleave.Kernel.Snapshot

/-!
The encoding of a state together with its fingerprint, and a source of such signatures that encodes a
state anew only if it has changed.
-/

namespace Interleave

structure Signature where
  words : List Int32
  hash : UInt64
  deriving DecidableEq, Repr

namespace Signature

def ofWords (words : List Int32) : Signature := ⟨words, Fingerprint.ofWords words⟩

def size (s : Signature) : Nat := s.words.length

def isEmpty (s : Signature) : Bool := s.words.isEmpty

def label (s : Signature) : String :=
  s!"StoringData \x7b hash: 0x{hex64 s.hash}, len: {s.size} \x7d"

end Signature

def Kernel.signature (k : Kernel) : Except Fault Signature := do
  return .ofWords (← k.encode)

/-- Remembers the last signature and the epochs at which it was right. -/
structure Serializer where
  cursor : Cursor := {}
  cached : Option Signature := none
  computed : Nat := 0

namespace Serializer

def attach (k : Kernel) : Attempt Serializer :=
  match k.acquireTracker with
  | (.ok _, k) => (.ok {}, k)
  | (.error e, k) => (.error e, k)

def signature (s : Serializer) (k : Kernel) : Except Fault (Signature × Serializer) :=
  let (changes, cursor) := s.cursor.poll k
  match s.cached, changes.any with
  | some sig, false => return (sig, { s with cursor })
  | _, _ => do
    let sig ← k.signature
    return (sig, { cursor, cached := some sig, computed := s.computed + 1 })

def prime (s : Serializer) (k : Kernel) (sig : Signature) : Serializer :=
  { s with cursor := s.cursor.sync k, cached := some sig }

end Serializer

end Interleave
