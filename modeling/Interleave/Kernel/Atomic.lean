import Interleave.Kernel.Basic

/-!
Atomic sections. They nest; a thread that begins one while another thread is inside takes it over.
-/

namespace Interleave.Kernel

def isAtomic (k : Kernel) : Bool := k.atomic.owner.isSome

def isAtomicFor (k : Kernel) (t : ThreadId) : Bool := k.atomic.owner == some t

def beginAtomic (k : Kernel) (t : ThreadId) : Kernel :=
  let depth :=
    match k.atomic.owner with
    | some owner => if owner = t then k.atomic.depth + 1 else 1
    | none => k.atomic.depth + 1
  { k with atomic := { k.atomic with owner := some t, depth }, atomicEpoch := k.atomicEpoch + 1 }

def endAtomic (k : Kernel) (t : ThreadId) : Attempt Unit :=
  if k.isAtomicFor t then
    let depth := k.atomic.depth - 1
    let owner := if depth = 0 then none else some t
    (.ok (), { k with atomic := { k.atomic with owner, depth }, atomicEpoch := k.atomicEpoch + 1 })
  else
    (.error (.notInAtomic t), k)

def setBlockedInAtomic (k : Kernel) : Kernel :=
  if k.atomic.blocked then
    k
  else
    { k with atomic := { k.atomic with blocked := true }, atomicEpoch := k.atomicEpoch + 1 }

end Interleave.Kernel
