/-!
Names of threads, classes, methods and allocations. All of them are plain numbers; what differs is
who hands them out and for how long they stay valid.
-/

namespace Interleave

abbrev ThreadId := Nat

abbrev ClassId := Nat

abbrev MethodId := Nat

/-- The name of an allocation on which all interleavings agree. -/
abbrev GlobalId := Nat

def ThreadId.label (t : ThreadId) : String := s!"Thread({t})"

def ClassId.label (c : ClassId) : String := s!"class#{c}"

def MethodId.label (m : MethodId) : String := s!"m{m}"

def GlobalId.label (g : GlobalId) : String := s!"gid#{g}"

def wordOf (n : Nat) : Int32 := Int32.ofNat n

structure Site where
  method : MethodId
  insn : Nat
  deriving DecidableEq, Repr

end Interleave
