import Interleave.BoxCache

/-!
A small instruction language for multithreaded programs.

All threads share integer fields, locks, integer arrays and one reference, which are static fields of
one class. Each frame has two locals: an integer and a reference. Threads, locks, arrays and methods go
by their numbers; method `m` is the code of thread `m`.
-/

namespace Interleave

inductive Instr where
  | store (field : String) (v : Int32)
  | load (field : String)
  -- writes the integer local
  | put (field : String)
  -- writes the reference local to the shared reference
  | publish
  -- reads the shared reference into the reference local
  | take
  | readElement (array index : Nat)
  | writeElement (array index : Nat) (v : Int32)
  | lock (i : Nat)
  | unlock (i : Nat)
  | syncEnter (i : Nat)
  | syncExit (i : Nat)
  | wait (i : Nat)
  | timedWait (i : Nat)
  | timeOut (u : ThreadId)
  | notify (i : Nat)
  | notifyAll (i : Nat)
  | join (u : ThreadId)
  | yield
  | sleep
  | park
  | unpark (u : ThreadId)
  | interrupt (u : ThreadId)
  | suspend (u : ThreadId)
  | resume (u : ThreadId)
  | start (u : ThreadId) (m : MethodId)
  | spawn (m : MethodId)
  | stop (u : ThreadId)
  | beginAtomic
  | endAtomic
  | new
  | drop
  | set (v : Int32)
  | add (v : Int32)
  | box (kind : BoxKind) (v : Int64)
  | intern (text : String)
  | call (m : MethodId)
  | executed
  | loadClass (name : String)
  | fail (text : String)
  | jump (pc : Nat)
  | jumpIf (v : Int32) (pc : Nat)
  deriving Repr

structure ThreadScript where
  code : Array Instr
  daemon : Bool := false
  priority : Option Int32 := none
  starts : Bool := true

inductive FieldCheck where
  | never (field : String) (v : Int32)
  | final (field : String) (v : Int32)
  deriving Repr

structure Script where
  fields : List String := []
  locks : Nat := 0
  arrays : List Nat := []
  threads : Array ThreadScript
  check : Option FieldCheck := none
  initFails : Bool := false
  boxes : BoxBounds := {}

namespace Script

def lockField (i : Nat) : String := s!"lock{i}"

def arrayField (i : Nat) : String := s!"array{i}"

def referenceField : String := "slot"

def sharedClass (s : Script) : ClassDescriptor where
  name := "Shared"
  statics := ⟨s.fields.map (⟨·, .int⟩)
    ++ (List.range s.locks).map (⟨lockField ·, .reference⟩)
    ++ (List.range s.arrays.length).map (⟨arrayField ·, .reference⟩)
    ++ [⟨referenceField, .reference⟩]⟩

def lockClass : ClassDescriptor := { name := "Lock" }

def nodeClass : ClassDescriptor where
  name := "Node"
  instances := ⟨[⟨"val", .int⟩, ⟨"next", .reference⟩]⟩

def instr? (s : Script) (site : Site) : Option Instr :=
  s.threads[site.method]?.bind (·.code[site.insn]?)

end Script

end Interleave
