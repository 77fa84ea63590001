import Interleave.Fault
import Interleave.Layout

/-!
Class descriptors and the registry that numbers them. The registry only grows: a name keeps the
number that it got first.
-/

namespace Interleave

structure ClassDescriptor where
  name : String
  -- 0 as long as the class is not registered
  id : ClassId := 0
  instances : Layout := {}
  statics : Layout := {}
  arrayOf : Option ValueKind := none
  deriving DecidableEq, Repr

namespace ClassDescriptor

def array (elem : ValueKind) : ClassDescriptor :=
  { name := "[" ++ elem.descriptor.toString, arrayOf := some elem }

def classClass : ClassDescriptor := { name := "java.lang.Class" }

def threadClass : ClassDescriptor :=
  { name := "java.lang.Thread", instances := ⟨[⟨"priority", .int⟩]⟩ }

def stringClass : ClassDescriptor :=
  { name := "java.lang.String", instances := ⟨[⟨"value", .reference⟩]⟩ }

end ClassDescriptor

structure Registry where
  classes : Array ClassDescriptor := #[]
  deriving DecidableEq, Repr

namespace Registry

def size (r : Registry) : Nat := r.classes.size

def isEmpty (r : Registry) : Bool := r.size == 0

def lookup? (r : Registry) (name : String) : Option ClassId :=
  r.classes.findIdx? (·.name == name)

def register (r : Registry) (c : ClassDescriptor) : ClassId × Registry :=
  match r.lookup? c.name with
  | some id => (id, r)
  | none => (r.size, ⟨r.classes.push { c with id := r.size }⟩)

def arrayClass (r : Registry) (elem : ValueKind) : ClassId × Registry :=
  r.register (.array elem)

def get (r : Registry) (c : ClassId) : Except Fault ClassDescriptor :=
  match r.classes[c]? with
  | some desc => pure desc
  | none => throw (.unregisteredClass c)

def core : Registry :=
  ⟨#[{ ClassDescriptor.classClass with id := 0 },
     { ClassDescriptor.threadClass with id := 1 },
     { ClassDescriptor.stringClass with id := 2 }]⟩

end Registry

end Interleave
