import Interleave.Kernel.Basic

/-!
Fields by name: those of objects, and the static ones of loaded classes.
-/

namespace Interleave.Kernel

def instanceSlot (k : Kernel) (o : Ref) (name : String) : Except Fault (Except KernelError Nat) := do
  let e ← k.heap.deref o
  let desc ← k.classes.get e.classId
  match desc.instances.lookup? name with
  | some (slot, _) => return .ok slot
  | none => return .error (.unknownField desc.name name)

def staticSlot (k : Kernel) (c : ClassId) (name : String) : Except Fault (Except KernelError Nat) := do
  let desc ← k.classes.get c
  if k.statics.contains c then
    match desc.statics.lookup? name with
    | some (slot, _) => return .ok slot
    | none => return .error (.unknownField desc.name name)
  else
    return .error (.classNotLoaded desc.name)

def readField {α : Type} (read : Fields → Nat → Except Fault α) (k : Kernel) (o : Ref)
    (name : String) : Except Fault (Except KernelError α) := do
  match ← k.instanceSlot o name with
  | .error e => return .error e
  | .ok slot => return .ok (← read (← k.heap.deref o).fields slot)

def writeField (write : Fields → Nat → Except Fault Fields) (k : Kernel) (o : Ref)
    (name : String) : Except Fault (Attempt Unit) := do
  match ← k.instanceSlot o name with
  | .error e => return (.error e, k)
  | .ok slot => return (.ok (), ← k.updateElement o (·.updateFields (write · slot)))

def readStatic {α : Type} (read : Fields → Nat → Except Fault α) (absent : α) (k : Kernel)
    (c : ClassId) (name : String) : Except Fault (Except KernelError α) := do
  match ← k.staticSlot c name with
  | .error e => return .error e
  | .ok slot =>
    match k.statics.get? c with
    | some e => return .ok (← read e.fields slot)
    | none => return .ok absent

def writeStatic (write : Fields → Nat → Except Fault Fields) (k : Kernel) (c : ClassId)
    (name : String) : Except Fault (Attempt Unit) := do
  match ← k.staticSlot c name with
  | .error e => return (.error e, k)
  | .ok slot =>
    match k.statics.get? c with
    | some e => return (.ok (), { k with statics := k.statics.put c (← e.updateFields (write · slot)) })
    | none => return (.ok (), k)

def getInt := readField Fields.getInt

def getLong := readField Fields.getLong

def getRef := readField Fields.getRef

def setInt (k : Kernel) (o : Ref) (name : String) (v : Int32) : Except Fault (Attempt Unit) :=
  k.writeField (fun f slot => f.setInt slot v) o name

def setLong (k : Kernel) (o : Ref) (name : String) (v : Int64) : Except Fault (Attempt Unit) :=
  k.writeField (fun f slot => f.setLong slot v) o name

def setRef (k : Kernel) (o : Ref) (name : String) (v : Ref) : Except Fault (Attempt Unit) :=
  k.writeField (fun f slot => f.setRef slot v) o name

def getStaticInt := readStatic Fields.getInt 0

def getStaticRef := readStatic Fields.getRef .null

def setStaticInt (k : Kernel) (c : ClassId) (name : String) (v : Int32) :
    Except Fault (Attempt Unit) :=
  k.writeStatic (fun f slot => f.setInt slot v) c name

def setStaticRef (k : Kernel) (c : ClassId) (name : String) (v : Ref) :
    Except Fault (Attempt Unit) :=
  k.writeStatic (fun f slot => f.setRef slot v) c name

end Interleave.Kernel
