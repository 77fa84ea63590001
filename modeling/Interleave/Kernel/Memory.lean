import Interleave.Heap.Collect
import Interleave.Kernel.Basic
import Interleave.Utf16

/-!
Loading classes, creating objects and collecting garbage.
-/

namespace Interleave.Kernel

def newGlobalId (k : Kernel) (creator : Option ThreadId) (site : Option Site) :
    Except Fault (GlobalId × Kernel) := do
  let thread ← creator.mapM fun t => return (← k.threads.get t).gid
  let (gid, pool, tally) := k.tally.next k.pool (.ofCreation thread site)
  return (gid, { k with pool, tally })

def allocate (k : Kernel) (c : ClassDescriptor) (creator : Option ThreadId) (gid : GlobalId) :
    Ref × Kernel :=
  let (ref, heap) := k.heap.allocate c creator gid
  (ref, { k with heap }.tell (.created creator ref))

def loadClass (k : Kernel) (c : ClassId) : Except Fault Kernel :=
  if k.statics.contains c then
    return k
  else do
    let desc ← k.classes.get c
    let (classClass, k) := k.register .classClass
    let (gid, pool) := k.pool.intern (.ofClass c)
    let k := { k with pool }
    let (classObject, k) := k.allocate (← k.classes.get classClass) none gid
    return { k with statics := k.statics.addClass desc gid classObject }.tell (.loaded c)

def loadClassNamed (k : Kernel) (name : String) : Except Fault (Attempt ClassId) :=
  match k.classes.lookup? name with
  | none => return (.error (.classNotLoaded name), k)
  | some c => return (.ok c, ← k.loadClass c)

def setClassStatus (k : Kernel) (c : ClassId) (next : InitStatus) : Attempt Unit :=
  match k.statics.setStatus c next with
  | .error e => (.error e, k)
  | .ok statics => (.ok (), { k with statics })

def newObject (k : Kernel) (c : ClassId) (creator : Option ThreadId) (site : Option Site) :
    Except Fault (Ref × Kernel) := do
  let (gid, k) ← k.newGlobalId creator site
  return k.allocate (← k.classes.get c) creator gid

def newArray (k : Kernel) (elem : ValueKind) (length : Nat) (creator : Option ThreadId)
    (site : Option Site) : Except Fault (Ref × Kernel) := do
  let (gid, k) ← k.newGlobalId creator site
  let (c, classes) := k.classes.arrayClass elem
  let (ref, heap) := k.heap.allocateArray c elem length creator gid
  return (ref, { k with classes, heap }.tell (.created creator ref))

def newString (k : Kernel) (text : String) (creator : Option ThreadId) :
    Except Fault (Ref × Kernel) := do
  let units := utf16 text
  let (chars, k) ← k.newArray .char units.length creator none
  let k ← k.updateElement chars fun e => e.updateFields fun f =>
    units.zipIdx.foldlM (fun f (unit, i) => f.setInt i (wordOf unit)) f
  let (stringClass, k) := k.register .stringClass
  let (string, k) ← k.newObject stringClass creator none
  match (← k.classes.get stringClass).instances.lookup? "value" with
  | none => return (string, k)
  | some (slot, _) =>
    return (string, ← k.updateElement string (·.updateFields (·.setRef slot chars)))

def internString (k : Kernel) (text : String) (creator : Option ThreadId) :
    Except Fault (Ref × Kernel) :=
  match k.heap.interned? text with
  | some ref => return (ref, k)
  | none => do
    let (string, k) ← k.newString text creator
    return (string, { k with heap := ← k.heap.recordInterned text string })

def collect (k : Kernel) : Except Fault (CollectionStats × Kernel) := do
  let c ← k.heap.collect { threads := k.threads.roots, statics := k.statics.roots }
  let k := { k.tell .gcBegin with heap := c.heap }
  let k := k.tellAll (c.released.map fun (o, gid) => .released o gid)
  return (c.stats, k.tell .gcEnd)

end Interleave.Kernel
