import Interleave.Config.Basic
import Interleave.Kernel.Field
import Interleave.Kernel.Memory

/-!
Boxes for values of basic kinds. For values within configured bounds there is one box per kind and
value, kept in arrays that static fields of a class of their own refer to. The arrays are filled when a
kind is used for the first time.
-/

namespace Interleave

inductive BoxKind where
  | boolean
  | byte
  | character
  | short
  | integer
  | long
  deriving DecidableEq, Repr

namespace BoxKind

def all : List BoxKind := [boolean, byte, character, short, integer, long]

def className : BoxKind → String
  | boolean => "java.lang.Boolean"
  | byte => "java.lang.Byte"
  | character => "java.lang.Character"
  | short => "java.lang.Short"
  | integer => "java.lang.Integer"
  | long => "java.lang.Long"

def cacheField : BoxKind → String
  | boolean => "booleanCache"
  | byte => "byteCache"
  | character => "charCache"
  | short => "shortCache"
  | integer => "intCache"
  | long => "longCache"

def valueKind : BoxKind → ValueKind
  | boolean => .boolean
  | byte => .byte
  | character => .char
  | short => .short
  | integer => .int
  | long => .long

def bounds (b : BoxBounds) : BoxKind → Int64 × Int64
  | boolean => (0, 1)
  | byte => (b.byteLow, b.byteHigh)
  | character => (0, b.charHigh)
  | short => (b.shortLow, b.shortHigh)
  | integer => (b.intLow, b.intHigh)
  | long => (b.longLow, b.longHigh)

def ofValueKind? (v : ValueKind) : Option BoxKind := all.find? (·.valueKind == v)

def boxClass (kind : BoxKind) : ClassDescriptor :=
  { name := kind.className, instances := ⟨[⟨"value", kind.valueKind⟩]⟩ }

def cachesClass : ClassDescriptor :=
  { name := "$BoxCaches", statics := ⟨all.map fun kind => ⟨kind.cacheField, .reference⟩⟩ }

end BoxKind

namespace Kernel

def newBox (k : Kernel) (t : ThreadId) (kind : BoxKind) (value : Int64) :
    Except Fault (Attempt Ref) := do
  let (c, k) := k.register kind.boxClass
  let (box, k) ← k.newObject c (some t) none
  let (r, k) ← match kind with
    | .long => k.setLong box "value" value
    | _ => k.setInt box "value" value.toInt32
  return (r.map fun _ => box, k)

def fillBoxes (k : Kernel) (t : ThreadId) (kind : BoxKind) (array : Ref) (slot : Nat) :
    List Int64 → Except Fault (Attempt Unit)
  | [] => return (.ok (), k)
  | value :: rest => do
    match ← k.newBox t kind value with
    | (.error e, k) => return (.error e, k)
    | (.ok box, k) =>
      let k ← k.updateElement array (·.updateFields (·.setRef slot box))
      fillBoxes k t kind array (slot + 1) rest

def boxValues (low high : Int64) : List Int64 :=
  (List.range (high.toInt - low.toInt + 1).toNat).map fun (i : Nat) => Int64.ofInt (low.toInt + i)

def newBoxArray (k : Kernel) (bounds : BoxBounds) (t : ThreadId) (kind : BoxKind) :
    Except Fault (Attempt Ref) := do
  let (low, high) := kind.bounds bounds
  let values := boxValues low high
  let (array, k) ← k.newArray .reference values.length (some t) none
  let (r, k) ← k.fillBoxes t kind array 0 values
  return (r.map fun _ => array, k)

def boxArray (k : Kernel) (bounds : BoxBounds) (t : ThreadId) (kind : BoxKind) :
    Except Fault (Attempt Ref) := do
  let (caches, k) := k.register BoxKind.cachesClass
  let k ← k.loadClass caches
  match ← k.getStaticRef caches kind.cacheField with
  | .error e => return (.error e, k)
  | .ok array =>
    if array.isNull then
      match ← k.newBoxArray bounds t kind with
      | (.error e, k) => return (.error e, k)
      | (.ok array, k) =>
        let (r, k) ← k.setStaticRef caches kind.cacheField array
        return (r.map fun _ => array, k)
    else
      return (.ok array, k)

/-- The box for a value: always the same one within bounds, a fresh one outside. -/
def box (k : Kernel) (bounds : BoxBounds) (t : ThreadId) (kind : BoxKind) (value : Int64) :
    Except Fault (Attempt Ref) := do
  let (low, high) := kind.bounds bounds
  if value < low ∨ high < value then
    k.newBox t kind value
  else
    match ← k.boxArray bounds t kind with
    | (.error e, k) => return (.error e, k)
    | (.ok array, k) =>
      let e ← k.heap.deref array
      return (.ok (← e.fields.getRef (value.toInt - low.toInt).toNat), k)

def boxArray? (k : Kernel) (kind : BoxKind) : Except Fault (Option Ref) :=
  match k.classes.lookup? BoxKind.cachesClass.name with
  | none => return none
  | some caches => do
    match ← k.getStaticRef caches kind.cacheField with
    | .error _ => return none
    | .ok array => return if array.isNull then none else some array

end Kernel

end Interleave
