import Interleave.Object.Fields
import Interleave.Object.Monitor

/-!
What occupies an arena slot: an object, an array, or the static slot of a class.
-/

namespace Interleave

inductive Sharedness where
  | threadLocal (t : ThreadId)
  | shared
  deriving DecidableEq, Repr

inductive InitStatus where
  | uninitialized
  | inProgress (t : ThreadId)
  | initialized
  deriving DecidableEq, Repr

namespace InitStatus

def rank : InitStatus → Nat
  | uninitialized => 0
  | inProgress _ => 1
  | initialized => 2

def code : InitStatus → Int32
  | uninitialized => -1
  | inProgress _ => 1
  | initialized => 0

def label : InitStatus → String
  | uninitialized => "uninitialized"
  | inProgress t => s!"initializing by {t.label}"
  | initialized => "initialized"

end InitStatus

inductive ElementKind where
  | object
  | array (elem : ValueKind) (length : Nat)
  | static (status : InitStatus) (classObject : Ref)
  deriving DecidableEq, Repr

structure Element where
  ref : Ref
  gid : GlobalId
  classId : ClassId
  kind : ElementKind
  fields : Fields
  monitor : Monitor := {}
  sharedness : Sharedness
  pins : Nat := 0
  -- slot 0 of a weak holder does not keep its referent alive
  weak : Bool := false
  interned : Bool := false
  -- these keep nothing alive
  cached : List Ref := []
  deriving DecidableEq, Repr

namespace Element

def fresh (ref : Ref) (gid : GlobalId) (classId : ClassId) (kind : ElementKind) (fields : Fields)
    (creator : Option ThreadId) : Element where
  ref := ref
  gid := gid
  classId := classId
  kind := kind
  fields := fields
  sharedness :=
    match creator with
    | some t => .threadLocal t
    | none => .shared

def length? (e : Element) : Option Nat :=
  match e.kind with
  | .array _ length => some length
  | _ => none

def isShared (e : Element) : Bool := e.sharedness == .shared

def isPinned (e : Element) : Bool := 0 < e.pins

def pin (e : Element) : Element := { e with pins := e.pins + 1 }

def unpin (e : Element) : Element := { e with pins := e.pins - 1 }

def cacheRef (e : Element) (r : Ref) : Element :=
  if r.isNull || e.cached.contains r then e else { e with cached := e.cached ++ [r] }

def classObject? (e : Element) : Option Ref :=
  match e.kind with
  | .static _ classObject => if classObject.isNull then none else some classObject
  | _ => none

def traced (e : Element) : List Ref :=
  e.fields.referencesFrom (if e.weak then 1 else 0) ++ e.classObject?.toList

def updateFields (e : Element) (f : Fields → Except Fault Fields) : Except Fault Element := do
  return { e with fields := ← f e.fields }

end Element

end Interleave
