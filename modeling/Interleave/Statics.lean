import Interleave.Arena
import Interleave.Kernel.Error
import Interleave.Object.Element
import Interleave.Registry

/-!
Static slots: one element per loaded class, stored under the number of the class. Class numbers do not
depend on the interleaving, so the order of the slots does not either.
-/

namespace Interleave

structure Statics where
  arena : Arena Element := {}

inductive InitCheck where
  | ready
  | needsInitialization (c : ClassId)
  | initializingBy (t : ThreadId)
  deriving DecidableEq, Repr

namespace Statics

def size (s : Statics) : Nat := s.arena.live

def isEmpty (s : Statics) : Bool := s.arena.isEmpty

def epoch (s : Statics) : Nat := s.arena.epoch

def contains (s : Statics) (c : ClassId) : Bool := s.arena.contains c

def get? (s : Statics) (c : ClassId) : Option Element := s.arena.get? c

def elements (s : Statics) : List Element := s.arena.elements

def addClass (s : Statics) (c : ClassDescriptor) (gid : GlobalId) (classObject : Ref) : Statics :=
  if s.contains c.id then
    s
  else
    let e := Element.fresh (.ofIndex c.id) gid c.id (.static .uninitialized classObject)
      (.ofMask c.statics.refMask) none
    ⟨s.arena.insert c.id e⟩

def put (s : Statics) (c : ClassId) (e : Element) : Statics := ⟨s.arena.replace c e⟩

def status? (s : Statics) (c : ClassId) : Option InitStatus :=
  match s.get? c with
  | some e =>
    match e.kind with
    | .static status _ => some status
    | _ => none
  | none => none

def putStatus (s : Statics) (c : ClassId) (next : InitStatus) : Statics :=
  match s.get? c with
  | some e =>
    match e.kind with
    | .static _ classObject => s.put c { e with kind := .static next classObject }
    | _ => s
  | none => s

def setStatus (s : Statics) (c : ClassId) (next : InitStatus) : Except KernelError Statics :=
  match s.status? c with
  | none => throw (.classNotLoaded c.label)
  | some current =>
    if next.rank < current.rank then
      throw (.initRegression c current next)
    else if next = current then
      return s
    else
      return s.putStatus c next

def checkInitialized (s : Statics) (c : ClassId) (t : ThreadId) : InitCheck :=
  match s.status? c with
  | none | some .uninitialized => .needsInitialization c
  | some (.inProgress owner) => if owner = t then .ready else .initializingBy owner
  | some .initialized => .ready

def roots (s : Statics) : List Ref := s.elements.flatMap (·.traced)

def capture (s : Statics) : Arena.Image Element × Statics :=
  let (image, arena) := s.arena.capture
  (image, ⟨arena⟩)

def restore (s : Statics) (m : Arena.Image Element) : Statics := ⟨s.arena.restore m⟩

end Statics

end Interleave
