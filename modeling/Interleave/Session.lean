import Interleave.Encoding.StateTable
import Interleave.Schedule.Scheduler

/-!
Interactive work with program states: several kernels over one registry and one id pool, of which one
is current; snapshots, cursors, trackers and signatures under names of the user's choice; one path and
one state table.
-/

namespace Interleave

structure Named (α : Type) where
  entries : List (String × α) := []

namespace Named

variable {α : Type}

def get? (n : Named α) (name : String) : Option α := n.entries.lookup name

def erase (n : Named α) (name : String) : Named α := ⟨n.entries.filter (·.1 != name)⟩

def put (n : Named α) (name : String) (a : α) : Named α := ⟨(name, a) :: (n.erase name).entries⟩

end Named

structure Tracker where
  home : Nat
  cursor : Cursor := {}

structure Session where
  kernels : Array Kernel
  current : Nat := 0
  scheduler : Scheduler
  dice : Dice
  table : StateTable
  snapshots : Named Snapshot := {}
  cursors : Named Cursor := {}
  trackers : Named Tracker := {}
  serializers : List (Nat × Serializer) := []
  signatures : Named Signature := {}
  last : Option Generator := none
  path : Path := {}

namespace Session

def start (k : Kernel) (c : Config) (r : Shuffler := .congruential) : Except ConfigError Session := do
  let scheduler ← Scheduler.ofConfig c
  match Matching.ofName? c.search.stateTable with
  | none => throw (.unknownStateTable c.search.stateTable)
  | some matching =>
    return { kernels := #[k], scheduler, dice := scheduler.policy.dice r, table := { matching } }

def kernel (s : Session) : Kernel := s.kernels[s.current]?.getD {}

def setKernel (s : Session) (k : Kernel) : Session :=
  { s with kernels := s.kernels.setIfInBounds s.current k }

def use (s : Session) (n : Nat) : Session :=
  let missing := Array.replicate (n + 1 - s.kernels.size) ({} : Kernel)
  { s with kernels := (s.kernels ++ missing).modify n (·.adopt s.kernel), current := n }

def drain (s : Session) : List Event × Session :=
  (s.kernels.toList.flatMap (·.observers.told.toList),
    { s with kernels := s.kernels.map fun k => { k with observers.told := #[] } })

def capture (s : Session) (name : String) : Snapshot × Session :=
  let (m, k) := s.kernel.snapshot
  (m, { s.setKernel k with snapshots := s.snapshots.put name m })

def restore (s : Session) (name : String) : Option Session :=
  (s.snapshots.get? name).map fun m => s.setKernel (s.kernel.restore m)

def poll (s : Session) (name : String) : Changes × Session :=
  let (changes, cursor) := ((s.cursors.get? name).getD {}).poll s.kernel
  (changes, { s with cursors := s.cursors.put name cursor })

def sync (s : Session) (name : String) : Session :=
  { s with cursors := s.cursors.put name (((s.cursors.get? name).getD {}).sync s.kernel) }

def releaseTracker (s : Session) (name : String) : Bool × Session :=
  match s.trackers.get? name with
  | none => (false, s)
  | some tracker =>
    (true, { s with
      trackers := s.trackers.erase name
      kernels := s.kernels.modify tracker.home (·.releaseTracker) })

def acquireTracker (s : Session) (name : String) : Except KernelError Session :=
  match s.kernel.acquireTracker with
  | (.error e, _) => throw e
  | (.ok _, k) =>
    let (_, s) := (s.setKernel k).releaseTracker name
    return { s with trackers := s.trackers.put name { home := s.current } }

def pollTracker (s : Session) (name : String) : Option Changes × Session :=
  match s.trackers.get? name with
  | none => (none, s)
  | some tracker =>
    let (changes, cursor) := tracker.cursor.poll s.kernel
    (some changes, { s with trackers := s.trackers.put name { tracker with cursor } })

def syncTracker (s : Session) (name : String) : Bool × Session :=
  match s.trackers.get? name with
  | none => (false, s)
  | some tracker =>
    let cursor := tracker.cursor.sync s.kernel
    (true, { s with trackers := s.trackers.put name { tracker with cursor } })

def serializer? (s : Session) : Option Serializer := s.serializers.lookup s.current

def setSerializer (s : Session) (x : Serializer) : Session :=
  { s with serializers := (s.current, x) :: s.serializers.filter (·.1 != s.current) }

def attach (s : Session) : Except KernelError Session :=
  match Serializer.attach s.kernel with
  | (.error e, _) => throw e
  | (.ok x, k) => return (s.setKernel k).setSerializer x

def detach (s : Session) : Bool × Session :=
  match s.serializer? with
  | none => (false, s)
  | some _ =>
    let s := { s with serializers := s.serializers.filter (·.1 != s.current) }
    (true, s.setKernel s.kernel.releaseTracker)

def signature (s : Session) (name : Option String) :
    Except Fault (Option (Signature × Nat) × Session) :=
  match s.serializer? with
  | none => return (none, s)
  | some x => do
    let (sig, x) ← x.signature s.kernel
    let s := s.setSerializer x
    let s :=
      match name with
      | some name => { s with signatures := s.signatures.put name sig }
      | none => s
    return (some (sig, x.computed), s)

def prime (s : Session) (name : String) : Bool × Session :=
  match s.serializer?, s.signatures.get? name with
  | some x, some sig => (true, s.setSerializer (x.prime s.kernel sig))
  | _, _ => (false, s)

def visit (s : Session) : Except Fault (Visit × Session) := do
  let (v, table) := s.table.visit (← s.kernel.signature)
  return (v, { s with table })

def remember (s : Session) : Option Generator × Kernel × Dice → Option Generator × Session
  | (g, k, dice) => (g, { s.setKernel k with dice, last := g })

def decideRoot (s : Session) : Except Fault (Option Generator × Session) := do
  return s.remember (← s.scheduler.root s.kernel s.dice)

def decide (s : Session) (t : ThreadId) (what : Occasion) :
    Except Fault (Option Generator × Session) := do
  return s.remember (← s.scheduler.decide s.kernel s.dice s.path t what)

def pushLast (s : Session) : Bool × Session :=
  match s.last with
  | none => (false, s)
  | some g => (true, { s with path := s.path.push g })

def popPath (s : Session) : Option Generator × Session :=
  (s.path.top?, { s with path := s.path.pop })

def advancePath (s : Session) : Option ThreadId × Session :=
  match s.path.top? with
  | none => (none, s)
  | some g =>
    let (choice, g) := g.advance
    (choice, { s with path := s.path.setTop g })

end Session

end Interleave
