import Interleave.Kernel.Atomic
import Interleave.Kernel.Field
import Interleave.Kernel.Lifecycle
import Interleave.Kernel.Snapshot
import Interleave.Proofs.Except

/-!
The operations of a program state as one type, and the states that they build. States are built side by
side over one registry and one id pool, which only grow: a state may take over a later version of the
two, and a snapshot may be put back into another state.
-/

namespace Interleave

inductive SlotValue where
  | int (v : Int32)
  | long (v : Int64)
  | ref (r : Ref)

def SlotValue.write : SlotValue → Fields → Nat → Except Fault Fields
  | int v, f, i => f.setInt i v
  | long v, f, i => f.setLong i v
  | ref r, f, i => f.setRef i r

inductive Op where
  | register (c : ClassDescriptor)
  | load (c : ClassId)
  | loadNamed (name : String)
  | setStatus (c : ClassId) (status : InitStatus)
  | newName (creator : Option ThreadId) (site : Option Site)
  | newObject (c : ClassId) (creator : Option ThreadId) (site : Option Site)
  | newArray (elem : ValueKind) (length : Nat) (creator : Option ThreadId) (site : Option Site)
  | intern (text : String) (creator : Option ThreadId)
  | writeField (o : Ref) (name : String) (v : SlotValue)
  | writeStatic (c : ClassId) (name : String) (v : SlotValue)
  | writeSlot (o : Ref) (i : Nat) (v : SlotValue)
  | pin (o : Ref)
  | unpin (o : Ref)
  | makeWeak (o : Ref)
  | cache (o r : Ref)
  | setOutOfMemory (flag : Bool)
  | createThread (name : String) (creator : Option ThreadId) (site : Option Site)
  | start (t : ThreadId) (frame : Frame)
  | enter (t : ThreadId) (frame : Frame)
  | exit (t : ThreadId)
  | executed (t : ThreadId)
  | setFrame (t : ThreadId) (frame : Frame)
  | setPriority (t : ThreadId) (priority : Int32)
  | setDaemon (t : ThreadId) (daemon : Bool)
  | sleep (t : ThreadId)
  | endSleep (t : ThreadId)
  | suspend (t : ThreadId)
  | resume (t : ThreadId)
  | terminate (t : ThreadId)
  | lock (t : ThreadId) (o : Ref)
  | unlock (t : ThreadId) (o : Ref)
  | wait (t : ThreadId) (o : Ref)
  | timedWait (t : ThreadId) (o : Ref)
  | timeOut (t : ThreadId)
  | notifyThread (t : ThreadId) (o : Ref) (waiter : ThreadId)
  | notify (t : ThreadId) (o : Ref)
  | notifyAll (t : ThreadId) (o : Ref)
  | park (t : ThreadId)
  | unpark (t : ThreadId)
  | interrupt (t : ThreadId)
  | beginAtomic (t : ThreadId)
  | endAtomic (t : ThreadId)
  | setBlockedInAtomic
  | collect
  | snapshot
  | tell (e : Event)
  | acquireTracker
  | releaseTracker

namespace Kernel

/-- The state after an operation. An operation that is refused counts as one that changes nothing. -/
def perform (k : Kernel) : Op → Except Fault Kernel
  | .register c => return (k.register c).2
  | .load c => k.loadClass c
  | .loadNamed name => return (← k.loadClassNamed name).2
  | .setStatus c status => return (k.setClassStatus c status).2
  | .newName creator site => return (← k.newGlobalId creator site).2
  | .newObject c creator site => return (← k.newObject c creator site).2
  | .newArray elem length creator site => return (← k.newArray elem length creator site).2
  | .intern text creator => return (← k.internString text creator).2
  | .writeField o name v => return (← k.writeField v.write o name).2
  | .writeStatic c name v => return (← k.writeStatic v.write c name).2
  | .writeSlot o i v => k.updateElement o (·.updateFields (v.write · i))
  | .pin o => return { k with heap := ← k.heap.pin o }
  | .unpin o => return { k with heap := (← k.heap.unpin o).2 }
  | .makeWeak o => return { k with heap := ← k.heap.makeWeak o }
  | .cache o r => k.updateElement o fun e => return e.cacheRef r
  | .setOutOfMemory flag => return { k with heap := k.heap.setOutOfMemory flag }
  | .createThread name creator site => return (← k.createThread name creator site).2
  | .start t frame => return (← k.startThread t frame).2
  | .enter t frame => return (← k.enterMethod t frame).2
  | .exit t => return (← k.exitMethod t).2
  | .executed t => k.instructionExecuted t
  | .setFrame t frame =>
    k.updateThread t fun info => if info.frames.isEmpty then info else info.setTopFrame frame
  | .setPriority t priority => k.updateThread t ({ · with priority })
  | .setDaemon t daemon => k.updateThread t ({ · with daemon })
  | .sleep t => k.sleep t
  | .endSleep t => k.endSleep t
  | .suspend t => k.suspend t
  | .resume t => k.resume t
  | .terminate t => return (← k.terminateThread t).2
  | .lock t o => return (← k.lock t o).2
  | .unlock t o => return (← k.unlock t o).2
  | .wait t o => return (← k.wait t o).2
  | .timedWait t o => return (← k.timedWait t o).2
  | .timeOut t => return (← k.timeOut t).2
  | .notifyThread t o waiter => return (← k.notifyThread t o waiter).2
  | .notify t o => return (← k.notify t o).2
  | .notifyAll t o => return (← k.notifyAll t o).2
  | .park t => k.park t
  | .unpark t => return (← k.unpark t).2
  | .interrupt t => k.interrupt t
  | .beginAtomic t => return k.beginAtomic t
  | .endAtomic t => return (k.endAtomic t).2
  | .setBlockedInAtomic => return k.setBlockedInAtomic
  | .collect => return (← k.collect).2
  | .snapshot => return k.snapshot.2
  | .tell e => return k.tell e
  | .acquireTracker => return k.acquireTracker.2
  | .releaseTracker => return k.releaseTracker

structure Precedes (k other : Kernel) : Prop where
  classes : k.classes.classes.toList <+: other.classes.classes.toList
  pool : k.pool.keys.toList <+: other.pool.keys.toList

/-- The states that operations can build if each operation satisfies `ok` where it is performed. -/
inductive Built (ok : Kernel → Op → Prop) : Kernel → Prop where
  | start (limit : Option Nat) (observers : Observers) :
    Built ok { Kernel.withLimit limit with observers }
  | perform {k k' : Kernel} {op : Op} (hk : Built ok k) (hop : ok k op) (hk' : k.perform op = .ok k') :
    Built ok k'
  | adopt {k other : Kernel} (hk : Built ok k) (hother : Built ok other) (hle : k.Precedes other) :
    Built ok (k.adopt other)
  | restore {k other : Kernel} (hk : Built ok k) (hother : Built ok other)
    (hle : other.Precedes k) : Built ok (k.restore other.snapshot.1)

def performAll (k : Kernel) (ops : List Op) : Kernel :=
  match ops.foldlM perform k with
  | .ok k' => k'
  | .error _ => k

theorem foldlM_eq_performAll {k : Kernel} {ops : List Op} (h : (ops.foldlM perform k).isOk = true) :
    ops.foldlM perform k = .ok (k.performAll ops) := by
  unfold performAll
  split
  · assumption
  · next heq =>
    rw [heq] at h
    cases h

theorem Built.performAll {ok : Kernel → Op → Prop} {k : Kernel} (hk : Built ok k) {ops : List Op}
    (hok : ∀ k, ∀ op ∈ ops, ok k op) : Built ok (k.performAll ops) := by
  unfold Kernel.performAll
  split
  · next hk' =>
    apply foldlM_induction hk' hk
    intro op hop k k' hk hk'
    exact .perform hk (hok k op hop) hk'
  · exact hk

/-- What comes of a state if no snapshot is put back. -/
inductive Runs (ok : Kernel → Op → Prop) (k : Kernel) : Kernel → Prop where
  | refl : Runs ok k k
  | perform {k₁ k₂ : Kernel} {op : Op} (hk : Runs ok k k₁) (hop : ok k₁ op)
    (hk₂ : k₁.perform op = .ok k₂) : Runs ok k k₂
  | adopt {k₁ other : Kernel} (hk : Runs ok k k₁) (hle : k₁.Precedes other) : Runs ok k (k₁.adopt other)

section Allowed

variable {ok : Kernel → Op → Prop} [∀ k op, Decidable (ok k op)] {k : Kernel} {ops : List Op}

def allows (ok : Kernel → Op → Prop) [∀ k op, Decidable (ok k op)] (k : Kernel) : List Op → Bool
  | [] => true
  | op :: ops => decide (ok k op) &&
    match k.perform op with
    | .ok k' => allows ok k' ops
    | .error _ => false

theorem foldlM_of_allows {motive : Kernel → Prop}
    (step : ∀ k op k', ok k op → k.perform op = .ok k' → motive k → motive k') (hk : motive k)
    (hok : k.allows ok ops = true) : ∃ k', ops.foldlM Kernel.perform k = .ok k' ∧ motive k' := by
  induction ops generalizing k with
  | nil => exact ⟨k, rfl, hk⟩
  | cons op ops ih =>
    unfold allows at hok
    rw [Bool.and_eq_true, decide_eq_true_eq] at hok
    rw [List.foldlM_cons]
    cases hop : k.perform op with
    | ok k' =>
      rw [hop] at hok
      exact ih (step k op k' hok.1 hop hk) hok.2
    | error e =>
      rw [hop] at hok
      cases hok.2

theorem performAll_of_allows {motive : Kernel → Prop}
    (step : ∀ k op k', ok k op → k.perform op = .ok k' → motive k → motive k') (hk : motive k)
    (hok : k.allows ok ops = true) : motive (k.performAll ops) := by
  obtain ⟨k', hk', hmotive⟩ := foldlM_of_allows step hk hok
  unfold Kernel.performAll
  rwa [hk']

theorem Built.performAllowed (h : Built ok k) (hok : k.allows ok ops = true) :
    Built ok (k.performAll ops) :=
  performAll_of_allows (fun _ _ _ hop hk' hk => hk.perform hop hk') h hok

theorem Runs.performAllowed (hok : k.allows ok ops = true) : Runs ok k (k.performAll ops) :=
  performAll_of_allows (fun _ _ _ hop hk' hk => hk.perform hop hk') .refl hok

end Allowed

end Kernel

def ClassDescriptor.IsPlain (c : ClassDescriptor) : Prop :=
  c.arrayOf = none ∧ ∀ elem, c.name ≠ (ClassDescriptor.array elem).name

def Op.KeepsArrayNames : Op → Prop
  | .register c => c.IsPlain ∨ ∃ elem, c = .array elem
  | _ => True

/-- Instances are made of plain classes only, and arrays as arrays. -/
def Op.IsProper (k : Kernel) (op : Op) : Prop :=
  op.KeepsArrayNames ∧
    match op with
    | .newObject c _ _ => ∀ desc, k.classes.get c = .ok desc → desc.arrayOf = none
    | _ => True

end Interleave
