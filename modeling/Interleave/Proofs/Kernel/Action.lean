import Interleave.Proofs.Kernel.Operation

/-!
Everything that can be done to a program state, with the answers that are given back. Besides the
operations these are questions, which change nothing, what the heap and the thread list allow by
themselves, what other states do to the registry and the id pool, and putting captured states back.
-/

namespace Interleave

inductive Answer where
  | done
  | refused (e : KernelError)
  | flag (b : Bool)
  | count (n : Nat)
  | int (v : Int32)
  | long (v : Int64)
  | ref (r : Ref)
  | name (gid : GlobalId)
  | classId (c : ClassId)
  | thread (t : ThreadId)
  | woken (t : Option ThreadId)
  | left (frame : Option Frame)
  | lock (outcome : LockOutcome)
  | stats (s : CollectionStats)
  | check (c : InitCheck)
  | element (e : Option Element)
  | info (info : Option Thread)
  | threads (ts : List ThreadId)
  | section (a : AtomicSection)
  | snapshot (m : Snapshot)
  | image (m : Heap.Image)

def Answer.ofAttempt {α : Type} (f : α → Answer) : Except KernelError α → Answer
  | .ok a => f a
  | .error e => .refused e

inductive Question where
  | getInt (o : Ref) (name : String)
  | getLong (o : Ref) (name : String)
  | getRef (o : Ref) (name : String)
  | getStaticInt (c : ClassId) (name : String)
  | getStaticRef (c : ClassId) (name : String)
  | checkInitialized (c : ClassId) (t : ThreadId)
  | element (o : Ref)
  | static (c : ClassId)
  | thread (t : ThreadId)
  | runnable
  | isDeadlocked
  | isTerminated
  | atomic
  | outOfMemory
  | heapSize

inductive Action where
  | perform (op : Op)
  | ask (q : Question)
  | restore (m : Snapshot)
  | intern (key : IdKey)
  | observe (observers : Observers)
  | allocate (c : ClassDescriptor) (creator : Option ThreadId) (gid : GlobalId)
  | allocateArray (classId : ClassId) (elem : ValueKind) (length : Nat) (creator : Option ThreadId)
    (gid : GlobalId)
  | modify (o : Ref) (f : Element → Except Fault (Answer × Element))
  | collectFrom (roots : Roots)
  | captureHeap
  | restoreHeap (m : Heap.Image)
  | addThread (info : Thread)
  | modifyThread (t : ThreadId) (f : Thread → Except Fault (Answer × Thread))
  | restoreThreads (threads : Array Thread)

namespace Kernel

def respond (k : Kernel) : Op → Except Fault (Answer × Kernel)
  | .register c => return (.classId (k.register c).1, (k.register c).2)
  | .load c => return (.classId c, ← k.loadClass c)
  | .loadNamed name => do
    let (r, k) ← k.loadClassNamed name
    return (.ofAttempt .classId r, k)
  | .setStatus c status =>
    let (r, k) := k.setClassStatus c status
    return (.ofAttempt (fun _ => .done) r, k)
  | .newName creator site => do
    let (gid, k) ← k.newGlobalId creator site
    return (.name gid, k)
  | .newObject c creator site => do
    let (r, k) ← k.newObject c creator site
    return (.ref r, k)
  | .newArray elem length creator site => do
    let (r, k) ← k.newArray elem length creator site
    return (.ref r, k)
  | .intern text creator => do
    let (r, k) ← k.internString text creator
    return (.ref r, k)
  | .writeField o name v => do
    let (r, k) ← k.writeField v.write o name
    return (.ofAttempt (fun _ => .done) r, k)
  | .writeStatic c name v => do
    let (r, k) ← k.writeStatic v.write c name
    return (.ofAttempt (fun _ => .done) r, k)
  | .unpin o => do
    let (n, heap) ← k.heap.unpin o
    return (.count n, { k with heap })
  | .createThread name creator site => do
    let (t, k) ← k.createThread name creator site
    return (.thread t, k)
  | .start t frame => do
    let (r, k) ← k.startThread t frame
    return (.ofAttempt (fun _ => .done) r, k)
  | .enter t frame => do
    let (r, k) ← k.enterMethod t frame
    return (.ofAttempt (fun _ => .done) r, k)
  | .exit t => do
    let (frame, k) ← k.exitMethod t
    return (.left frame, k)
  | .terminate t => do
    let (r, k) ← k.terminateThread t
    return (.ofAttempt (fun _ => .done) r, k)
  | .lock t o => do
    let (outcome, k) ← k.lock t o
    return (.lock outcome, k)
  | .unlock t o => do
    let (r, k) ← k.unlock t o
    return (.ofAttempt .flag r, k)
  | .wait t o => do
    let (r, k) ← k.wait t o
    return (.ofAttempt (fun _ => .done) r, k)
  | .timedWait t o => do
    let (r, k) ← k.timedWait t o
    return (.ofAttempt (fun _ => .done) r, k)
  | .timeOut t => do
    let (r, k) ← k.timeOut t
    return (.flag r, k)
  | .notifyThread t o waiter => do
    let (r, k) ← k.notifyThread t o waiter
    return (.ofAttempt .flag r, k)
  | .notify t o => do
    let (r, k) ← k.notify t o
    return (.ofAttempt .woken r, k)
  | .notifyAll t o => do
    let (r, k) ← k.notifyAll t o
    return (.ofAttempt .count r, k)
  | .unpark t => do
    let (r, k) ← k.unpark t
    return (.flag r, k)
  | .endAtomic t =>
    let (r, k) := k.endAtomic t
    return (.ofAttempt (fun _ => .done) r, k)
  | .collect => do
    let (stats, k) ← k.collect
    return (.stats stats, k)
  | .snapshot => return (.snapshot k.snapshot.1, k.snapshot.2)
  | .acquireTracker =>
    let (r, k) := k.acquireTracker
    return (.ofAttempt (fun _ => .done) r, k)
  | op => return (.done, ← k.perform op)

def ask (k : Kernel) : Question → Except Fault Answer
  | .getInt o name => return .ofAttempt .int (← k.getInt o name)
  | .getLong o name => return .ofAttempt .long (← k.getLong o name)
  | .getRef o name => return .ofAttempt .ref (← k.getRef o name)
  | .getStaticInt c name => return .ofAttempt .int (← k.getStaticInt c name)
  | .getStaticRef c name => return .ofAttempt .ref (← k.getStaticRef c name)
  | .checkInitialized c t => return .check (k.statics.checkInitialized c t)
  | .element o => return .element (k.heap.get? o)
  | .static c => return .element (k.statics.get? c)
  | .thread t => return .info (k.threads.get? t)
  | .runnable => return .threads k.threads.runnable
  | .isDeadlocked => return .flag k.isDeadlocked
  | .isTerminated => return .flag k.isTerminated
  | .atomic => return .section k.atomic
  | .outOfMemory => return .flag k.heap.outOfMemory
  | .heapSize => return .count k.heap.size

def act (k : Kernel) : Action → Except Fault (Answer × Kernel)
  | .perform op => k.respond op
  | .ask q => return (← k.ask q, k)
  | .restore m => return (.done, k.restore m)
  | .intern key => return (.name (k.pool.intern key).1, { k with pool := (k.pool.intern key).2 })
  | .observe observers => return (.done, { k with observers })
  | .allocate c creator gid =>
    let (r, heap) := k.heap.allocate c creator gid
    return (.ref r, { k with heap })
  | .allocateArray classId elem length creator gid =>
    let (r, heap) := k.heap.allocateArray classId elem length creator gid
    return (.ref r, { k with heap })
  | .modify o f => do
    let e ← k.heap.deref o
    let (r, e') ← f e
    return (r, { k with heap := k.heap.put o { e' with ref := e.ref } })
  | .collectFrom roots => do
    let c ← k.heap.collect roots
    return (.stats c.stats, { k with heap := c.heap })
  | .captureHeap => return (.image k.heap.capture.1, { k with heap := k.heap.capture.2 })
  | .restoreHeap m => return (.done, { k with heap := k.heap.restore m })
  | .addThread info => do
    let (t, threads) ← k.threads.add info
    return (.thread t, { k with threads })
  | .modifyThread t f => do
    let (r, info) ← f (← k.threads.get t)
    return (r, { k with threads := k.threads.put t info })
  | .restoreThreads threads => return (.done, { k with threads := k.threads.restore threads })

def run (k : Kernel) : List Action → Except Fault (List Answer × Kernel)
  | [] => return ([], k)
  | a :: as => do
    let (r, k) ← k.act a
    let (rs, k) ← k.run as
    return (r :: rs, k)

theorem perform_eq_ok {k k' : Kernel} {op : Op} :
    k.perform op = .ok k' ↔ ∃ r, k.respond op = .ok (r, k') := by
  cases op with
  | register | setStatus | setOutOfMemory | beginAtomic | endAtomic | setBlockedInAtomic | snapshot | tell
  | acquireTracker | releaseTracker =>
    constructor
    · intro h
      cases h
      exact ⟨_, rfl⟩
    · rintro ⟨r, h⟩
      cases h
      rfl
  | loadNamed | newName | newObject | newArray | intern | writeField | writeStatic | createThread | start
  | enter | exit | terminate | lock | unlock | wait | timedWait | timeOut | notifyThread | notify
  | notifyAll | unpark | collect =>
    constructor
    · intro h
      obtain ⟨a, ha⟩ := snd_eq_ok.mp h
      exact ⟨_, bind_eq_ok.mpr ⟨_, ha, rfl⟩⟩
    · rintro ⟨r, h⟩
      obtain ⟨⟨a, k₁⟩, ha, h⟩ := bind_eq_ok.mp h
      cases h
      exact snd_eq_ok.mpr ⟨a, ha⟩
  | unpin o =>
    constructor
    · intro h
      obtain ⟨⟨n, heap⟩, hn, h⟩ := bind_eq_ok.mp h
      cases h
      exact ⟨_, bind_eq_ok.mpr ⟨_, hn, rfl⟩⟩
    · rintro ⟨r, h⟩
      obtain ⟨⟨n, heap⟩, hn, h⟩ := bind_eq_ok.mp h
      cases h
      exact bind_eq_ok.mpr ⟨_, hn, rfl⟩
  | _ =>
    constructor
    · intro h
      exact ⟨_, bind_eq_ok.mpr ⟨k', h, rfl⟩⟩
    · rintro ⟨r, h⟩
      obtain ⟨k₁, h₁, h⟩ := bind_eq_ok.mp h
      cases h
      exact h₁

theorem run_cons {k k' : Kernel} {a : Action} {as : List Action} {rs : List Answer} :
    k.run (a :: as) = .ok (rs, k') ↔
      ∃ r k₁ rs', k.act a = .ok (r, k₁) ∧ k₁.run as = .ok (rs', k') ∧ rs = r :: rs' := by
  rw [run]
  constructor
  · intro h
    obtain ⟨⟨r, k₁⟩, h₁, h⟩ := bind_eq_ok.mp h
    obtain ⟨⟨rs', k₂⟩, h₂, h⟩ := bind_eq_ok.mp h
    cases h
    exact ⟨r, k₁, rs', h₁, h₂, rfl⟩
  · rintro ⟨r, k₁, rs', h₁, h₂, rfl⟩
    exact bind_eq_ok.mpr ⟨_, h₁, bind_eq_ok.mpr ⟨_, h₂, rfl⟩⟩

theorem run_append {k k' : Kernel} {as bs : List Action} {rs : List Answer} :
    k.run (as ++ bs) = .ok (rs, k') ↔
      ∃ rs₁ k₁ rs₂, k.run as = .ok (rs₁, k₁) ∧ k₁.run bs = .ok (rs₂, k') ∧ rs = rs₁ ++ rs₂ := by
  induction as generalizing k rs with
  | nil =>
    constructor
    · intro h
      exact ⟨[], k, rs, rfl, h, rfl⟩
    · rintro ⟨rs₁, k₁, rs₂, h₁, h₂, rfl⟩
      cases h₁
      exact h₂
  | cons a as ih =>
    rw [List.cons_append, run_cons]
    constructor
    · rintro ⟨r, k₁, rs', h₁, h₂, rfl⟩
      obtain ⟨rs₁, k₂, rs₂, has, hbs, rfl⟩ := ih.mp h₂
      exact ⟨r :: rs₁, k₂, rs₂, run_cons.mpr ⟨r, k₁, rs₁, h₁, has, rfl⟩, hbs, rfl⟩
    · rintro ⟨rs₁, k₂, rs₂, h, hbs, rfl⟩
      obtain ⟨r, k₁, rs', h₁, has, rfl⟩ := run_cons.mp h
      exact ⟨r, k₁, rs' ++ rs₂, h₁, ih.mpr ⟨rs', k₂, rs₂, has, hbs, rfl⟩, rfl⟩

end Kernel

def Action.restores : Action → Bool
  | .restore _ | .restoreHeap _ => true
  | _ => false

/-- The states that actions can lead to, over any registry and id pool. What is put back was captured
in such a state. -/
inductive Kernel.Reachable : Kernel → Prop where
  | start (classes : Registry) (pool : IdPool) (limit : Option Nat) (observers : Observers) :
    Reachable { classes, pool, heap := .withLimit limit, observers }
  | act {k k' : Kernel} {a : Action} {r : Answer} (hk : k.Reachable) (ha : a.restores = false)
    (h : k.act a = .ok (r, k')) : Reachable k'
  | restore {k other : Kernel} (hk : k.Reachable) (hother : other.Reachable) :
    Reachable (k.restore other.snapshot.1)
  | restoreHeap {k other : Kernel} (hk : k.Reachable) (hother : other.Reachable) :
    Reachable { k with heap := k.heap.restore other.heap.capture.1 }

theorem Kernel.Reachable.performAll {k : Kernel} (hk : k.Reachable) (ops : List Op) :
    (k.performAll ops).Reachable := by
  unfold Kernel.performAll
  split
  · next hk' =>
    apply foldlM_induction hk' hk
    intro op _ k₁ k₂ hk₁ hk₂
    obtain ⟨r, hr⟩ := perform_eq_ok.mp hk₂
    exact .act (a := .perform op) hk₁ rfl hr
  · exact hk

end Interleave
