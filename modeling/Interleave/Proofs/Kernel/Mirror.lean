import Interleave.Proofs.Encoding.Tracking
import Interleave.Proofs.Heap.Mirror
import Interleave.Proofs.Kernel.Effect

/-!
States that a snapshot does not tell apart. They may differ in epochs, interned strings and observers,
and one of them may know of more classes and names. The operations work alike on both.
-/

namespace Interleave

namespace Kernel

structure Mirrors (k k' : Kernel) : Prop where
  heap : k.heap.Mirrors k'.heap
  statics : k'.statics.capture.1 = k.statics.capture.1
  threads : k'.threads.threads = k.threads.threads
  counts : k'.tally.counts = k.tally.counts
  atomic : k'.atomic = k.atomic
  precedes : k.Precedes k'

namespace Mirrors

variable {k k' : Kernel}

section

variable (h : k.Mirrors k')

include h

theorem snapshot_eq : k'.snapshot.1 = k.snapshot.1 :=
  Snapshot.mk.injEq .. |>.mpr ⟨h.threads, h.statics, h.heap.image, h.counts, h.atomic⟩

theorem getThread? (t : ThreadId) : k'.threads.get? t = k.threads.get? t := by
  unfold Roster.get?
  rw [h.threads]

theorem getThread (t : ThreadId) : k'.threads.get t = k.threads.get t := by
  unfold Roster.get
  rw [h.getThread?]

theorem toList_eq : k'.threads.toList = k.threads.toList := by
  unfold Roster.toList
  rw [h.threads]

theorem getStatic? (c : ClassId) : k'.statics.get? c = k.statics.get? c :=
  Arena.get?_of_capture h.statics c

theorem containsStatic (c : ClassId) : k'.statics.contains c = k.statics.contains c :=
  Arena.contains_congr (h.getStatic? c)

theorem status? (c : ClassId) : k'.statics.status? c = k.statics.status? c := by
  unfold Statics.status?
  rw [h.getStatic?]

theorem getClass (c : ClassId) : Follows Eq (k.classes.get c) (k'.classes.get c) := by
  intro desc hdesc
  rw [Registry.get_eq_ok] at hdesc
  refine ⟨desc, ?_, rfl⟩
  rw [Registry.get_eq_ok]
  exact Registry.getElem?_of_prefix h.precedes.classes hdesc

theorem instanceSlot (o : Ref) (name : String) :
    Follows Eq (k.instanceSlot o name) (k'.instanceSlot o name) := by
  unfold Kernel.instanceSlot
  rw [h.heap.deref]
  apply Follows.after
  intro e
  apply (h.getClass e.classId).bind
  rintro desc _ rfl
  exact .same _

theorem staticSlot (c : ClassId) (name : String) :
    Follows Eq (k.staticSlot c name) (k'.staticSlot c name) := by
  unfold Kernel.staticSlot
  rw [h.containsStatic]
  apply (h.getClass c).bind
  rintro desc _ rfl
  exact .same _

theorem readField {α : Type} (read : Fields → Nat → Except Fault α) (o : Ref) (name : String) :
    Follows Eq (k.readField read o name) (k'.readField read o name) := by
  unfold Kernel.readField
  rw [h.heap.deref]
  apply (h.instanceSlot o name).bind
  rintro slot _ rfl
  exact .same _

theorem readStatic {α : Type} (read : Fields → Nat → Except Fault α) (absent : α) (c : ClassId)
    (name : String) :
    Follows Eq (k.readStatic read absent c name) (k'.readStatic read absent c name) := by
  unfold Kernel.readStatic
  rw [h.getStatic?]
  apply (h.staticSlot c name).bind
  rintro slot _ rfl
  exact .same _

theorem ask (q : Question) : Follows Eq (k.ask q) (k'.ask q) := by
  have hread : ∀ {α : Type} {f : α → Answer} {x y : Except Fault (Except KernelError α)},
      Follows Eq x y → Follows Eq (x >>= fun r => pure (Answer.ofAttempt f r))
        (y >>= fun r => pure (Answer.ofAttempt f r)) := by
    intro α f x y hxy
    apply hxy.bind
    rintro r _ rfl
    exact .same _
  cases q with
  | getInt o name => exact hread (h.readField Fields.getInt o name)
  | getLong o name => exact hread (h.readField Fields.getLong o name)
  | getRef o name => exact hread (h.readField Fields.getRef o name)
  | getStaticInt c name => exact hread (h.readStatic Fields.getInt 0 c name)
  | getStaticRef c name => exact hread (h.readStatic Fields.getRef .null c name)
  | checkInitialized c t =>
    apply Follows.pure
    unfold Statics.checkInitialized
    rw [h.status?]
  | element o => exact .pure (congrArg Answer.element (h.heap.get? o).symm)
  | static c => exact .pure (congrArg Answer.element (h.getStatic? c).symm)
  | thread t => exact .pure (congrArg Answer.info (h.getThread? t).symm)
  | runnable =>
    apply Follows.pure
    unfold Roster.runnable
    rw [h.toList_eq]
  | isDeadlocked =>
    apply Follows.pure
    unfold Kernel.isDeadlocked Roster.isDeadlocked Roster.runnableCount Roster.anyAliveNonDaemon
    rw [h.toList_eq]
  | isTerminated =>
    apply Follows.pure
    unfold Kernel.isTerminated Roster.anyAliveNonDaemon
    rw [h.toList_eq]
  | atomic => exact .pure (congrArg Answer.section h.atomic.symm)
  | outOfMemory => exact .pure (congrArg Answer.flag h.heap.outOfMemory.symm)
  | heapSize => exact .pure (congrArg (fun m => Answer.count m.arena.live) h.heap.image.symm)

theorem encode_eq : k'.encode = k.encode := encode_eq_of_snapshot h.snapshot_eq

theorem tell (e e' : Event) : (k.tell e).Mirrors (k'.tell e') :=
  { h with precedes := ⟨h.precedes.classes, h.precedes.pool⟩ }

theorem tellAll (es es' : List Event) : (k.tellAll es).Mirrors (k'.tellAll es') :=
  { h with precedes := ⟨h.precedes.classes, h.precedes.pool⟩ }

theorem onHeap {heap heap' : Heap} (hh : heap.Mirrors heap') :
    { k with heap }.Mirrors { k' with heap := heap' } :=
  { h with heap := hh, precedes := ⟨h.precedes.classes, h.precedes.pool⟩ }

theorem onStatics {statics statics' : Statics} (hs : statics'.capture.1 = statics.capture.1) :
    { k with statics }.Mirrors { k' with statics := statics' } :=
  { h with statics := hs, precedes := ⟨h.precedes.classes, h.precedes.pool⟩ }

theorem onThreads {threads threads' : Roster} (ht : threads'.threads = threads.threads) :
    { k with threads }.Mirrors { k' with threads := threads' } :=
  { h with threads := ht, precedes := ⟨h.precedes.classes, h.precedes.pool⟩ }

theorem onAtomic (atomic : AtomicSection) (n n' : Nat) :
    { k with atomic, atomicEpoch := n }.Mirrors { k' with atomic, atomicEpoch := n' } :=
  { h with atomic := rfl, precedes := ⟨h.precedes.classes, h.precedes.pool⟩ }

theorem putThread (t : ThreadId) (info : Thread) :
    { k with threads := k.threads.put t info }.Mirrors { k' with threads := k'.threads.put t info } :=
  h.onThreads (congrArg (·.setIfInBounds t info) h.threads)

theorem updateThread (t : ThreadId) (f : Thread → Thread) :
    Follows Mirrors (k.updateThread t f) (k'.updateThread t f) := by
  unfold Kernel.updateThread Roster.update
  rw [h.getThread]
  apply Follows.bind (R := fun r r' => r'.threads = r.threads)
  · apply Follows.after
    intro info
    exact .pure (congrArg (·.setIfInBounds t (f info)) h.threads)
  · intro r r' hr
    exact .pure (h.onThreads hr)

theorem updateElement (o : Ref) (f : Element → Except Fault Element) :
    Follows Mirrors (k.updateElement o f) (k'.updateElement o f) := by
  unfold Kernel.updateElement
  apply (h.heap.update o f).bind
  intro heap heap' hh
  exact .pure (h.onHeap hh)

theorem updateMonitor (o : Ref) (f : Monitor → Monitor) :
    Follows Mirrors (k.updateMonitor o f) (k'.updateMonitor o f) :=
  h.updateElement o _

end

end Mirrors

theorem mirrors_restore {k k' : Kernel} (hk : k.heap.arena.Packed) (h : k.Lasts k') :
    k.Mirrors (k'.restore k.snapshot.1) where
  heap := ⟨rfl, h.heap.limit, hk, .restore _ _⟩
  statics := rfl
  threads := rfl
  counts := rfl
  atomic := rfl
  precedes := ⟨h.precedes.classes, h.precedes.pool⟩

end Kernel

end Interleave
