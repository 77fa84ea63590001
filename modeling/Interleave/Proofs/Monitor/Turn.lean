import Interleave.Proofs.Kernel.Ownership

/-!
What one operation on threads and monitors can do, said once: there are ten kinds of turns, each with
the condition under which it is taken and with its effect on every thread and every monitor.
-/

namespace Interleave

namespace ThreadState

def isWaiting : ThreadState → Bool
  | waiting | timedWaiting => true
  | _ => false

def isStuck : ThreadState → Bool
  | blocked | notified | interrupted => true
  | _ => false

def isFree : ThreadState → Bool
  | new | running | unblocked | timedOut | parked | sleeping => true
  | _ => false

theorem isFree_of_isRunnable {s : ThreadState} (h : s.isRunnable = true) : s.isFree = true := by
  cases s <;> first | rfl | cases h

@[simp]
theorem isWaiting_woken (s : ThreadState) : s.woken.isWaiting = s.isWaiting := by
  cases s <;> rfl

@[simp]
theorem woken_eq_terminated {s : ThreadState} : s.woken = .terminated ↔ s = .terminated := by
  cases s <;> simp [woken]

theorem isFree_woken {s : ThreadState} (h : s.isStuck = true) : s.woken.isFree = true := by
  cases s <;> first | rfl | cases h

theorem woken_eq_self {s : ThreadState} (h : s.isStuck = false) : s.woken = s := by
  cases s <;> first | rfl | cases h

theorem not_isWaiting_of_isFree {s : ThreadState} (h : s.isFree = true) : s.isWaiting = false := by
  cases s <;> first | rfl | cases h

theorem not_isStuck_of_isFree {s : ThreadState} (h : s.isFree = true) : s.isStuck = false := by
  cases s <;> first | rfl | cases h

theorem ne_terminated_of_isFree {s : ThreadState} (h : s.isFree = true) : s ≠ .terminated := by
  rintro rfl
  cases h

theorem not_isStuck_of_isWaiting {s : ThreadState} (h : s.isWaiting = true) : s.isStuck = false := by
  cases s <;> first | rfl | cases h

theorem ne_terminated_of_isWaiting {s : ThreadState} (h : s.isWaiting = true) : s ≠ .terminated := by
  rintro rfl
  cases h

end ThreadState

namespace Op

def actor? : Op → Option ThreadId
  | .lock t _ | .unlock t _ | .wait t _ | .timedWait t _ | .notifyThread t _ _ | .notify t _
  | .notifyAll t _ | .park t | .sleep t => some t
  | _ => none

def ender? : Op → Option ThreadId
  | .terminate t => some t
  | _ => none

def subject? : Op → Option ThreadId
  | .start t _ | .enter t _ | .exit t | .executed t | .setFrame t _ | .setPriority t _ | .setDaemon t _
  | .sleep t | .endSleep t | .suspend t | .resume t | .terminate t | .lock t _ | .timeOut t | .park t
  | .unpark t | .interrupt t => some t
  | _ => none

def object? : Op → Option Ref
  | .lock _ o | .unlock _ o | .wait _ o | .timedWait _ o | .notifyThread _ o _ | .notify _ o
  | .notifyAll _ o => some o
  | _ => none

def notifier? : Op → Option (ThreadId × Ref)
  | .notifyThread t o _ | .notify t o | .notifyAll t o => some (t, o)
  | _ => none

def frames : Op → List Frame
  | .start _ frame | .enter _ frame | .setFrame _ frame => [frame]
  | _ => []

end Op

structure Thread.Proceeds (info : Thread) (op : Op) (t : ThreadId) (info' : Thread) : Prop where
  id : info'.id = info.id
  object : info'.object = info.object
  lockObject : info'.lockObject = info.lockObject
  lockedObjects : info'.lockedObjects = info.lockedObjects
  waitCount : info'.waitCount = info.waitCount
  frames : ∀ frame ∈ info'.frames, frame ∈ info.frames ∨ frame ∈ op.frames
  state : info'.state = info.state ∨
    info'.state.isFree = true ∧ (info.state.isFree = true ∨ op.actor? = some t)

namespace Kernel

def monitor? (k : Kernel) (o : Ref) : Option Monitor := (k.heap.get? o).map (·.monitor)

theorem monitor?_eq_some {k : Kernel} {o : Ref} {m : Monitor} :
    k.monitor? o = some m ↔ ∃ e, k.heap.get? o = some e ∧ e.monitor = m :=
  Option.map_eq_some_iff

theorem monitor?_of_get? {k : Kernel} {o : Ref} {e : Element} (he : k.heap.get? o = some e) :
    k.monitor? o = some e.monitor :=
  monitor?_eq_some.mpr ⟨e, he, rfl⟩

theorem isSome_monitor? (k : Kernel) (o : Ref) : (k.monitor? o).isSome = (k.heap.get? o).isSome :=
  Option.isSome_map

theorem requestsOf_eq {k : Kernel} {o : Ref} {m : Monitor} (h : k.monitor? o = some m) :
    k.requestsOf o = m.requests := by
  obtain ⟨e, he, rfl⟩ := monitor?_eq_some.mp h
  simp [requestsOf, he]

def waitersOf (k : Kernel) (t : ThreadId) (o : Ref) : List ThreadId :=
  match k.monitor? o with
  | some m => if m.owner = some t then m.waiters else []
  | none => []

theorem waitersOf_of_owner {k : Kernel} {t : ThreadId} {o : Ref} {m : Monitor}
    (ho : k.monitor? o = some m) (howner : m.owner = some t) : k.waitersOf t o = m.waiters := by
  simp [waitersOf, ho, howner]

theorem waitersOf_of_not_owner {k : Kernel} {t : ThreadId} {o : Ref} {m : Monitor}
    (ho : k.monitor? o = some m) (howner : m.owner ≠ some t) : k.waitersOf t o = [] := by
  simp [waitersOf, ho, howner]

end Kernel

/-- The waiters that an operation wakes up whatever their state is. -/
def Op.roused (op : Op) (k : Kernel) : List ThreadId :=
  match op with
  | .notifyThread t o waiter => if waiter ∈ k.waitersOf t o then [waiter] else []
  | .notify t o => (k.waitersOf t o).head?.toList
  | .notifyAll t o => k.waitersOf t o
  | .terminate t =>
    match k.threads.get? t with
    | some info => if info.isAlive then ((k.monitor? info.object).map (·.waiters)).getD [] else []
    | none => []
  | _ => []

namespace Kernel

theorem roused_terminate {k : Kernel} {t : ThreadId} {info : Thread} {m : Monitor}
    (ht : k.threads.get? t = some info) (halive : info.isAlive = true)
    (ho : k.monitor? info.object = some m) : (Op.terminate t).roused k = m.waiters := by
  simp [Op.roused, ht, halive, ho]

structure Touch (k k' : Kernel) (f : ThreadId → Thread → Thread) (g : Ref → Monitor → Monitor) :
    Prop where
  threads : ∀ t, k'.threads.get? t = (k.threads.get? t).map (f t)
  monitors : ∀ o, k'.monitor? o = (k.monitor? o).map (g o)

def onObject (o : Ref) (g : Monitor → Monitor) (o' : Ref) (m : Monitor) : Monitor :=
  if o = o' then g m else m

@[simp]
theorem onObject_self (o : Ref) (g : Monitor → Monitor) (m : Monitor) : onObject o g o m = g m :=
  if_pos rfl

theorem onObject_of_ne {o o' : Ref} (h : o ≠ o') (g : Monitor → Monitor) (m : Monitor) :
    onObject o g o' m = m :=
  if_neg h

@[simp]
theorem onThread_self (t : ThreadId) (f : Thread → Thread) (info : Thread) :
    onThread t f t info = f info :=
  if_pos rfl

theorem onThread_of_ne {t u : ThreadId} (h : t ≠ u) (f : Thread → Thread) (info : Thread) :
    onThread t f u info = info :=
  if_neg h

namespace Touch

variable {k k' : Kernel} {f : ThreadId → Thread → Thread} {g : Ref → Monitor → Monitor}

theorem of_thread (h : k.Touch k' f g) {t : ThreadId} {info' : Thread}
    (ht : k'.threads.get? t = some info') : ∃ info, k.threads.get? t = some info ∧ f t info = info' := by
  rw [h.threads] at ht
  exact Option.map_eq_some_iff.mp ht

theorem of_monitor (h : k.Touch k' f g) {o : Ref} {m' : Monitor} (ho : k'.monitor? o = some m') :
    ∃ m, k.monitor? o = some m ∧ g o m = m' := by
  rw [h.monitors] at ho
  exact Option.map_eq_some_iff.mp ho

theorem thread (h : k.Touch k' f g) {t : ThreadId} {info : Thread} (ht : k.threads.get? t = some info) :
    k'.threads.get? t = some (f t info) := by
  rw [h.threads, ht]
  rfl

theorem monitor (h : k.Touch k' f g) {o : Ref} {m : Monitor} (ho : k.monitor? o = some m) :
    k'.monitor? o = some (g o m) := by
  rw [h.monitors, ho]
  rfl

end Touch

theorem Edit.touch {k k' : Kernel} {f : ThreadId → Thread → Thread} {g : Nat → Monitor → Monitor}
    {a : AtomicSection} (h : k.Edit k' f g a) {g' : Ref → Monitor → Monitor}
    (hg : ∀ o i, o.index? = some i → ∀ m, g i m = g' o m) : k.Touch k' f g' where
  threads := h.threads
  monitors := by
    intro o
    unfold monitor?
    cases hi : o.index? with
    | none => simp [Heap.get?, hi]
    | some i =>
      rw [h.get? hi, Option.map_map, Option.map_map]
      congr 1
      funext e
      exact hg o i hi e.monitor

theorem Edit.touchAt {k k' : Kernel} {f : ThreadId → Thread → Thread} {o : Ref}
    {g : Monitor → Monitor} {a : AtomicSection} (h : k.Edit k' f (onMonitor o g) a) {e : Element}
    (he : k.heap.get? o = some e) {g' : Monitor → Monitor} (hg : g e.monitor = g' e.monitor) :
    k.Touch k' f (onObject o g') where
  threads := h.threads
  monitors := by
    intro o'
    unfold monitor?
    cases hi : o'.index? with
    | none => simp [Heap.get?, hi]
    | some i =>
      rw [h.get? hi, Option.map_map, Option.map_map]
      by_cases ho : o = o'
      · subst ho
        simp [he, onMonitor, hi, hg]
      · have hne : o.index? ≠ some i := fun hoi => ho (Ref.eq_of_index? hoi hi)
        congr 1
        funext e'
        simp [onMonitor, hne, onObject, ho]

inductive Turn (k : Kernel) (op : Op) (k' : Kernel) : Prop where
  | still (hquiet : op.roused k = []) (h : k.Touch k' (fun _ info => info) (fun _ m => m))
  | proceed {t : ThreadId} {info : Thread} {f : Thread → Thread} (hquiet : op.roused k = [])
    (ht : k.threads.get? t = some info) (hf : info.Proceeds op t (f info))
    (h : k.Touch k' (onThread t f) (fun _ m => m))
  | enter {t : ThreadId} {o : Ref} {m : Monitor} {info : Thread} (hop : op = .lock t o)
    (ht : k.threads.get? t = some info) (ho : k.monitor? o = some m) (hcan : m.canEnter t = true)
    (h : k.Touch k' (onThread t (entered o)) (onObject o (·.enter t (max 1 info.waitCount))))
  | block {t : ThreadId} {o : Ref} {m : Monitor} {info : Thread} (hop : op = .lock t o)
    (ht : k.threads.get? t = some info) (ho : k.monitor? o = some m) (hcan : m.canEnter t = false)
    (h : k.Touch k' (onThread t ({ · with lockObject := some o, state := .blocked }))
      (onObject o (·.addRequest t)))
  | leave {t : ThreadId} {o : Ref} {m : Monitor} (hop : op = .unlock t o)
    (ho : k.monitor? o = some m) (howner : m.owner = some t) (hcount : 1 < m.count)
    (h : k.Touch k' (fun _ info => info) (onObject o fun m => { m with count := m.count - 1 }))
  | release {t : ThreadId} {o : Ref} {m : Monitor} (hop : op = .unlock t o)
    (ho : k.monitor? o = some m) (howner : m.owner = some t)
    (h : k.Touch k' (fun u info =>
        let info := onThread t (·.removeLocked o) u info
        if u ∈ m.requests then info.awake else info)
      (onObject o (·.release)))
  | wait {t : ThreadId} {o : Ref} {m : Monitor} {s : ThreadState}
    (hop : op = .wait t o ∨ op = .timedWait t o) (hs : s.isWaiting = true)
    (ho : k.monitor? o = some m) (howner : m.owner = some t)
    (h : k.Touch k' (fun u info =>
        let info := onThread t (fun info =>
          { info.removeLocked o with waitCount := m.count, lockObject := some o, state := s }) u info
        if u ∈ m.requests then info.awake else info)
      (onObject o (·.release.addWaiter t)))
  | expire {t : ThreadId} {o : Ref} {m : Monitor} {info : Thread} {s : ThreadState} {b : Bool}
    (hquiet : op.roused k = []) (ht : k.threads.get? t = some info) (hwait : info.state.isWaiting = true)
    (hlock : info.lockObject = some o) (ho : k.monitor? o = some m)
    (hs : s.isFree = true ∨ s = .interrupted ∧ m.owner.isSome = true)
    (h : k.Touch k' (onThread t fun info =>
        { info with state := s, interrupted := info.interrupted || b })
      (onObject o fun m => (m.removeWaiter t).addRequest t))
  | notify {t : ThreadId} {o : Ref} {m : Monitor} {g : Monitor → Monitor}
    (hop : op.notifier? = some (t, o)) (ho : k.monitor? o = some m) (howner : m.owner = some t)
    (hl : ∀ u ∈ op.roused k, u ∈ m.waiters) (hg : ∀ m : Monitor, m.Roused (op.roused k) (g m))
    (h : k.Touch k' (fun u info => if u ∈ op.roused k then { info with state := .notified } else info)
      (onObject o g))
  | finish {t : ThreadId} {info : Thread} {m : Monitor} {g : Ref → Monitor → Monitor}
    (hop : op = .terminate t) (ht : k.threads.get? t = some info) (halive : info.isAlive = true)
    (ho : k.monitor? info.object = some m)
    (hg : ∀ o m', Monitor.Roused (if o = info.object then m.waiters else [])
      (if o ∈ info.lockedObjects then m'.release else m') (g o m'))
    (h : k.Touch k' (ended t (info.lockedObjects.flatMap k.requestsOf) m.waiters) g)

def Turns (k : Kernel) (op : Op) : Prop := ∃ k', k.perform op = .ok k' ∧ k.Turn op k'

variable {k : Kernel} {op : Op} {t : ThreadId} {o : Ref} {info : Thread} {e : Element}

theorem mem_of_mem_pop {frames : Array Frame} {frame : Frame} (h : frame ∈ frames.pop) :
    frame ∈ frames := by
  rw [← Array.mem_toList_iff, Array.toList_pop] at h
  exact Array.mem_toList_iff.mp ((List.dropLast_sublist _).subset h)

theorem turns_still {k' : Kernel} (hquiet : op.roused k = []) (h : k.perform op = .ok k')
    (hthreads : k'.threads = k.threads) (hheap : k'.heap = k.heap) : k.Turns op :=
  ⟨k', h, .still hquiet ⟨by simp [hthreads], by simp [monitor?, hheap, Function.comp_def]⟩⟩

section Thread

variable {f : Thread → Thread} (hquiet : op.roused k = []) (ht : k.threads.get? t = some info)
  (hf : info.Proceeds op t (f info))

include hquiet ht hf

theorem turns_proceed {g : Kernel → Kernel}
    (hop : ∀ k', k.updateThread t f = .ok k' → k.perform op = .ok (g k'))
    (hg : ∀ k', (g k').threads = k'.threads ∧ (g k').heap = k'.heap) : k.Turns op := by
  obtain ⟨k', h⟩ := updateThread_isOk (k := k) (t := t) (by simp [ht]) f
  have hedit := Edit.updateThread h
  refine ⟨g k', hop k' h, .proceed hquiet ht hf ⟨?_, ?_⟩⟩
  · rw [(hg k').1]
    exact hedit.threads
  · have hmonitor : (g k').monitor? = k'.monitor? := by
      funext o
      simp [monitor?, (hg k').2]
    rw [hmonitor]
    exact (hedit.touch (fun _ _ _ _ => rfl)).monitors

theorem turns_updateThread (hop : k.perform op = k.updateThread t f) : k.Turns op :=
  turns_proceed hquiet ht hf (g := id) (fun _ h => hop.trans h) fun _ => ⟨rfl, rfl⟩

end Thread

theorem turns_start {frame : Frame} (ht : k.threads.get? t = some info) :
    k.Turns (.start t frame) := by
  by_cases hs : info.state = .new
  · apply turns_proceed rfl ht (f := fun info => { info.pushFrame frame with state := .running })
      (g := fun k => (k.tell (.started t)).tell (.entered t frame.method))
    · refine ⟨rfl, rfl, rfl, rfl, rfl, ?_, .inr ⟨rfl, .inl (by rw [hs]; rfl)⟩⟩
      intro frame' hframe
      simpa [Thread.pushFrame, Op.frames] using hframe
    · intro k' h
      refine snd_eq_ok.mpr ⟨.ok (), ?_⟩
      unfold startThread
      rw [get_eq_ok.mpr ht, ok_bind, if_pos hs]
      exact bind_eq_ok.mpr ⟨k', h, rfl⟩
    · exact fun _ => ⟨rfl, rfl⟩
  · refine turns_still rfl (snd_eq_ok.mpr ⟨.error (.cannotStart t info.state), ?_⟩) rfl rfl
    unfold startThread
    rw [get_eq_ok.mpr ht, ok_bind, if_neg hs]
    rfl

theorem turns_enter {frame : Frame} (ht : k.threads.get? t = some info) :
    k.Turns (.enter t frame) := by
  cases halive : info.isAlive with
  | true =>
    apply turns_proceed rfl ht (f := (·.pushFrame frame)) (g := fun k => k.tell (.entered t frame.method))
    · refine ⟨rfl, rfl, rfl, rfl, rfl, ?_, .inl rfl⟩
      intro frame' hframe
      simpa [Thread.pushFrame, Op.frames] using hframe
    · intro k' h
      refine snd_eq_ok.mpr ⟨.ok (), ?_⟩
      unfold enterMethod
      rw [get_eq_ok.mpr ht, ok_bind, if_pos halive]
      exact bind_eq_ok.mpr ⟨k', h, rfl⟩
    · exact fun _ => ⟨rfl, rfl⟩
  | false =>
    apply turns_proceed rfl ht (f := id) (g := id)
    · exact ⟨rfl, rfl, rfl, rfl, rfl, fun _ => .inl, .inl rfl⟩
    · intro k' h
      refine snd_eq_ok.mpr ⟨.error (.notAlive t), ?_⟩
      unfold enterMethod
      rw [get_eq_ok.mpr ht, ok_bind, if_neg (by simp [halive])]
      exact bind_eq_ok.mpr ⟨k', h, rfl⟩
    · exact fun _ => ⟨rfl, rfl⟩

theorem turns_exit (ht : k.threads.get? t = some info) : k.Turns (.exit t) := by
  apply turns_proceed rfl ht (f := (·.popFrame.2)) (g := fun k =>
    info.topFrame?.elim k fun frame => k.tell (.exited t frame.method))
  · refine ⟨rfl, rfl, rfl, rfl, rfl, ?_, .inl rfl⟩
    intro frame hframe
    exact .inl (mem_of_mem_pop hframe)
  · intro k' h
    refine snd_eq_ok.mpr ⟨info.topFrame?, ?_⟩
    unfold exitMethod
    rw [get_eq_ok.mpr ht, ok_bind, h, ok_bind]
    cases info.topFrame? <;> rfl
  · intro k'
    cases info.topFrame? <;> exact ⟨rfl, rfl⟩

theorem turns_executed (ht : k.threads.get? t = some info) : k.Turns (.executed t) := by
  have hperform : k.perform (.executed t) = .ok (info.topFrame?.elim k fun frame =>
      k.tell (.executed t frame.method (frame.pc.getD 0))) := by
    show k.instructionExecuted t = _
    unfold instructionExecuted
    rw [get_eq_ok.mpr ht, ok_bind]
    cases info.topFrame? <;> rfl
  refine turns_still rfl hperform ?_ ?_ <;> cases info.topFrame? <;> rfl

theorem turns_setFrame {frame : Frame} (ht : k.threads.get? t = some info) :
    k.Turns (.setFrame t frame) := by
  refine turns_updateThread rfl ht ?_ rfl
  split
  · exact ⟨rfl, rfl, rfl, rfl, rfl, fun _ => .inl, .inl rfl⟩
  · refine ⟨rfl, rfl, rfl, rfl, rfl, ?_, .inl rfl⟩
    intro frame' hframe
    rcases Array.mem_push.mp hframe with hframe | rfl
    · exact .inl (mem_of_mem_pop hframe)
    · exact .inr (by simp [Op.frames])

theorem turns_endSleep (ht : k.threads.get? t = some info) : k.Turns (.endSleep t) := by
  refine turns_updateThread rfl ht ?_ rfl
  split
  · next hs => exact ⟨rfl, rfl, rfl, rfl, rfl, fun _ => .inl, .inr ⟨rfl, .inl (by rw [hs]; rfl)⟩⟩
  · exact ⟨rfl, rfl, rfl, rfl, rfl, fun _ => .inl, .inl rfl⟩

theorem turns_park (ht : k.threads.get? t = some info) : k.Turns (.park t) := by
  refine turns_updateThread rfl ht ?_ rfl
  split
  · exact ⟨rfl, rfl, rfl, rfl, rfl, fun _ => .inl, .inl rfl⟩
  · split
    · exact ⟨rfl, rfl, rfl, rfl, rfl, fun _ => .inl, .inl rfl⟩
    · exact ⟨rfl, rfl, rfl, rfl, rfl, fun _ => .inl, .inr ⟨rfl, .inr rfl⟩⟩

theorem turns_unpark (ht : k.threads.get? t = some info) : k.Turns (.unpark t) := by
  apply turns_proceed rfl ht (g := id) (f := fun info =>
    if info.state = .parked then
      { info with state := .running }
    else if info.isAlive then
      { info with permit := true }
    else
      info)
  · split
    · next hs => exact ⟨rfl, rfl, rfl, rfl, rfl, fun _ => .inl, .inr ⟨rfl, .inl (by rw [hs]; rfl)⟩⟩
    · split <;> exact ⟨rfl, rfl, rfl, rfl, rfl, fun _ => .inl, .inl rfl⟩
  · intro k' h
    refine snd_eq_ok.mpr ⟨info.state == .parked, ?_⟩
    unfold unpark
    rw [get_eq_ok.mpr ht, ok_bind]
    exact bind_eq_ok.mpr ⟨k', h, rfl⟩
  · exact fun _ => ⟨rfl, rfl⟩

theorem turns_lock (ht : k.threads.get? t = some info) (he : k.heap.get? o = some e) :
    k.Turns (.lock t o) := by
  cases hcan : e.monitor.canEnter t with
  | true =>
    obtain ⟨k', h, hedit⟩ := lock_of_canEnter he ht hcan
    exact ⟨k', snd_eq_ok.mpr ⟨_, h⟩,
      .enter rfl ht (monitor?_of_get? he) hcan (hedit.touchAt he rfl)⟩
  | false =>
    obtain ⟨k', h, hedit⟩ := lock_of_not_canEnter he (by simp [ht]) hcan
    exact ⟨k', snd_eq_ok.mpr ⟨_, h⟩,
      .block rfl ht (monitor?_of_get? he) hcan (hedit.touchAt he rfl)⟩

theorem stopWaiting_spec (ht : k.threads.get? t = some info) (he : k.heap.get? o = some e)
    (s : ThreadState) :
    ∃ k₁ k₂, k.stopWaiting t o = .ok k₁ ∧
      k₁.heap.get? o = some { e with monitor := (e.monitor.removeWaiter t).addRequest t } ∧
      k₁.setState t s = .ok k₂ ∧
      k.Edit k₂ (onThread t ({ · with state := s }))
        (onMonitor o fun m => (m.removeWaiter t).addRequest t) k.atomic := by
  obtain ⟨i, hi, -⟩ := Heap.get?_eq_some.mp he
  obtain ⟨k₁, h₁⟩ := updateMonitor_isOk (k := k) (o := o) (by simp [he])
    fun m => (m.removeWaiter t).addRequest t
  have hedit₁ := Edit.updateMonitor h₁
  obtain ⟨k₂, h₂⟩ := updateThread_isOk (k := k₁) (t := t) (by rw [hedit₁.isSome_thread, ht]; rfl)
    ({ · with state := s })
  have hedit₂ := Edit.updateThread h₂
  rw [hedit₁.atomic] at hedit₂
  refine ⟨k₁, k₂, h₁, ?_, h₂, hedit₁.trans hedit₂⟩
  rw [hedit₁.get? hi, he]
  simp [onMonitor, hi]

theorem turns_timeOut (ht : k.threads.get? t = some info)
    (hlive : ∀ o, info.lockObject = some o → (k.heap.get? o).isSome) : k.Turns (.timeOut t) := by
  cases hlock : info.lockObject with
  | none =>
    refine turns_still rfl (snd_eq_ok.mpr ⟨false, ?_⟩) rfl rfl
    unfold timeOut
    rw [get_eq_ok.mpr ht, ok_bind, hlock]
    rfl
  | some o =>
    by_cases hs : info.state = .timedWaiting
    · obtain ⟨e, he⟩ := Option.isSome_iff_exists.mp (hlive o hlock)
      obtain ⟨k₁, k₂, h₁, -, h₂, hedit⟩ := stopWaiting_spec ht he .timedOut
      refine ⟨k₂, snd_eq_ok.mpr ⟨true, ?_⟩, .expire (s := .timedOut) (b := false) rfl ht
        (by rw [hs]; rfl) hlock (monitor?_of_get? he) (.inl rfl) ?_⟩
      · unfold timeOut
        rw [get_eq_ok.mpr ht, ok_bind, hlock]
        dsimp only
        rw [if_pos hs]
        exact bind_eq_ok.mpr ⟨k₁, h₁, bind_eq_ok.mpr ⟨k₂, h₂, rfl⟩⟩
      · simp only [Bool.or_false]
        exact hedit.touchAt he rfl
    · refine turns_still rfl (snd_eq_ok.mpr ⟨false, ?_⟩) rfl rfl
      unfold timeOut
      rw [get_eq_ok.mpr ht, ok_bind, hlock]
      dsimp only
      rw [if_neg hs]
      rfl

theorem interrupt_of_waiting (ht : k.threads.get? t = some info) (hwait : info.state.isWaiting = true) :
    k.interrupt t = (do
      let k ← k.updateThread t ({ · with interrupted := true })
      match info.lockObject with
      | none => return k
      | some o =>
        let k ← k.stopWaiting t o
        let free := (← k.heap.deref o).monitor.owner.isNone
        k.setState t (if free then .unblocked else .interrupted)) := by
  unfold interrupt
  rw [get_eq_ok.mpr ht, ok_bind]
  split <;> first | rfl | simp_all [ThreadState.isWaiting]

theorem turns_interrupt_waiting (ht : k.threads.get? t = some info)
    (hwait : info.state.isWaiting = true)
    (hlive : ∀ o, info.lockObject = some o → (k.heap.get? o).isSome) : k.Turns (.interrupt t) := by
  have hinterrupt := interrupt_of_waiting ht hwait
  obtain ⟨k₁, h₁⟩ := updateThread_isOk (k := k) (t := t) (by simp [ht]) ({ · with interrupted := true })
  have hedit₁ := Edit.updateThread h₁
  cases hlock : info.lockObject with
  | none =>
    refine turns_updateThread rfl ht (f := ({ · with interrupted := true }))
      ⟨rfl, rfl, rfl, rfl, rfl, fun _ => .inl, .inl rfl⟩ ?_
    show k.interrupt t = _
    rw [hinterrupt, hlock, h₁]
    rfl
  | some o =>
    obtain ⟨e, he⟩ := Option.isSome_iff_exists.mp (hlive o hlock)
    obtain ⟨i, hi, -⟩ := Heap.get?_eq_some.mp he
    have ht₁ := hedit₁.threads t
    rw [ht] at ht₁
    have he₁ : k₁.heap.get? o = some e := by
      rw [hedit₁.get? hi, he]
      rfl
    obtain ⟨k₂, k₃, h₂, he₂, h₃, hedit⟩ := stopWaiting_spec ht₁ he₁
      (if e.monitor.owner.isNone then .unblocked else .interrupted)
    refine ⟨k₃, ?_, .expire (s := if e.monitor.owner.isNone then .unblocked else .interrupted)
      (b := true) rfl ht hwait hlock (monitor?_of_get? he) ?_ ?_⟩
    · show k.interrupt t = _
      rw [hinterrupt, hlock, h₁, ok_bind]
      refine bind_eq_ok.mpr ⟨k₂, h₂, bind_eq_ok.mpr ⟨_, deref_eq_ok.mpr he₂, ?_⟩⟩
      rw [Monitor.owner_addRequest]
      exact h₃
    · cases e.monitor.owner with
      | none => exact .inl rfl
      | some _ => exact .inr ⟨rfl, rfl⟩
    · refine ((hedit₁.trans hedit).congr ?_ (fun _ _ => rfl)).touchAt he rfl
      intro u info
      unfold onThread
      split
      · simp only [Bool.or_true]
      · rfl

theorem turns_interrupt (ht : k.threads.get? t = some info)
    (hlive : ∀ o, info.lockObject = some o → (k.heap.get? o).isSome) : k.Turns (.interrupt t) := by
  cases hwait : info.state.isWaiting with
  | true => exact turns_interrupt_waiting ht hwait hlive
  | false =>
    by_cases hs : info.state = .parked ∨ info.state = .sleeping
    · refine turns_updateThread rfl ht (f := ({ · with interrupted := true, state := .running }))
        ⟨rfl, rfl, rfl, rfl, rfl, fun _ => .inl, .inr ⟨rfl, .inl ?_⟩⟩ ?_
      · rcases hs with hs | hs <;> rw [hs] <;> rfl
      · show k.interrupt t = _
        unfold interrupt
        rw [get_eq_ok.mpr ht, ok_bind]
        rcases hs with hs | hs <;> rw [hs]
    · refine turns_updateThread rfl ht (f := ({ · with interrupted := true }))
        ⟨rfl, rfl, rfl, rfl, rfl, fun _ => .inl, .inl rfl⟩ ?_
      show k.interrupt t = _
      unfold interrupt
      rw [get_eq_ok.mpr ht, ok_bind]
      split <;> simp_all [ThreadState.isWaiting]

section Owned

variable (hk : k.Owned)

include hk

theorem turns_unlock (he : k.heap.get? o = some e) : k.Turns (.unlock t o) := by
  by_cases howner : e.monitor.owner = some t
  · by_cases hcount : e.monitor.count ≤ 1
    · obtain ⟨k', h, hedit⟩ := unlock_of_enteredOnce he (hk.owner_known he howner) howner hcount
        (hk.requests_known he)
      exact ⟨k', snd_eq_ok.mpr ⟨_, h⟩, .release rfl (monitor?_of_get? he) howner
        (hedit.touchAt he (by rw [Monitor.exit, if_pos hcount]; rfl))⟩
    · obtain ⟨k', h, hedit⟩ := unlock_of_entered he howner (Nat.lt_of_not_le hcount)
      exact ⟨k', snd_eq_ok.mpr ⟨_, h⟩, .leave rfl (monitor?_of_get? he) howner
        (Nat.lt_of_not_le hcount) (hedit.touchAt he (by rw [Monitor.exit, if_neg hcount]))⟩
  · exact turns_still rfl (snd_eq_ok.mpr ⟨_, unlock_of_not_owner he howner⟩) rfl rfl

theorem turns_enterWait {s : ThreadState} (hs : s.isWaiting = true)
    (hop : op = .wait t o ∨ op = .timedWait t o)
    (hperform : k.perform op = do return (← k.enterWait t o s).2) (he : k.heap.get? o = some e) :
    k.Turns op := by
  have hquiet : op.roused k = [] := by rcases hop with rfl | rfl <;> rfl
  by_cases howner : e.monitor.owner = some t
  · obtain ⟨k', h, hedit⟩ := enterWait_of_owner s he (hk.owner_known he howner) howner
      (hk.requests_known he)
    exact ⟨k', hperform.trans (snd_eq_ok.mpr ⟨_, h⟩),
      .wait hop hs (monitor?_of_get? he) howner (hedit.touchAt he rfl)⟩
  · exact turns_still hquiet (hperform.trans (snd_eq_ok.mpr ⟨_, enterWait_of_not_owner he howner⟩)) rfl rfl

theorem turns_notifyThread {waiter : ThreadId} (he : k.heap.get? o = some e) :
    k.Turns (.notifyThread t o waiter) := by
  have ho := monitor?_of_get? he
  by_cases howner : e.monitor.owner = some t
  · by_cases hw : waiter ∈ e.monitor.waiters
    · obtain ⟨k', h, hedit⟩ := notifyThread_of_waiting he howner hw (hk.waiters_known he waiter hw)
      have hroused : (Op.notifyThread t o waiter).roused k = [waiter] := by
        simp [Op.roused, waitersOf_of_owner ho howner, hw]
      refine ⟨k', snd_eq_ok.mpr ⟨_, h⟩, .notify (g := fun m => (m.removeWaiter waiter).addRequest waiter)
        rfl ho howner ?_ (fun m => ?_) ((hedit.congr ?_ (fun _ _ => rfl)).touchAt he rfl)⟩
      · simpa [hroused] using hw
      · rw [hroused]
        exact .single m waiter
      · intro u info
        simp only [onThread, hroused, List.mem_singleton, eq_comm]
    · obtain ⟨k', h, hedit⟩ := notifyThread_of_not_waiting he howner hw
      refine ⟨k', snd_eq_ok.mpr ⟨_, h⟩, .still ?_ (hedit.touch ?_)⟩
      · simp [Op.roused, waitersOf_of_owner ho howner, hw]
      · intro o' i _ m
        exact (onMonitor_id o i m).symm
  · refine turns_still ?_ (snd_eq_ok.mpr ⟨.error (.notOwner t o), ?_⟩) rfl rfl
    · simp [Op.roused, waitersOf_of_not_owner ho howner]
    · unfold notifyThread
      refine bind_eq_ok.mpr ⟨_, isOwner_eq he, ?_⟩
      rw [if_pos (by simp [howner])]
      rfl

theorem turns_notify (he : k.heap.get? o = some e) : k.Turns (.notify t o) := by
  have ho := monitor?_of_get? he
  by_cases howner : e.monitor.owner = some t
  · obtain ⟨k', g, h, hedit, hg⟩ := notify_of_owner he howner (hk.waiters_known he)
    have hroused : (Op.notify t o).roused k = e.monitor.waiters.head?.toList := by
      simp [Op.roused, waitersOf_of_owner ho howner]
    refine ⟨k', snd_eq_ok.mpr ⟨_, h⟩, .notify rfl ho howner ?_ ?_
      ((hedit.congr ?_ (fun _ _ => rfl)).touchAt he rfl)⟩
    · rw [hroused]
      intro u hu
      exact List.mem_of_head? (Option.mem_toList.mp hu)
    · rwa [hroused]
    · intro u info
      simp only [hroused, Option.mem_toList]
  · refine turns_still ?_ (snd_eq_ok.mpr ⟨_, notify_of_not_owner he howner⟩) rfl rfl
    simp [Op.roused, waitersOf_of_not_owner ho howner]

theorem turns_notifyAll (he : k.heap.get? o = some e) : k.Turns (.notifyAll t o) := by
  have ho := monitor?_of_get? he
  by_cases howner : e.monitor.owner = some t
  · obtain ⟨k', g, h, hedit, hg⟩ := notifyAll_of_owner he howner (hk.waiters_known he)
    have hroused : (Op.notifyAll t o).roused k = e.monitor.waiters := waitersOf_of_owner ho howner
    rw [← hroused] at hedit hg
    exact ⟨k', snd_eq_ok.mpr ⟨_, h⟩, .notify rfl ho howner (fun _ hu => hroused ▸ hu) hg
      (hedit.touchAt he rfl)⟩
  · exact turns_still (waitersOf_of_not_owner ho howner)
      (snd_eq_ok.mpr ⟨_, notifyAll_of_not_owner he howner⟩) rfl rfl

theorem terminate_of_alive (ht : k.threads.get? t = some info) (halive : info.isAlive = true)
    (he : k.heap.get? info.object = some e) :
    ∃ k' g, k.perform (.terminate t) = .ok k' ∧
      (∀ o m, Monitor.Roused (if o = info.object then e.monitor.waiters else [])
        (if o ∈ info.lockedObjects then m.release else m) (g o m)) ∧
      k.Touch k' (ended t (info.lockedObjects.flatMap k.requestsOf) e.monitor.waiters) g := by
  obtain ⟨k', g, h, hedit, hg⟩ := terminateThread_of_live ht halive (hk.live t info ht)
    (fun o _ => hk.requestsOf_known o) he (hk.waiters_known he)
  refine ⟨k', fun o m => o.index?.elim (if o ∈ info.lockedObjects then m.release else m) (g · m),
    snd_eq_ok.mpr ⟨_, h⟩, ?_, hedit.touch ?_⟩
  · intro o m
    dsimp only
    obtain ⟨j, hj, -⟩ := Heap.get?_eq_some.mp he
    cases hi : o.index? with
    | none =>
      have hne : o ≠ info.object := by
        rintro rfl
        rw [hj] at hi
        cases hi
      rw [if_neg hne]
      exact .nil _
    | some i =>
      have hobject : info.object.index? = some i ↔ o = info.object :=
        ⟨Ref.eq_of_index? hi, fun h => h ▸ hi⟩
      have hroused := hg i m
      simp only [hobject, Ref.mem_filterMap_index? hi] at hroused
      exact hroused
  · intro o i hi m
    rw [hi]
    rfl

theorem turns_terminate (ht : k.threads.get? t = some info)
    (he : info.isAlive = true → (k.heap.get? info.object).isSome) : k.Turns (.terminate t) := by
  cases halive : info.isAlive with
  | false =>
    refine turns_still ?_ (snd_eq_ok.mpr ⟨_, terminateThread_of_not_alive ht halive⟩) rfl rfl
    simp [Op.roused, ht, halive]
  | true =>
    obtain ⟨e, he⟩ := Option.isSome_iff_exists.mp (he halive)
    obtain ⟨k', g, h, hg, htouch⟩ := terminate_of_alive hk ht halive he
    exact ⟨k', h, .finish rfl ht halive (monitor?_of_get? he) hg htouch⟩

theorem object_of_terminate {k' : Kernel} {r : Except KernelError Unit}
    (h : k.terminateThread t = .ok (r, k')) (ht : k.threads.get? t = some info)
    (halive : info.isAlive = true) : (k.heap.get? info.object).isSome := by
  rw [Option.isSome_iff_ne_none]
  intro hdead
  rw [terminateThread_of_dead ht halive (hk.live t info ht) (fun o _ => hk.requestsOf_known o) hdead] at h
  cases h

end Owned

theorem turns_of_args (hk : k.Owned) (hop : op.stirs = true)
    (hsubject : ∀ t ∈ op.subject?, (k.threads.get? t).isSome)
    (hobject : ∀ o ∈ op.object?, (k.heap.get? o).isSome)
    (hender : ∀ t ∈ op.ender?, ∀ info, k.threads.get? t = some info → info.isAlive = true →
      (k.heap.get? info.object).isSome)
    (hlive : ∀ t info, k.threads.get? t = some info → ∀ o, info.lockObject = some o →
      (k.heap.get? o).isSome) : k.Turns op := by
  have hthread : ∀ t, op.subject? = some t → ∃ info, k.threads.get? t = some info :=
    fun t ht => Option.isSome_iff_exists.mp (hsubject t ht)
  have helement : ∀ o, op.object? = some o → ∃ e, k.heap.get? o = some e :=
    fun o ho => Option.isSome_iff_exists.mp (hobject o ho)
  cases op with
  | start t frame =>
    obtain ⟨info, ht⟩ := hthread t rfl
    exact turns_start ht
  | enter t frame =>
    obtain ⟨info, ht⟩ := hthread t rfl
    exact turns_enter ht
  | exit t =>
    obtain ⟨info, ht⟩ := hthread t rfl
    exact turns_exit ht
  | executed t =>
    obtain ⟨info, ht⟩ := hthread t rfl
    exact turns_executed ht
  | setFrame t frame =>
    obtain ⟨info, ht⟩ := hthread t rfl
    exact turns_setFrame ht
  | setPriority t priority =>
    obtain ⟨info, ht⟩ := hthread t rfl
    exact turns_updateThread rfl ht ⟨rfl, rfl, rfl, rfl, rfl, fun _ => .inl, .inl rfl⟩ rfl
  | setDaemon t daemon =>
    obtain ⟨info, ht⟩ := hthread t rfl
    exact turns_updateThread rfl ht ⟨rfl, rfl, rfl, rfl, rfl, fun _ => .inl, .inl rfl⟩ rfl
  | sleep t =>
    obtain ⟨info, ht⟩ := hthread t rfl
    exact turns_updateThread rfl ht ⟨rfl, rfl, rfl, rfl, rfl, fun _ => .inl, .inr ⟨rfl, .inr rfl⟩⟩ rfl
  | endSleep t =>
    obtain ⟨info, ht⟩ := hthread t rfl
    exact turns_endSleep ht
  | suspend t =>
    obtain ⟨info, ht⟩ := hthread t rfl
    exact turns_updateThread rfl ht ⟨rfl, rfl, rfl, rfl, rfl, fun _ => .inl, .inl rfl⟩ rfl
  | resume t =>
    obtain ⟨info, ht⟩ := hthread t rfl
    exact turns_updateThread rfl ht ⟨rfl, rfl, rfl, rfl, rfl, fun _ => .inl, .inl rfl⟩ rfl
  | terminate t =>
    obtain ⟨info, ht⟩ := hthread t rfl
    exact turns_terminate hk ht (hender t rfl info ht)
  | lock t o =>
    obtain ⟨info, ht⟩ := hthread t rfl
    obtain ⟨e, he⟩ := helement o rfl
    exact turns_lock ht he
  | unlock t o =>
    obtain ⟨e, he⟩ := helement o rfl
    exact turns_unlock hk he
  | wait t o =>
    obtain ⟨e, he⟩ := helement o rfl
    exact turns_enterWait hk (s := .waiting) rfl (.inl rfl) rfl he
  | timedWait t o =>
    obtain ⟨e, he⟩ := helement o rfl
    exact turns_enterWait hk (s := .timedWaiting) rfl (.inr rfl) rfl he
  | timeOut t =>
    obtain ⟨info, ht⟩ := hthread t rfl
    exact turns_timeOut ht (hlive t info ht)
  | notifyThread t o waiter =>
    obtain ⟨e, he⟩ := helement o rfl
    exact turns_notifyThread hk he
  | notify t o =>
    obtain ⟨e, he⟩ := helement o rfl
    exact turns_notify hk he
  | notifyAll t o =>
    obtain ⟨e, he⟩ := helement o rfl
    exact turns_notifyAll hk he
  | park t =>
    obtain ⟨info, ht⟩ := hthread t rfl
    exact turns_park ht
  | unpark t =>
    obtain ⟨info, ht⟩ := hthread t rfl
    exact turns_unpark ht
  | interrupt t =>
    obtain ⟨info, ht⟩ := hthread t rfl
    exact turns_interrupt ht (hlive t info ht)
  | beginAtomic t => exact turns_still rfl rfl rfl rfl
  | endAtomic t =>
    refine turns_still rfl rfl ?_ ?_ <;> unfold endAtomic <;> split <;> rfl
  | setBlockedInAtomic =>
    refine turns_still rfl rfl ?_ ?_ <;> unfold setBlockedInAtomic <;> split <;> rfl
  | tell e => exact turns_still rfl rfl rfl rfl
  | _ => cases hop

theorem known_of_get {α : Type} {g : Thread → Except Fault α} {r : α}
    (h : (k.threads.get t >>= g) = .ok r) : (k.threads.get? t).isSome := by
  obtain ⟨info, hinfo, -⟩ := bind_eq_ok.mp h
  rw [get_eq_ok.mp hinfo]
  rfl

theorem known_of_updateThread {k' : Kernel} {f : Thread → Thread} (h : k.updateThread t f = .ok k') :
    (k.threads.get? t).isSome := by
  obtain ⟨info, hinfo, -⟩ := updateThread_eq_ok.mp h
  rw [hinfo]
  rfl

theorem subject_of_perform {k' : Kernel} (h : k.perform op = .ok k') :
    ∀ t ∈ op.subject?, (k.threads.get? t).isSome := by
  intro t ht
  cases op with
  | start | enter | exit | terminate | timeOut | unpark =>
    cases ht
    obtain ⟨r, h⟩ := snd_eq_ok.mp h
    exact known_of_get h
  | executed | interrupt =>
    cases ht
    exact known_of_get h
  | setFrame | setPriority | setDaemon | sleep | endSleep | suspend | resume | park =>
    cases ht
    exact known_of_updateThread h
  | lock =>
    cases ht
    obtain ⟨r, h⟩ := snd_eq_ok.mp h
    obtain ⟨info, ht⟩ := Owned.known_of_lock h
    rw [ht]
    rfl
  | _ => cases ht

theorem object_of_perform {k' : Kernel} (h : k.perform op = .ok k') :
    ∀ o ∈ op.object?, (k.heap.get? o).isSome := by
  intro o ho
  rw [Option.isSome_iff_exists]
  cases op with
  | lock =>
    cases ho
    obtain ⟨r, h⟩ := snd_eq_ok.mp h
    exact Owned.live_of_bind_deref h
  | unlock | wait | timedWait | notifyThread | notify | notifyAll =>
    cases ho
    obtain ⟨r, h⟩ := snd_eq_ok.mp h
    exact Owned.live_of_isOwner h
  | _ => cases ho

theorem turns_of_perform {k' : Kernel} (hk : k.Owned)
    (hlive : ∀ t info, k.threads.get? t = some info → ∀ o, info.lockObject = some o →
      (k.heap.get? o).isSome)
    (hop : op.stirs = true) (h : k.perform op = .ok k') : k.Turns op := by
  refine turns_of_args hk hop (subject_of_perform h) (object_of_perform h) ?_ hlive
  intro t ht info hinfo
  cases op with
  | terminate =>
    cases ht
    obtain ⟨r, h⟩ := snd_eq_ok.mp h
    exact object_of_terminate hk h hinfo
  | _ => cases ht

theorem Turns.turn {k' : Kernel} (h : k.Turns op) (hk' : k.perform op = .ok k') : k.Turn op k' := by
  obtain ⟨k'', h, hturn⟩ := h
  rw [hk'] at h
  cases h
  exact hturn

end Kernel

end Interleave
