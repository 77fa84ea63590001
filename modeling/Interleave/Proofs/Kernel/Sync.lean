import Interleave.Proofs.Heap.Update
import Interleave.Proofs.Kernel.Stir
import Mathlib.Data.List.Nodup

/-!
What the monitor operations do, thread by thread and monitor by monitor. They never fail on live objects
and known threads.
-/

namespace Interleave

def ThreadState.woken : ThreadState → ThreadState
  | .blocked | .notified | .interrupted => .unblocked
  | s => s

theorem ThreadState.woken_woken (s : ThreadState) : s.woken.woken = s.woken := by
  cases s <;> rfl

namespace Thread

def awake (info : Thread) : Thread := { info with state := info.state.woken }

def atEnd (info : Thread) : Thread :=
  { info with
    frames := #[], lockObject := none, waitCount := 0, state := .terminated, lockedObjects := [] }

theorem awake_awake (info : Thread) : info.awake.awake = info.awake := by
  unfold awake
  rw [ThreadState.woken_woken]

end Thread

namespace Monitor

structure Roused (l : List ThreadId) (m m' : Monitor) : Prop where
  owner : m'.owner = m.owner
  count : m'.count = m.count
  waiters : ∀ u, u ∈ m'.waiters ↔ u ∈ m.waiters ∧ u ∉ l
  requests : ∀ u, u ∈ m'.requests ↔ u ∈ m.requests ∨ u ∈ l
  nodup_waiters : m.waiters.Nodup → m'.waiters.Nodup
  nodup_requests : m.requests.Nodup → m'.requests.Nodup

theorem count_addRequest (m : Monitor) (t : ThreadId) : (m.addRequest t).count = m.count := by
  unfold addRequest
  split <;> rfl

theorem mem_addRequest {m : Monitor} {t u : ThreadId} :
    u ∈ (m.addRequest t).requests ↔ u ∈ m.requests ∨ u = t := by
  unfold addRequest
  split
  · next ht =>
    constructor
    · exact .inl
    · rintro (hu | rfl)
      · exact hu
      · exact ht
  · simp

theorem nodup_addRequest {m : Monitor} (h : m.requests.Nodup) (t : ThreadId) :
    (m.addRequest t).requests.Nodup := by
  unfold addRequest
  split
  · exact h
  · next ht =>
    rw [← List.concat_eq_append]
    exact h.concat ht

namespace Roused

variable {l l' : List ThreadId} {m m' m'' : Monitor}

theorem nil (m : Monitor) : m.Roused [] m where
  owner := rfl
  count := rfl
  waiters := by simp
  requests := by simp
  nodup_waiters := id
  nodup_requests := id

theorem cons {t : ThreadId} (h : Roused l ((m.removeWaiter t).addRequest t) m') :
    m.Roused (t :: l) m' where
  owner := h.owner.trans (owner_addRequest _ t)
  count := h.count.trans (count_addRequest _ t)
  waiters := by
    intro u
    rw [h.waiters, waiters_addRequest]
    simp only [removeWaiter, List.mem_filter, List.mem_cons, not_or, bne_iff_ne, and_assoc]
  requests := by
    intro u
    rw [h.requests, mem_addRequest, List.mem_cons, or_assoc]
    rfl
  nodup_waiters := by
    intro hm
    apply h.nodup_waiters
    rw [waiters_addRequest]
    exact hm.filter _
  nodup_requests := fun hm => h.nodup_requests (nodup_addRequest (m := m.removeWaiter t) hm t)

theorem single (m : Monitor) (t : ThreadId) : m.Roused [t] ((m.removeWaiter t).addRequest t) :=
  .cons (.nil _)

theorem congr (h : m.Roused l m') (hl : ∀ u, u ∈ l ↔ u ∈ l') : m.Roused l' m' where
  owner := h.owner
  count := h.count
  waiters := by
    intro u
    rw [h.waiters, hl]
  requests := by
    intro u
    rw [h.requests, hl]
  nodup_waiters := h.nodup_waiters
  nodup_requests := h.nodup_requests

theorem of_mem_members (h : m.Roused l m') {u : ThreadId} (hu : u ∈ m'.members) :
    u ∈ m.members ∨ u ∈ l := by
  unfold members at hu ⊢
  rw [List.mem_append] at hu ⊢
  rcases hu with hu | hu
  · exact .inl (.inl ((h.waiters u).mp hu).1)
  · exact ((h.requests u).mp hu).imp_left .inr

end Roused

end Monitor

namespace Kernel

def onThread (t : ThreadId) (f : Thread → Thread) (u : ThreadId) (info : Thread) : Thread :=
  if t = u then f info else info

def onMonitor (o : Ref) (g : Monitor → Monitor) (i : Nat) (m : Monitor) : Monitor :=
  if o.index? = some i then g m else m

theorem onMonitor_id (o : Ref) (i : Nat) (m : Monitor) : m = onMonitor o (fun m => m) i m := by
  unfold onMonitor
  split <;> rfl

theorem onMonitor_onMonitor (o : Ref) (g g' : Monitor → Monitor) (i : Nat) (m : Monitor) :
    onMonitor o g' i (onMonitor o g i m) = onMonitor o (fun m => g' (g m)) i m := by
  unfold onMonitor
  split <;> rfl

structure Edit (k k' : Kernel) (f : ThreadId → Thread → Thread) (g : Nat → Monitor → Monitor)
    (a : AtomicSection) : Prop where
  threads : ∀ t, k'.threads.get? t = (k.threads.get? t).map (f t)
  arena : ∀ i, k'.heap.arena.get? i =
    (k.heap.arena.get? i).map fun e => { e with monitor := g i e.monitor }
  outOfMemory : k'.heap.outOfMemory = k.heap.outOfMemory
  statics : k'.statics = k.statics
  atomic : k'.atomic = a

namespace Edit

variable {k k' k'' : Kernel} {f f' : ThreadId → Thread → Thread} {g g' : Nat → Monitor → Monitor}
  {a a' : AtomicSection}

theorem refl (k : Kernel) : k.Edit k (fun _ info => info) (fun _ m => m) k.atomic where
  threads := by simp
  arena := by simp
  outOfMemory := rfl
  statics := rfl
  atomic := rfl

theorem trans (h : k.Edit k' f g a) (h' : k'.Edit k'' f' g' a') :
    k.Edit k'' (fun t info => f' t (f t info)) (fun i m => g' i (g i m)) a' where
  threads := by
    intro t
    rw [h'.threads, h.threads, Option.map_map]
    rfl
  arena := by
    intro i
    rw [h'.arena, h.arena, Option.map_map]
    rfl
  outOfMemory := h'.outOfMemory.trans h.outOfMemory
  statics := h'.statics.trans h.statics
  atomic := h'.atomic

theorem congr (h : k.Edit k' f g a) (hf : ∀ t info, f t info = f' t info)
    (hg : ∀ i m, g i m = g' i m) : k.Edit k' f' g' a := by
  have hf' : f = f' := funext fun t => funext (hf t)
  have hg' : g = g' := funext fun i => funext (hg i)
  exact hf' ▸ hg' ▸ h

theorem tell (h : k.Edit k' f g a) (e : Event) : k.Edit (k'.tell e) f g a :=
  ⟨h.threads, h.arena, h.outOfMemory, h.statics, h.atomic⟩

theorem get? (h : k.Edit k' f g a) {o : Ref} {i : Nat} (hi : o.index? = some i) :
    k'.heap.get? o = (k.heap.get? o).map fun e => { e with monitor := g i e.monitor } := by
  unfold Heap.get?
  rw [hi, Option.bind_some, Option.bind_some, h.arena]

theorem isSome_thread (h : k.Edit k' f g a) (t : ThreadId) :
    (k'.threads.get? t).isSome = (k.threads.get? t).isSome := by
  rw [h.threads, Option.isSome_map]

theorem of_thread (h : k.Edit k' f g a) {t : ThreadId} {info' : Thread}
    (ht : k'.threads.get? t = some info') : ∃ info, k.threads.get? t = some info ∧ info' = f t info := by
  rw [h.threads] at ht
  obtain ⟨info, hinfo, rfl⟩ := Option.map_eq_some_iff.mp ht
  exact ⟨info, hinfo, rfl⟩

theorem isSome_object (h : k.Edit k' f g a) (o : Ref) :
    (k'.heap.get? o).isSome = (k.heap.get? o).isSome := by
  cases ho : o.index? with
  | none => simp [Heap.get?, ho]
  | some i => rw [h.get? ho, Option.isSome_map]

theorem updateThread {t : ThreadId} {f : Thread → Thread} (h : k.updateThread t f = .ok k') :
    k.Edit k' (onThread t f) (fun _ m => m) k.atomic := by
  obtain ⟨info, hinfo, rfl⟩ := updateThread_eq_ok.mp h
  refine ⟨?_, by simp, rfl, rfl, rfl⟩
  intro u
  rw [Roster.get?_put]
  unfold onThread
  by_cases htu : t = u
  · subst htu
    simp [hinfo]
  · simp [htu]

theorem updateMonitor {o : Ref} {g : Monitor → Monitor} (h : k.updateMonitor o g = .ok k') :
    k.Edit k' (fun _ info => info) (onMonitor o g) k.atomic := by
  obtain ⟨e, he, rfl⟩ := updateMonitor_eq_ok.mp h
  refine ⟨by simp, ?_, ?_, rfl, rfl⟩
  · intro i
    rw [Heap.arena_put]
    unfold onMonitor
    obtain ⟨j, hj, hget⟩ := Heap.get?_eq_some.mp he
    by_cases hi : o.index? = some i
    · rw [hj] at hi
      cases hi
      simp [hj, hget]
    · simp [hi]
  · unfold Heap.put
    split <;> rfl

end Edit

variable {k : Kernel}

theorem updateThread_isOk {t : ThreadId} (ht : (k.threads.get? t).isSome) (f : Thread → Thread) :
    ∃ k', k.updateThread t f = .ok k' := by
  obtain ⟨info, hinfo⟩ := Option.isSome_iff_exists.mp ht
  exact ⟨_, updateThread_eq_ok.mpr ⟨info, hinfo, rfl⟩⟩

theorem updateMonitor_isOk {o : Ref} (ho : (k.heap.get? o).isSome) (g : Monitor → Monitor) :
    ∃ k', k.updateMonitor o g = .ok k' := by
  obtain ⟨e, he⟩ := Option.isSome_iff_exists.mp ho
  exact ⟨_, updateMonitor_eq_ok.mpr ⟨e, he, rfl⟩⟩

theorem wake_eq (k : Kernel) (t : ThreadId) : k.wake t = k.updateThread t Thread.awake := by
  unfold wake
  congr 1
  funext info
  unfold Thread.awake
  cases info with
  | mk _ _ _ state =>
    cases state <;> rfl

theorem foldlM_wake {l : List ThreadId} (hl : ∀ t ∈ l, (k.threads.get? t).isSome) :
    ∃ k', l.foldlM wake k = .ok k' ∧
      k.Edit k' (fun t info => if t ∈ l then info.awake else info) (fun _ m => m) k.atomic := by
  induction l generalizing k with
  | nil => exact ⟨k, rfl, (Edit.refl k).congr (by simp) (by simp)⟩
  | cons t l ih =>
    obtain ⟨k₁, h₁⟩ := updateThread_isOk (hl t (by simp)) Thread.awake
    have he₁ := Edit.updateThread h₁
    obtain ⟨k₂, h₂, he₂⟩ := @ih k₁ fun u hu => by
      rw [he₁.isSome_thread]
      exact hl u (by simp [hu])
    refine ⟨k₂, ?_, ?_⟩
    · rw [List.foldlM_cons, wake_eq, h₁]
      exact h₂
    · rw [he₁.atomic] at he₂
      refine (he₁.trans he₂).congr ?_ (fun _ _ => rfl)
      intro u info
      unfold onThread
      by_cases hu : u ∈ l
      · by_cases htu : t = u
        · simp [hu, htu, Thread.awake_awake]
        · simp [hu, htu]
      · by_cases htu : t = u
        · simp [htu, hu]
        · simp [hu, htu, Ne.symm htu]

theorem wakeRequesters_spec {o : Ref} {e : Element} (he : k.heap.get? o = some e)
    (hknown : ∀ t ∈ e.monitor.requests, (k.threads.get? t).isSome) :
    ∃ k', k.wakeRequesters o = .ok k' ∧
      k.Edit k' (fun t info => if t ∈ e.monitor.requests then info.awake else info) (fun _ m => m)
        k.atomic := by
  unfold wakeRequesters
  rw [deref_eq_ok.mpr he]
  exact foldlM_wake hknown

def entered (o : Ref) (info : Thread) : Thread :=
  { info.addLocked o with
    waitCount := 0
    lockObject := none
    state := if info.state = .sleeping then .sleeping else .running }

theorem lock_of_canEnter {t : ThreadId} {o : Ref} {e : Element} {info : Thread}
    (he : k.heap.get? o = some e) (ht : k.threads.get? t = some info)
    (hcan : e.monitor.canEnter t = true) :
    ∃ k', k.lock t o = .ok (.acquired, k') ∧
      k.Edit k' (onThread t (entered o)) (onMonitor o (·.enter t (max 1 info.waitCount))) k.atomic := by
  obtain ⟨k₁, h₁⟩ := updateThread_isOk (k := k) (t := t) (by simp [ht]) (entered o)
  have he₁ := Edit.updateThread h₁
  obtain ⟨k₂, h₂⟩ := updateMonitor_isOk (k := k₁) (o := o) (by rw [he₁.isSome_object, he]; rfl)
    (·.enter t (max 1 info.waitCount))
  have he₂ := Edit.updateMonitor h₂
  refine ⟨k₂.tell (.locked t o), ?_, ?_⟩
  · unfold lock
    refine bind_eq_ok.mpr ⟨e, deref_eq_ok.mpr he, ?_⟩
    rw [if_pos hcan]
    exact bind_eq_ok.mpr ⟨info, get_eq_ok.mpr ht, bind_eq_ok.mpr ⟨k₁, h₁, bind_eq_ok.mpr ⟨k₂, h₂, rfl⟩⟩⟩
  · rw [he₁.atomic] at he₂
    exact ((he₁.trans he₂).tell _).congr (fun _ _ => rfl) (fun _ _ => rfl)

theorem lock_of_not_canEnter {t : ThreadId} {o : Ref} {e : Element} (he : k.heap.get? o = some e)
    (ht : (k.threads.get? t).isSome) (hcan : e.monitor.canEnter t = false) :
    ∃ k', k.lock t o = .ok (.blocked, k') ∧
      k.Edit k' (onThread t ({ · with lockObject := some o, state := .blocked }))
        (onMonitor o (·.addRequest t)) k.atomic := by
  obtain ⟨k₁, h₁⟩ := updateMonitor_isOk (k := k) (o := o) (by simp [he]) (·.addRequest t)
  have he₁ := Edit.updateMonitor h₁
  obtain ⟨k₂, h₂⟩ := updateThread_isOk (k := k₁) (t := t) (by rw [he₁.isSome_thread]; exact ht)
    ({ · with lockObject := some o, state := .blocked })
  have he₂ := Edit.updateThread h₂
  refine ⟨k₂.tell (.blocked t o), ?_, ?_⟩
  · unfold lock
    refine bind_eq_ok.mpr ⟨e, deref_eq_ok.mpr he, ?_⟩
    rw [if_neg (by simp [hcan])]
    exact bind_eq_ok.mpr ⟨k₁, h₁, bind_eq_ok.mpr ⟨k₂, h₂, rfl⟩⟩
  · rw [he₁.atomic] at he₂
    exact (he₁.trans he₂).tell _

theorem isOwner_eq {t : ThreadId} {o : Ref} {e : Element} (he : k.heap.get? o = some e) :
    k.isOwner t o = .ok (e.monitor.owner == some t) := by
  unfold isOwner
  exact bind_eq_ok.mpr ⟨e, deref_eq_ok.mpr he, rfl⟩

theorem unlock_of_not_owner {t : ThreadId} {o : Ref} {e : Element} (he : k.heap.get? o = some e)
    (howner : e.monitor.owner ≠ some t) : k.unlock t o = .ok (.error (.notOwner t o), k) := by
  unfold unlock
  refine bind_eq_ok.mpr ⟨_, isOwner_eq he, ?_⟩
  rw [if_pos (by simp [howner])]
  rfl

theorem fst_exit (m : Monitor) : m.exit.1 = decide (m.count ≤ 1) := by
  unfold Monitor.exit
  split
  · next h => simp [h]
  · next h => simp [h]

theorem unlock_of_entered {t : ThreadId} {o : Ref} {e : Element} (he : k.heap.get? o = some e)
    (howner : e.monitor.owner = some t) (hcount : 1 < e.monitor.count) :
    ∃ k', k.unlock t o = .ok (.ok false, k') ∧
      k.Edit k' (fun _ info => info) (onMonitor o (·.exit.2)) k.atomic := by
  obtain ⟨k₁, h₁⟩ := updateMonitor_isOk (k := k) (o := o) (by simp [he]) (·.exit.2)
  have hfreed : e.monitor.exit.1 = false := by
    rw [fst_exit]
    simpa using hcount
  refine ⟨k₁.tell (.unlocked t o), ?_, (Edit.updateMonitor h₁).tell _⟩
  unfold unlock
  refine bind_eq_ok.mpr ⟨_, isOwner_eq he, ?_⟩
  rw [if_neg (by simp [howner])]
  refine bind_eq_ok.mpr ⟨e, deref_eq_ok.mpr he, bind_eq_ok.mpr ⟨k₁, h₁, ?_⟩⟩
  dsimp only
  rw [hfreed]
  rfl

theorem unlock_of_enteredOnce {t : ThreadId} {o : Ref} {e : Element} (he : k.heap.get? o = some e)
    (ht : (k.threads.get? t).isSome) (howner : e.monitor.owner = some t)
    (hcount : e.monitor.count ≤ 1) (hknown : ∀ u ∈ e.monitor.requests, (k.threads.get? u).isSome) :
    ∃ k', k.unlock t o = .ok (.ok true, k') ∧
      k.Edit k' (fun u info =>
          let info := onThread t (·.removeLocked o) u info
          if u ∈ e.monitor.requests then info.awake else info)
        (onMonitor o (·.exit.2)) k.atomic := by
  have hfreed : e.monitor.exit.1 = true := by
    rw [fst_exit]
    simpa using hcount
  have hrequests : e.monitor.exit.2.requests = e.monitor.requests := by
    unfold Monitor.exit
    split <;> rfl
  obtain ⟨i, hi, _⟩ := Heap.get?_eq_some.mp he
  obtain ⟨k₁, h₁⟩ := updateMonitor_isOk (k := k) (o := o) (by simp [he]) (·.exit.2)
  have he₁ := Edit.updateMonitor h₁
  obtain ⟨k₂, h₂⟩ := updateThread_isOk (k := k₁) (t := t) (by rw [he₁.isSome_thread]; exact ht)
    (·.removeLocked o)
  have he₂ := he₁.trans (Edit.updateThread h₂)
  have hget : k₂.heap.get? o = some { e with monitor := e.monitor.exit.2 } := by
    rw [he₂.get? hi, he]
    simp [onMonitor, hi]
  obtain ⟨k₃, h₃, he₃⟩ := wakeRequesters_spec hget (by
    intro u hu
    rw [he₂.isSome_thread]
    exact hknown u (hrequests ▸ hu))
  refine ⟨k₃.tell (.unlocked t o), ?_, ?_⟩
  · unfold unlock
    refine bind_eq_ok.mpr ⟨_, isOwner_eq he, ?_⟩
    rw [if_neg (by simp [howner])]
    refine bind_eq_ok.mpr ⟨e, deref_eq_ok.mpr he, bind_eq_ok.mpr ⟨k₁, h₁, ?_⟩⟩
    dsimp only
    rw [hfreed]
    exact bind_eq_ok.mpr ⟨k₂, h₂, bind_eq_ok.mpr ⟨k₃, h₃, rfl⟩⟩
  · rw [he₂.atomic, he₁.atomic] at he₃
    refine ((he₂.trans he₃).tell _).congr ?_ (fun _ _ => rfl)
    intro u info
    simp only [hrequests]

theorem enterWait_of_not_owner {t : ThreadId} {o : Ref} {state : ThreadState} {e : Element}
    (he : k.heap.get? o = some e) (howner : e.monitor.owner ≠ some t) :
    k.enterWait t o state = .ok (.error (.notOwner t o), k) := by
  unfold enterWait
  refine bind_eq_ok.mpr ⟨_, isOwner_eq he, ?_⟩
  rw [if_pos (by simp [howner])]
  rfl

theorem enterWait_of_owner {t : ThreadId} {o : Ref} (state : ThreadState) {e : Element}
    (he : k.heap.get? o = some e) (ht : (k.threads.get? t).isSome) (howner : e.monitor.owner = some t)
    (hknown : ∀ u ∈ e.monitor.requests, (k.threads.get? u).isSome) :
    ∃ k', k.enterWait t o state = .ok (.ok (), k') ∧
      k.Edit k' (fun u info =>
          let info := onThread t (fun info =>
            { info.removeLocked o with waitCount := e.monitor.count, lockObject := some o, state }) u info
          if u ∈ e.monitor.requests then info.awake else info)
        (onMonitor o (·.release.addWaiter t)) k.atomic := by
  obtain ⟨i, hi, _⟩ := Heap.get?_eq_some.mp he
  obtain ⟨k₁, h₁⟩ := updateMonitor_isOk (k := k) (o := o) (by simp [he]) (·.release.addWaiter t)
  have he₁ := Edit.updateMonitor h₁
  obtain ⟨k₂, h₂⟩ := updateThread_isOk (k := k₁) (t := t) (by rw [he₁.isSome_thread]; exact ht)
    fun info => { info.removeLocked o with waitCount := e.monitor.count, lockObject := some o, state }
  have he₂ := he₁.trans (Edit.updateThread h₂)
  have hget : k₂.heap.get? o = some { e with monitor := e.monitor.release.addWaiter t } := by
    rw [he₂.get? hi, he]
    simp [onMonitor, hi]
  have hrequests : (e.monitor.release.addWaiter t).requests = e.monitor.requests :=
    Monitor.requests_addWaiter _ t
  obtain ⟨k₃, h₃, he₃⟩ := wakeRequesters_spec hget (by
    intro u hu
    rw [he₂.isSome_thread]
    exact hknown u (hrequests ▸ hu))
  refine ⟨(k₃.tell (.unlocked t o)).tell (.waiting t o), ?_, ?_⟩
  · unfold enterWait
    refine bind_eq_ok.mpr ⟨_, isOwner_eq he, ?_⟩
    rw [if_neg (by simp [howner])]
    exact bind_eq_ok.mpr ⟨e, deref_eq_ok.mpr he, bind_eq_ok.mpr ⟨k₁, h₁, bind_eq_ok.mpr ⟨k₂, h₂,
      bind_eq_ok.mpr ⟨k₃, h₃, rfl⟩⟩⟩⟩
  · rw [he₂.atomic, he₁.atomic] at he₃
    refine (((he₂.trans he₃).tell _).tell _).congr ?_ (fun _ _ => rfl)
    intro u info
    simp only [hrequests]

theorem notifyThread_of_waiting {t waiter : ThreadId} {o : Ref} {e : Element}
    (he : k.heap.get? o = some e) (howner : e.monitor.owner = some t)
    (hwaiter : waiter ∈ e.monitor.waiters) (hknown : (k.threads.get? waiter).isSome) :
    ∃ k', k.notifyThread t o waiter = .ok (.ok true, k') ∧
      k.Edit k' (onThread waiter ({ · with state := .notified }))
        (onMonitor o fun m => (m.removeWaiter waiter).addRequest waiter) k.atomic := by
  obtain ⟨k₁, h₁⟩ := updateMonitor_isOk (k := k) (o := o) (by simp [he])
    fun m => (m.removeWaiter waiter).addRequest waiter
  have he₁ := Edit.updateMonitor h₁
  obtain ⟨k₂, h₂⟩ := updateThread_isOk (k := k₁) (t := waiter)
    (by rw [he₁.isSome_thread]; exact hknown) ({ · with state := .notified })
  have he₂ := Edit.updateThread h₂
  refine ⟨k₂.tell (.notified waiter), ?_, ?_⟩
  · unfold notifyThread
    refine bind_eq_ok.mpr ⟨_, isOwner_eq he, ?_⟩
    rw [if_neg (by simp [howner])]
    refine bind_eq_ok.mpr ⟨e, deref_eq_ok.mpr he, ?_⟩
    rw [if_pos (by simpa using hwaiter)]
    exact bind_eq_ok.mpr ⟨k₁, h₁, bind_eq_ok.mpr ⟨k₂, h₂, rfl⟩⟩
  · rw [he₁.atomic] at he₂
    exact (he₁.trans he₂).tell _

theorem notifyThread_of_not_waiting {t waiter : ThreadId} {o : Ref} {e : Element}
    (he : k.heap.get? o = some e) (howner : e.monitor.owner = some t)
    (hwaiter : waiter ∉ e.monitor.waiters) :
    ∃ k', k.notifyThread t o waiter = .ok (.ok false, k') ∧
      k.Edit k' (fun _ info => info) (onMonitor o fun m => m) k.atomic := by
  obtain ⟨k₁, h₁⟩ := updateMonitor_isOk (k := k) (o := o) (by simp [he]) id
  refine ⟨k₁, ?_, Edit.updateMonitor h₁⟩
  unfold notifyThread
  refine bind_eq_ok.mpr ⟨_, isOwner_eq he, ?_⟩
  rw [if_neg (by simp [howner])]
  refine bind_eq_ok.mpr ⟨e, deref_eq_ok.mpr he, ?_⟩
  rw [if_neg (by simpa using hwaiter)]
  exact bind_eq_ok.mpr ⟨k₁, h₁, rfl⟩

theorem notify_of_not_owner {t : ThreadId} {o : Ref} {e : Element} (he : k.heap.get? o = some e)
    (howner : e.monitor.owner ≠ some t) : k.notify t o = .ok (.error (.notOwner t o), k) := by
  unfold notify
  refine bind_eq_ok.mpr ⟨_, isOwner_eq he, ?_⟩
  rw [if_pos (by simp [howner])]
  rfl

theorem notify_of_owner {t : ThreadId} {o : Ref} {e : Element} (he : k.heap.get? o = some e)
    (howner : e.monitor.owner = some t)
    (hknown : ∀ u ∈ e.monitor.waiters, (k.threads.get? u).isSome) :
    ∃ k' g, k.notify t o = .ok (.ok e.monitor.waiters.head?, k') ∧
      k.Edit k' (fun u info =>
          if e.monitor.waiters.head? = some u then { info with state := .notified } else info)
        (onMonitor o g) k.atomic ∧
      ∀ m : Monitor, m.Roused e.monitor.waiters.head?.toList (g m) := by
  cases hw : e.monitor.waiters with
  | nil =>
    refine ⟨k, fun m => m, ?_, (Edit.refl k).congr (by simp) (onMonitor_id o), .nil⟩
    unfold notify
    refine bind_eq_ok.mpr ⟨_, isOwner_eq he, ?_⟩
    rw [if_neg (by simp [howner])]
    refine bind_eq_ok.mpr ⟨e, deref_eq_ok.mpr he, ?_⟩
    rw [hw]
    rfl
  | cons waiter rest =>
    have hmem : waiter ∈ e.monitor.waiters := by simp [hw]
    obtain ⟨k', h, hedit⟩ := notifyThread_of_waiting he howner hmem (hknown waiter hmem)
    refine ⟨k', _, ?_, hedit.congr ?_ (fun _ _ => rfl), fun m => .single m waiter⟩
    · unfold notify
      refine bind_eq_ok.mpr ⟨_, isOwner_eq he, ?_⟩
      rw [if_neg (by simp [howner])]
      refine bind_eq_ok.mpr ⟨e, deref_eq_ok.mpr he, ?_⟩
      rw [hw]
      exact bind_eq_ok.mpr ⟨_, h, rfl⟩
    · intro u info
      simp [onThread]

theorem notifyEach_spec {t : ThreadId} {o : Ref} {e : Element} {l : List ThreadId}
    (he : k.heap.get? o = some e) (howner : e.monitor.owner = some t)
    (hknown : ∀ u ∈ l, (k.threads.get? u).isSome) :
    ∃ k' g, k.notifyEach t o l = .ok (.ok (), k') ∧
      k.Edit k' (fun u info =>
          if u ∈ l ∧ u ∈ e.monitor.waiters then { info with state := .notified } else info)
        (onMonitor o g) k.atomic ∧
      ∀ m : Monitor, m.Roused (l.filter (· ∈ e.monitor.waiters)) (g m) := by
  obtain ⟨i, hi, -⟩ := Heap.get?_eq_some.mp he
  -- each notification takes a thread from the waiters, so the monitor changes along the list
  induction l generalizing k e with
  | nil => exact ⟨k, fun m => m, rfl, (Edit.refl k).congr (by simp) (onMonitor_id o), .nil⟩
  | cons waiter l ih =>
    have hrest : ∀ {k₁ : Kernel} {f g a}, k.Edit k₁ f g a → ∀ u ∈ l, (k₁.threads.get? u).isSome := by
      intro k₁ f g a h u hu
      rw [h.isSome_thread]
      exact hknown u (by simp [hu])
    by_cases hwaiter : waiter ∈ e.monitor.waiters
    · obtain ⟨k₁, h₁, he₁⟩ := notifyThread_of_waiting he howner hwaiter (hknown waiter (by simp))
      have hget : k₁.heap.get? o = some { e with
          monitor := (e.monitor.removeWaiter waiter).addRequest waiter } := by
        rw [he₁.get? hi, he]
        simp [onMonitor, hi]
      obtain ⟨k₂, g, h₂, he₂, hg⟩ := ih hget ((Monitor.owner_addRequest _ _).trans howner)
        (hrest he₁)
      refine ⟨k₂, fun m => g ((m.removeWaiter waiter).addRequest waiter), ?_, ?_, ?_⟩
      · unfold notifyEach
        exact bind_eq_ok.mpr ⟨_, h₁, h₂⟩
      · rw [he₁.atomic] at he₂
        refine (he₁.trans he₂).congr ?_ (onMonitor_onMonitor o _ g)
        intro u info
        simp only [Monitor.waiters_addRequest, Monitor.removeWaiter, List.mem_filter, onThread]
        by_cases hu : waiter = u
        · subst hu
          simp [hwaiter]
        · simp [hu, Ne.symm hu]
      · intro m
        apply (hg _).cons.congr
        intro u
        simp only [Monitor.waiters_addRequest, Monitor.removeWaiter, List.mem_cons, List.mem_filter,
          decide_eq_true_eq]
        by_cases hu : u = waiter
        · simp [hu, hwaiter]
        · simp [hu]
    · obtain ⟨k₁, h₁, he₁⟩ := notifyThread_of_not_waiting he howner hwaiter
      have hget : k₁.heap.get? o = some e := by
        rw [he₁.get? hi, he]
        simp [onMonitor]
      obtain ⟨k₂, g, h₂, he₂, hg⟩ := ih hget howner (hrest he₁)
      refine ⟨k₂, g, ?_, ?_, ?_⟩
      · unfold notifyEach
        exact bind_eq_ok.mpr ⟨_, h₁, h₂⟩
      · rw [he₁.atomic] at he₂
        refine (he₁.trans he₂).congr ?_ (onMonitor_onMonitor o _ g)
        intro u info
        by_cases hu : u = waiter
        · subst hu
          simp [hwaiter]
        · simp [hu]
      · intro m
        rw [List.filter_cons_of_neg (p := (· ∈ e.monitor.waiters)) (by simpa using hwaiter)]
        exact hg m

theorem notifyAll_of_not_owner {t : ThreadId} {o : Ref} {e : Element} (he : k.heap.get? o = some e)
    (howner : e.monitor.owner ≠ some t) : k.notifyAll t o = .ok (.error (.notOwner t o), k) := by
  unfold notifyAll
  refine bind_eq_ok.mpr ⟨_, isOwner_eq he, ?_⟩
  rw [if_pos (by simp [howner])]
  rfl

theorem notifyAll_of_owner {t : ThreadId} {o : Ref} {e : Element} (he : k.heap.get? o = some e)
    (howner : e.monitor.owner = some t)
    (hknown : ∀ u ∈ e.monitor.waiters, (k.threads.get? u).isSome) :
    ∃ k' g, k.notifyAll t o = .ok (.ok e.monitor.waiters.length, k') ∧
      k.Edit k' (fun u info =>
          if u ∈ e.monitor.waiters then { info with state := .notified } else info)
        (onMonitor o g) k.atomic ∧
      ∀ m : Monitor, m.Roused e.monitor.waiters (g m) := by
  obtain ⟨k', g, h, hedit, hg⟩ := notifyEach_spec he howner hknown
  refine ⟨k', g, ?_, hedit.congr (by simp) (fun _ _ => rfl), fun m => (hg m).congr (by simp)⟩
  unfold notifyAll
  refine bind_eq_ok.mpr ⟨_, isOwner_eq he, ?_⟩
  rw [if_neg (by simp [howner])]
  exact bind_eq_ok.mpr ⟨e, deref_eq_ok.mpr he, bind_eq_ok.mpr ⟨_, h, rfl⟩⟩

def requestsOf (k : Kernel) (o : Ref) : List ThreadId :=
  ((k.heap.get? o).map (·.monitor.requests)).getD []

theorem releaseHeld_spec {t : ThreadId} {o : Ref} (ho : (k.heap.get? o).isSome)
    (hknown : ∀ u ∈ k.requestsOf o, (k.threads.get? u).isSome) :
    ∃ k', releaseHeld t k o = .ok k' ∧
      k.Edit k' (fun u info => if u ∈ k.requestsOf o then info.awake else info)
        (onMonitor o (·.release)) k.atomic := by
  obtain ⟨e, he⟩ := Option.isSome_iff_exists.mp ho
  have hrequests : k.requestsOf o = e.monitor.requests := by simp [requestsOf, he]
  obtain ⟨i, hi, -⟩ := Heap.get?_eq_some.mp he
  obtain ⟨k₁, h₁⟩ := updateMonitor_isOk ho (·.release)
  have he₁ := Edit.updateMonitor h₁
  have hget : k₁.heap.get? o = some { e with monitor := e.monitor.release } := by
    rw [he₁.get? hi, he]
    simp [onMonitor, hi]
  obtain ⟨k₂, h₂, he₂⟩ := wakeRequesters_spec hget (by
    intro u hu
    rw [he₁.isSome_thread]
    exact hknown u (hrequests ▸ hu))
  refine ⟨k₂.tell (.unlocked t o), ?_, ?_⟩
  · unfold releaseHeld
    exact bind_eq_ok.mpr ⟨k₁, h₁, bind_eq_ok.mpr ⟨k₂, h₂, rfl⟩⟩
  · rw [he₁.atomic] at he₂
    refine ((he₁.trans he₂).tell _).congr ?_ (fun _ _ => rfl)
    intro u info
    rw [hrequests]
    rfl

theorem foldlM_releaseHeld {t : ThreadId} {l : List Ref} (hl : ∀ o ∈ l, (k.heap.get? o).isSome)
    (hknown : ∀ o ∈ l, ∀ u ∈ k.requestsOf o, (k.threads.get? u).isSome) :
    ∃ k', l.foldlM (releaseHeld t) k = .ok k' ∧
      k.Edit k' (fun u info => if u ∈ l.flatMap k.requestsOf then info.awake else info)
        (fun i m => if i ∈ l.filterMap Ref.index? then m.release else m) k.atomic := by
  induction l generalizing k with
  | nil => exact ⟨k, rfl, (Edit.refl k).congr (by simp) (by simp)⟩
  | cons o l ih =>
    obtain ⟨k₁, h₁, he₁⟩ := releaseHeld_spec (t := t) (hl o (by simp)) (hknown o (by simp))
    -- freeing a monitor leaves it open who wants it
    have hrequests : k₁.requestsOf = k.requestsOf := by
      funext o'
      unfold requestsOf
      cases hi : o'.index? with
      | none => simp [Heap.get?, hi]
      | some i =>
        rw [he₁.get? hi, Option.map_map]
        congr 2
        funext e
        simp only [Function.comp_apply, onMonitor]
        split <;> rfl
    obtain ⟨k₂, h₂, he₂⟩ := @ih k₁
      (fun o' ho' => by rw [he₁.isSome_object]; exact hl o' (by simp [ho']))
      (fun o' ho' u hu => by
        rw [he₁.isSome_thread]
        exact hknown o' (by simp [ho']) u (hrequests ▸ hu))
    refine ⟨k₂, ?_, ?_⟩
    · rw [List.foldlM_cons]
      exact bind_eq_ok.mpr ⟨k₁, h₁, h₂⟩
    · rw [he₁.atomic, hrequests] at he₂
      refine (he₁.trans he₂).congr ?_ ?_
      · intro u info
        simp only [List.flatMap_cons, List.mem_append]
        by_cases hu : u ∈ k.requestsOf o
        · by_cases hu' : u ∈ l.flatMap k.requestsOf
          · simp only [hu, hu', if_true, or_self, Thread.awake_awake]
          · simp only [hu, hu', if_true, if_false, or_false]
        · simp only [hu, false_or, if_false]
      · intro i m
        unfold onMonitor
        rw [List.filterMap_cons]
        cases hi : o.index? with
        | none => simp
        | some j =>
          by_cases hji : j = i
          · simp [hji, Monitor.release]
          · simp [hji, Ne.symm hji]

theorem foldlM_wakeJoiner {o : Ref} {l : List ThreadId} (ho : (k.heap.get? o).isSome)
    (hknown : ∀ u ∈ l, (k.threads.get? u).isSome) :
    ∃ k' g, l.foldlM (wakeJoiner o) k = .ok k' ∧
      k.Edit k' (fun u info => if u ∈ l then { info with state := .unblocked } else info)
        (onMonitor o g) k.atomic ∧
      ∀ m : Monitor, m.Roused l (g m) := by
  induction l generalizing k with
  | nil => exact ⟨k, fun m => m, rfl, (Edit.refl k).congr (by simp) (onMonitor_id o), .nil⟩
  | cons joiner l ih =>
    obtain ⟨k₁, h₁⟩ := updateMonitor_isOk ho (·.removeWaiter joiner)
    have he₁ := Edit.updateMonitor h₁
    obtain ⟨k₂, h₂⟩ := updateMonitor_isOk (by rw [he₁.isSome_object]; exact ho) (·.addRequest joiner)
    have he₂ := he₁.trans (Edit.updateMonitor h₂)
    obtain ⟨k₃, h₃⟩ := updateThread_isOk (by rw [he₂.isSome_thread]; exact hknown joiner (by simp))
      ({ · with state := .unblocked })
    have he₃ := (he₂.trans (Edit.updateThread h₃)).tell (.notified joiner)
    obtain ⟨k₄, g, h₄, he₄, hg⟩ := @ih (k₃.tell (.notified joiner))
      (by rw [he₃.isSome_object]; exact ho)
      (fun u hu => by rw [he₃.isSome_thread]; exact hknown u (by simp [hu]))
    refine ⟨k₄, fun m => g ((m.removeWaiter joiner).addRequest joiner), ?_, ?_, fun m => (hg _).cons⟩
    · rw [List.foldlM_cons]
      refine bind_eq_ok.mpr ⟨_, ?_, h₄⟩
      unfold wakeJoiner
      exact bind_eq_ok.mpr ⟨k₁, h₁, bind_eq_ok.mpr ⟨k₂, h₂, bind_eq_ok.mpr ⟨k₃, h₃, rfl⟩⟩⟩
    · rw [he₃.atomic, he₂.atomic, he₁.atomic] at he₄
      refine (he₃.trans he₄).congr ?_ ?_
      · intro u info
        unfold onThread
        by_cases hu : joiner = u
        · subst hu
          simp
        · simp [hu, Ne.symm hu]
      · intro i m
        rw [onMonitor_onMonitor, onMonitor_onMonitor]

theorem terminateThread_of_not_alive {t : ThreadId} {info : Thread}
    (ht : k.threads.get? t = some info) (halive : info.isAlive = false) :
    k.terminateThread t = .ok (.error (.notAlive t), k) := by
  unfold terminateThread
  refine bind_eq_ok.mpr ⟨info, get_eq_ok.mpr ht, ?_⟩
  rw [if_pos (by simp [halive])]
  rfl

def ended (t : ThreadId) (requesters joiners : List ThreadId) (u : ThreadId) (info : Thread) : Thread :=
  let info := if u ∈ requesters then info.awake else info
  let info := onThread t Thread.atEnd u info
  if u ∈ joiners then { info with state := .unblocked } else info

section

variable {t : ThreadId} {info : Thread} (ht : k.threads.get? t = some info) (halive : info.isAlive = true)
  (hlive : ∀ o ∈ info.lockedObjects, (k.heap.get? o).isSome)
  (hknown : ∀ o ∈ info.lockedObjects, ∀ u ∈ k.requestsOf o, (k.threads.get? u).isSome)

include ht halive hlive hknown

theorem terminateThread_eq :
    ∃ k', k.Edit k' (fun u info' => onThread t Thread.atEnd u
          (if u ∈ info.lockedObjects.flatMap k.requestsOf then info'.awake else info'))
        (fun i m => if i ∈ info.lockedObjects.filterMap Ref.index? then m.release else m) k.atomic ∧
      k.terminateThread t = (do
        let e ← k'.heap.deref info.object
        let k'' ← e.monitor.waiters.foldlM (wakeJoiner info.object) k'
        return (.ok (),
          (if k''.atomic.owner = some t then
            { k'' with atomic := {}, atomicEpoch := k''.atomicEpoch + 1 }
          else k'').tell (.terminated t))) := by
  obtain ⟨k₁, h₁, he₁⟩ := foldlM_releaseHeld (t := t) hlive hknown
  obtain ⟨k₂, h₂⟩ := updateThread_isOk (k := k₁) (t := t) (by rw [he₁.isSome_thread, ht]; rfl)
    Thread.atEnd
  have he₂ := Edit.updateThread h₂
  rw [he₁.atomic] at he₂
  refine ⟨k₂, he₁.trans he₂, ?_⟩
  unfold terminateThread
  unfold Thread.atEnd at h₂
  rw [get_eq_ok.mpr ht, ok_bind, if_neg (by simp [halive]), h₁, ok_bind, h₂, ok_bind]

theorem terminateThread_of_dead (hdead : k.heap.get? info.object = none) :
    k.terminateThread t = .error (.deadReference info.object) := by
  obtain ⟨k₁, he₁, h⟩ := terminateThread_eq ht halive hlive hknown
  have hget : k₁.heap.get? info.object = none := by
    rw [← Option.not_isSome_iff_eq_none, he₁.isSome_object, hdead]
    simp
  rw [h]
  unfold Heap.deref
  rw [hget]
  rfl

theorem terminateThread_of_live {e : Element} (he : k.heap.get? info.object = some e)
    (hjoiners : ∀ u ∈ e.monitor.waiters, (k.threads.get? u).isSome) :
    ∃ k' g, k.terminateThread t = .ok (.ok (), k') ∧
      k.Edit k' (ended t (info.lockedObjects.flatMap k.requestsOf) e.monitor.waiters) g
        (if k.atomic.owner = some t then {} else k.atomic) ∧
      ∀ i m, Monitor.Roused (if info.object.index? = some i then e.monitor.waiters else [])
        (if i ∈ info.lockedObjects.filterMap Ref.index? then m.release else m) (g i m) := by
  obtain ⟨k₁, he₁, h⟩ := terminateThread_eq ht halive hlive hknown
  obtain ⟨i, hi, -⟩ := Heap.get?_eq_some.mp he
  obtain ⟨e₁, hget, hwaiters⟩ : ∃ e₁, k₁.heap.get? info.object = some e₁ ∧
      e₁.monitor.waiters = e.monitor.waiters := by
    rw [he₁.get? hi, he]
    refine ⟨_, rfl, ?_⟩
    dsimp only
    split <;> rfl
  obtain ⟨k₂, g, h₂, he₂, hg⟩ := foldlM_wakeJoiner (k := k₁) (l := e.monitor.waiters)
    (o := info.object) (by rw [hget]; rfl)
    (fun u hu => by rw [he₁.isSome_thread]; exact hjoiners u hu)
  rw [he₁.atomic] at he₂
  have he₃ := he₁.trans he₂
  refine ⟨(if k₂.atomic.owner = some t then
      { k₂ with atomic := {}, atomicEpoch := k₂.atomicEpoch + 1 } else k₂).tell (.terminated t),
    fun i m => onMonitor info.object g i
      (if i ∈ info.lockedObjects.filterMap Ref.index? then m.release else m), ?_, ?_, ?_⟩
  · rw [h, deref_eq_ok.mpr hget, ok_bind, hwaiters, h₂, ok_bind]
    rfl
  · apply Edit.tell
    rw [he₃.atomic]
    split
    · exact ⟨he₃.threads, he₃.arena, he₃.outOfMemory, he₃.statics, rfl⟩
    · exact ⟨he₃.threads, he₃.arena, he₃.outOfMemory, he₃.statics, he₃.atomic⟩
  · intro i m
    dsimp only [onMonitor]
    by_cases hi : info.object.index? = some i
    · rw [if_pos hi, if_pos hi]
      exact hg _
    · rw [if_neg hi, if_neg hi]
      exact .nil _

end

end Kernel

end Interleave
