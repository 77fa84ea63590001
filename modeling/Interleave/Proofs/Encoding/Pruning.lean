import Interleave.Proofs.Encoding.Readable
import Interleave.Proofs.Kernel.Ownership

/-!
Monitor operations in states with the same encoding. An encoding does not say how often a monitor has been
entered, nor who waits for it or wants it. The operations go alike exactly if what they read of that is
alike.
-/

namespace Interleave

theorem Roster.forall₂_toList_iff {R : Thread → Thread → Prop} {r₁ r₂ : Roster} :
    List.Forall₂ R r₁.toList r₂.toList ↔
      (∀ t, (r₁.get? t).isSome = (r₂.get? t).isSome) ∧
        ∀ t i₁ i₂, r₁.get? t = some i₁ → r₂.get? t = some i₂ → R i₁ i₂ := by
  unfold Roster.toList Roster.get?
  simp only [← Array.getElem?_toList, Option.isSome_eq_isSome, List.getElem?_eq_none_iff,
    List.forall₂_iff_get]
  generalize r₁.threads.toList = l₁
  generalize r₂.threads.toList = l₂
  constructor
  · intro ⟨hlen, h⟩
    refine ⟨by simp [hlen], ?_⟩
    intro t i₁ i₂ h₁ h₂
    obtain ⟨ht₁, rfl⟩ := List.getElem?_eq_some_iff.mp h₁
    obtain ⟨ht₂, rfl⟩ := List.getElem?_eq_some_iff.mp h₂
    exact h t ht₁ ht₂
  · intro ⟨hlen, h⟩
    refine ⟨?_, ?_⟩
    · have h₁ := hlen l₁.length
      have h₂ := hlen l₂.length
      omega
    · intro t ht₁ ht₂
      exact h t _ _ (List.getElem?_eq_getElem ht₁) (List.getElem?_eq_getElem ht₂)

section

variable {h₁ h₂ h₁' h₂' : Heap} {P : Nat → Nat → Prop}

theorem Ref.Corresponds.congr (hs₁ : h₁'.slot? = h₁.slot?) (hs₂ : h₂'.slot? = h₂.slot?) {r₁ r₂ : Ref}
    (h : r₁.Corresponds h₁ h₂ P r₂) : r₁.Corresponds h₁' h₂' P r₂ := by
  unfold Ref.Corresponds at *
  rw [hs₁, hs₂]
  exact h

theorem Cell.Corresponds.congr (hs₁ : h₁'.slot? = h₁.slot?) (hs₂ : h₂'.slot? = h₂.slot?)
    {l₁ l₂ : List Cell} (h : List.Forall₂ (Cell.Corresponds h₁ h₂ P) l₁ l₂) :
    List.Forall₂ (Cell.Corresponds h₁' h₂' P) l₁ l₂ :=
  h.imp fun _ _ hc => ⟨hc.tag, hc.value, fun ht => (hc.target ht).congr hs₁ hs₂⟩

theorem Element.StaticCorresponds.congr (hs₁ : h₁'.slot? = h₁.slot?) (hs₂ : h₂'.slot? = h₂.slot?)
    {e₁ e₂ : Element} (h : e₁.StaticCorresponds h₁ h₂ P e₂) : e₁.StaticCorresponds h₁' h₂' P e₂ where
  classId := h.classId
  code := h.code
  classRef := by
    have hr := h.classRef
    generalize e₁.classRef? = r₁ at hr
    generalize e₂.classRef? = r₂ at hr
    cases hr with
    | none => exact .none
    | some hr => exact .some (hr.congr hs₁ hs₂)
  cells := Cell.Corresponds.congr hs₁ hs₂ h.cells

theorem Thread.Alike.congr (hs₁ : h₁'.slot? = h₁.slot?) (hs₂ : h₂'.slot? = h₂.slot?)
    (hn₁ : h₁'.nameOf? = h₁.nameOf?) (hn₂ : h₂'.nameOf? = h₂.nameOf?) {t₁ t₂ : Thread}
    (h : t₁.Alike h₁ h₂ P t₂) : t₁.Alike h₁' h₂' P t₂ where
  object := h.object.congr hs₁ hs₂
  frames := h.frames.imp fun _ _ hf => ⟨hf.method, hf.pc, Cell.Corresponds.congr hs₁ hs₂ hf.cells⟩
  gid := h.gid
  interrupted := h.interrupted
  suspended := h.suspended
  permit := h.permit
  lockObject := by rw [hn₁, hn₂]; exact h.lockObject
  locked := by rw [hn₁, hn₂]; exact h.locked

theorem Thread.Alike.state {t₁ t₂ : Thread} (h : t₁.Alike h₁ h₂ P t₂) (s₁ s₂ : ThreadState) :
    ({ t₁ with state := s₁ } : Thread).Alike h₁ h₂ P { t₂ with state := s₂ } :=
  ⟨h.object, h.frames, h.gid, h.interrupted, h.suspended, h.permit, h.lockObject, h.locked⟩

theorem Thread.Alike.ite {t₁ t₂ : Thread} (h : t₁.Alike h₁ h₂ P t₂) {p q : Prop} [Decidable p]
    [Decidable q] {s₁ s₂ : ThreadState} :
    (if p then { t₁ with state := s₁ } else t₁).Alike h₁ h₂ P
      (if q then { t₂ with state := s₂ } else t₂) := by
  split
  · split
    · exact h.state s₁ s₂
    · exact h.state s₁ t₂.state
  · split
    · exact h.state t₁.state s₂
    · exact h

theorem Thread.Alike.awake {t₁ t₂ : Thread} (h : t₁.Alike h₁ h₂ P t₂) {p q : Prop} [Decidable p]
    [Decidable q] :
    (if p then t₁.awake else t₁).Alike h₁ h₂ P (if q then t₂.awake else t₂) :=
  h.ite

theorem Thread.Alike.onThread {t₁ t₂ : Thread} (h : t₁.Alike h₁ h₂ P t₂) {t u : ThreadId}
    {f₁ f₂ : Thread → Thread} (hf : t = u → (f₁ t₁).Alike h₁ h₂ P (f₂ t₂)) :
    (Kernel.onThread t f₁ u t₁).Alike h₁ h₂ P (Kernel.onThread t f₂ u t₂) := by
  unfold Kernel.onThread
  split
  · next htu => exact hf htu
  · exact h

theorem Thread.Alike.ended {t₁ t₂ : Thread} (h : t₁.Alike h₁ h₂ P t₂) (t u : ThreadId)
    (requesters₁ requesters₂ joiners₁ joiners₂ : List ThreadId) :
    (Kernel.ended t requesters₁ joiners₁ u t₁).Alike h₁ h₂ P
      (Kernel.ended t requesters₂ joiners₂ u t₂) := by
  have hawake := h.awake (p := u ∈ requesters₁) (q := u ∈ requesters₂)
  apply Thread.Alike.ite
  apply hawake.onThread
  intro _
  exact ⟨hawake.object, .nil, hawake.gid, hawake.interrupted, hawake.suspended, hawake.permit, rfl, .nil⟩

end

namespace Heap.DistinctNames

variable {h : Heap} (hd : h.DistinctNames) {o : Ref} {e : Element} (ho : h.get? o = some e)

include hd ho

theorem nameOf?_eq_iff {r : Ref} : h.nameOf? r = some e.gid ↔ r = o := by
  constructor
  · intro hr
    obtain ⟨e', he', hgid⟩ := Option.map_eq_some_iff.mp hr
    obtain ⟨i, hi, hget⟩ := get?_eq_some.mp ho
    obtain ⟨i', hi', hget'⟩ := get?_eq_some.mp he'
    cases hd i' i e' e hget' hget hgid
    exact Ref.eq_of_index? hi' hi
  · rintro rfl
    simp [nameOf?, ho]

theorem mem_iff {l : List Ref} : o ∈ l ↔ some e.gid ∈ l.map h.nameOf? := by
  simp [List.mem_map, hd.nameOf?_eq_iff ho]

theorem names_removeLocked (info : Thread) :
    (info.removeLocked o).lockedObjects.map h.nameOf? =
      (info.lockedObjects.map h.nameOf?).filter (· ≠ some e.gid) := by
  rw [List.filter_map]
  dsimp only [Thread.removeLocked]
  congr 2
  funext r
  rw [Bool.eq_iff_iff]
  simp [hd.nameOf?_eq_iff ho]

end Heap.DistinctNames

namespace Kernel

variable {k₁ k₂ k₁' k₂' : Kernel} {P : Nat → Nat → Prop} {f₁ f₂ : ThreadId → Thread → Thread}
  {g₁ g₂ : Nat → Monitor → Monitor} {a₁ a₂ : AtomicSection}

theorem Edit.slot? {k k' : Kernel} {f : ThreadId → Thread → Thread} {g : Nat → Monitor → Monitor}
    {a : AtomicSection} (h : k.Edit k' f g a) : k'.heap.slot? = k.heap.slot? := by
  funext r
  unfold Heap.slot?
  congr 1
  funext i
  rw [Arena.contains_eq, Arena.contains_eq, h.arena, Option.isSome_map]

theorem Edit.nameOf? {k k' : Kernel} {f : ThreadId → Thread → Thread} {g : Nat → Monitor → Monitor}
    {a : AtomicSection} (h : k.Edit k' f g a) : k'.heap.nameOf? = k.heap.nameOf? := by
  funext r
  unfold Heap.nameOf?
  cases hi : r.index? with
  | none => simp [Heap.get?, hi]
  | some i =>
    rw [h.get? hi, Option.map_map]
    rfl

theorem Alike.edit (hk : k₁.Alike k₂ P) (h₁ : k₁.Edit k₁' f₁ g₁ a₁) (h₂ : k₂.Edit k₂' f₂ g₂ a₂)
    (howner : k₁'.atomicOwnerName = k₂'.atomicOwnerName)
    (hf : ∀ t i₁ i₂, k₁.threads.get? t = some i₁ → k₂.threads.get? t = some i₂ →
      i₁.Alike k₁.heap k₂.heap P i₂ → (f₁ t i₁).Alike k₁.heap k₂.heap P (f₂ t i₂)) :
    k₁'.Alike k₂' P where
  unique := hk.unique
  objects := by
    intro i j hij
    obtain ⟨e₁, e₂, he₁, he₂, he⟩ := hk.objects i j hij
    refine ⟨_, _, by rw [h₁.arena, he₁]; rfl, by rw [h₂.arena, he₂]; rfl, ?_⟩
    exact ⟨he.gid, he.classId, he.length, Cell.Corresponds.congr h₁.slot? h₂.slot? he.cells⟩
  threads := by
    obtain ⟨hsome, hthreads⟩ := Roster.forall₂_toList_iff.mp hk.threads
    rw [Roster.forall₂_toList_iff]
    constructor
    · intro t
      rw [h₁.isSome_thread, h₂.isSome_thread]
      exact hsome t
    · intro t i₁' i₂' hi₁' hi₂'
      obtain ⟨i₁, hi₁, rfl⟩ := h₁.of_thread hi₁'
      obtain ⟨i₂, hi₂, rfl⟩ := h₂.of_thread hi₂'
      exact (hf t i₁ i₂ hi₁ hi₂ (hthreads t i₁ i₂ hi₁ hi₂)).congr h₁.slot? h₂.slot? h₁.nameOf? h₂.nameOf?
  loaded := by rw [h₁.statics, h₂.statics]; exact hk.loaded
  statics := by
    rw [h₁.statics, h₂.statics]
    exact hk.statics.imp fun _ _ he => he.congr h₁.slot? h₂.slot?
  outOfMemory := by rw [h₁.outOfMemory, h₂.outOfMemory]; exact hk.outOfMemory
  owner := howner

structure Twins (k₁ k₂ : Kernel) (P : Nat → Nat → Prop) : Prop extends k₁.Corresponds k₂ P where
  owned₁ : k₁.Owned
  owned₂ : k₂.Owned
  named₁ : k₁.Named
  named₂ : k₂.Named
  ownerKnown : ∀ t, k₁.atomic.owner = some t → (k₁.threads.get? t).isSome

theorem isOk_atomicOwnerName {k : Kernel} :
    k.atomicOwnerName.isOk = true ↔ ∀ t, k.atomic.owner = some t → (k.threads.get? t).isSome := by
  unfold atomicOwnerName
  cases k.atomic.owner with
  | none => simp [pure, Except.pure, Except.isOk, Except.toBool]
  | some t =>
    unfold Roster.get
    cases ht : k.threads.get? t <;>
      simp [ht, bind, Except.bind, pure, Except.pure, Except.isOk, Except.toBool]

namespace Twins

variable (hk : k₁.Twins k₂ P)

include hk

theorem isSome_thread (t : ThreadId) : (k₁.threads.get? t).isSome = (k₂.threads.get? t).isSome :=
  (Roster.forall₂_toList_iff.mp hk.threads).1 t

theorem alike {t : ThreadId} {i₁ i₂ : Thread} (h₁ : k₁.threads.get? t = some i₁)
    (h₂ : k₂.threads.get? t = some i₂) : i₁.Alike k₁.heap k₂.heap P i₂ :=
  (Roster.forall₂_toList_iff.mp hk.threads).2 t i₁ i₂ h₁ h₂

theorem state_eq {t : ThreadId} {i₁ i₂ : Thread} (h₁ : k₁.threads.get? t = some i₁)
    (h₂ : k₂.threads.get? t = some i₂) : i₁.state = i₂.state :=
  (Roster.forall₂_toList_iff.mp (map_eq_iff_forall₂.mp hk.states)).2 t i₁ i₂ h₁ h₂

theorem exists_thread {t : ThreadId} {i₁ : Thread} (h₁ : k₁.threads.get? t = some i₁) :
    ∃ i₂, k₂.threads.get? t = some i₂ := by
  rw [← Option.isSome_iff_exists, ← hk.isSome_thread, h₁]
  rfl

theorem atomicOwner_eq : k₁.atomic.owner = k₂.atomic.owner := by
  have howner := hk.owner
  have hknown := isOk_atomicOwnerName.mp (howner ▸ isOk_atomicOwnerName.mpr hk.ownerKnown)
  unfold atomicOwnerName at howner
  cases h₁ : k₁.atomic.owner with
  | none =>
    cases h₂ : k₂.atomic.owner with
    | none => rfl
    | some u =>
      obtain ⟨i₂, hi₂⟩ := Option.isSome_iff_exists.mp (hknown u h₂)
      rw [h₁, h₂] at howner
      dsimp only at howner
      rw [get_eq_ok.mpr hi₂] at howner
      cases howner
  | some t =>
    obtain ⟨i₁, hi₁⟩ := Option.isSome_iff_exists.mp (hk.ownerKnown t h₁)
    rw [h₁] at howner
    dsimp only at howner
    rw [get_eq_ok.mpr hi₁] at howner
    cases h₂ : k₂.atomic.owner with
    | none =>
      rw [h₂] at howner
      cases howner
    | some u =>
      obtain ⟨i₂, hi₂⟩ := Option.isSome_iff_exists.mp (hknown u h₂)
      obtain ⟨i₁', hi₁'⟩ := Option.isSome_iff_exists.mp
        ((hk.isSome_thread u).trans (Option.isSome_iff_exists.mpr ⟨i₂, hi₂⟩))
      rw [h₂] at howner
      dsimp only at howner
      rw [get_eq_ok.mpr hi₂] at howner
      have hgid : i₁.gid = i₂.gid := by simpa [bind, Except.bind, pure, Except.pure] using howner
      rw [hk.named₁.distinctThreads t u i₁ i₁' hi₁ hi₁' (hgid.trans (hk.alike hi₁' hi₂).gid.symm)]

theorem encode_edit_iff (h₁ : k₁.Edit k₁' f₁ g₁ a₁) (h₂ : k₂.Edit k₂' f₂ g₂ a₂)
    (ha : a₁.owner = a₂.owner) (hknown : ∀ t, a₁.owner = some t → (k₁.threads.get? t).isSome)
    (hf : ∀ t i₁ i₂, k₁.threads.get? t = some i₁ → k₂.threads.get? t = some i₂ →
      i₁.Alike k₁.heap k₂.heap P i₂ → (f₁ t i₁).Alike k₁.heap k₂.heap P (f₂ t i₂)) :
    k₁'.encode = k₂'.encode ↔ ∀ t i₁ i₂, k₁.threads.get? t = some i₁ → k₂.threads.get? t = some i₂ →
      (f₁ t i₁).state = (f₂ t i₂).state := by
  have hsome : ∀ t, (k₁'.threads.get? t).isSome = (k₂'.threads.get? t).isSome := by
    intro t
    rw [h₁.isSome_thread, h₂.isSome_thread, hk.isSome_thread]
  have hname : k₁'.atomicOwnerName = k₂'.atomicOwnerName := by
    apply atomicOwnerName_congr
    · rw [h₁.atomic, h₂.atomic, ha]
    · rw [Roster.forall₂_toList_iff]
      refine ⟨hsome, ?_⟩
      intro t i₁' i₂' hi₁' hi₂'
      obtain ⟨i₁, hi₁, rfl⟩ := h₁.of_thread hi₁'
      obtain ⟨i₂, hi₂, rfl⟩ := h₂.of_thread hi₂'
      exact (hf t i₁ i₂ hi₁ hi₂ (hk.alike hi₁ hi₂)).gid
  -- otherwise both encodings would fail
  have hok : k₁'.atomicOwnerName.isOk = true := by
    rw [isOk_atomicOwnerName, h₁.atomic]
    intro t ht
    rw [h₁.isSome_thread]
    exact hknown t ht
  rw [(hk.toAlike.edit h₁ h₂ hname hf).encode_eq_iff, hok, map_eq_iff_forall₂, Roster.forall₂_toList_iff]
  constructor
  · rintro (h | ⟨-, h⟩)
    · cases h
    · intro t i₁ i₂ hi₁ hi₂
      exact h t _ _ (by rw [h₁.threads, hi₁]; rfl) (by rw [h₂.threads, hi₂]; rfl)
  · intro h
    refine .inr ⟨hsome, ?_⟩
    intro t i₁' i₂' hi₁' hi₂'
    obtain ⟨i₁, hi₁, rfl⟩ := h₁.of_thread hi₁'
    obtain ⟨i₂, hi₂, rfl⟩ := h₂.of_thread hi₂'
    exact h t i₁ i₂ hi₁ hi₂

variable {o₁ o₂ : Ref} {e₁ e₂ : Element}

theorem owner_eq (he₁ : k₁.heap.get? o₁ = some e₁) (he₂ : k₂.heap.get? o₂ = some e₂)
    (hgid : e₁.gid = e₂.gid) : e₁.monitor.owner = e₂.monitor.owner := by
  ext t
  rw [hk.owned₁.owner o₁ e₁ he₁ t, hk.owned₂.owner o₂ e₂ he₂ t]
  have hmem : ∀ {i₁ i₂}, k₁.threads.get? t = some i₁ → k₂.threads.get? t = some i₂ →
      (o₁ ∈ i₁.lockedObjects ↔ o₂ ∈ i₂.lockedObjects) := by
    intro i₁ i₂ hi₁ hi₂
    rw [hk.named₁.distinctObjects.mem_iff he₁, hk.named₂.distinctObjects.mem_iff he₂, hgid]
    exact (hk.alike hi₁ hi₂).locked.mem_iff
  constructor
  · intro ⟨i₁, hi₁, ho⟩
    obtain ⟨i₂, hi₂⟩ := hk.exists_thread hi₁
    exact ⟨i₂, hi₂, (hmem hi₁ hi₂).mp ho⟩
  · intro ⟨i₂, hi₂, ho⟩
    obtain ⟨i₁, hi₁⟩ := Option.isSome_iff_exists.mp ((hk.isSome_thread t).trans (by simp [hi₂]))
    exact ⟨i₁, hi₁, (hmem hi₁ hi₂).mpr ho⟩

theorem alike_removeLocked (he₁ : k₁.heap.get? o₁ = some e₁) (he₂ : k₂.heap.get? o₂ = some e₂)
    (hgid : e₁.gid = e₂.gid) {i₁ i₂ : Thread} (hi : i₁.Alike k₁.heap k₂.heap P i₂) :
    (i₁.removeLocked o₁).Alike k₁.heap k₂.heap P (i₂.removeLocked o₂) := by
  refine ⟨hi.object, hi.frames, hi.gid, hi.interrupted, hi.suspended, hi.permit, hi.lockObject, ?_⟩
  rw [hk.named₁.distinctObjects.names_removeLocked he₁, hk.named₂.distinctObjects.names_removeLocked he₂,
    hgid]
  exact hi.locked.filter _

theorem alike_addLocked (he₁ : k₁.heap.get? o₁ = some e₁) (he₂ : k₂.heap.get? o₂ = some e₂)
    (hgid : e₁.gid = e₂.gid) {i₁ i₂ : Thread} (hi : i₁.Alike k₁.heap k₂.heap P i₂) :
    (i₁.addLocked o₁).Alike k₁.heap k₂.heap P (i₂.addLocked o₂) := by
  have hmem : o₁ ∈ i₁.lockedObjects ↔ o₂ ∈ i₂.lockedObjects := by
    rw [hk.named₁.distinctObjects.mem_iff he₁, hk.named₂.distinctObjects.mem_iff he₂, hgid]
    exact hi.locked.mem_iff
  unfold Thread.addLocked
  simp only [hmem]
  split
  · exact hi
  · refine ⟨hi.object, hi.frames, hi.gid, hi.interrupted, hi.suspended, hi.permit, hi.lockObject, ?_⟩
    have hname : k₁.heap.nameOf? o₁ = k₂.heap.nameOf? o₂ := by simp [Heap.nameOf?, he₁, he₂, hgid]
    rw [List.map_append, List.map_append, List.map_singleton, List.map_singleton, hname]
    exact hi.locked.append_right _

end Twins

end Kernel

inductive MonitorOp where
  | lock
  | unlock
  | wait
  | notify
  | notifyAll
  | terminate
  deriving DecidableEq, Repr

inductive MonitorResult where
  | entry (outcome : LockOutcome)
  | freed (flag : Bool)
  | woken (waiter : Option ThreadId)
  | count (waiters : Nat)
  | done
  deriving DecidableEq, Repr

def KernelError.Same (h₁ h₂ : Heap) : KernelError → KernelError → Prop
  | .notOwner t₁ o₁, .notOwner t₂ o₂ => t₁ = t₂ ∧ h₁.nameOf? o₁ = h₂.nameOf? o₂
  | error₁, error₂ => error₁ = error₂

def Fault.Same (h₁ h₂ : Heap) : Fault → Fault → Prop
  | .deadReference o₁, .deadReference o₂ => h₁.nameOf? o₁ = h₂.nameOf? o₂
  | fault₁, fault₂ => fault₁ = fault₂

namespace Kernel

def attempt (k : Kernel) (op : MonitorOp) (t : ThreadId) (o : Ref) :
    Except Fault (Attempt MonitorResult) :=
  match op with
  | .lock => (fun (r, k) => (.ok (.entry r), k)) <$> k.lock t o
  | .unlock => (fun (r, k) => (r.map .freed, k)) <$> k.unlock t o
  | .wait => (fun (r, k) => (r.map fun _ => .done, k)) <$> k.wait t o
  | .notify => (fun (r, k) => (r.map .woken, k)) <$> k.notify t o
  | .notifyAll => (fun (r, k) => (r.map .count, k)) <$> k.notifyAll t o
  | .terminate => (fun (r, k) => (r.map fun _ => .done, k)) <$> k.terminateThread t

/-- The attempts in `k₁` and `k₂` have the same result and lead to states with the same encoding. -/
def Agree (k₁ k₂ : Kernel) : Except Fault (Attempt MonitorResult) → Except Fault (Attempt MonitorResult) → Prop
  | .ok (.ok r₁, k₁'), .ok (.ok r₂, k₂') => r₁ = r₂ ∧ k₁'.encode = k₂'.encode
  | .ok (.error e₁, k₁'), .ok (.error e₂, k₂') =>
    e₁.Same k₁.heap k₂.heap e₂ ∧ k₁'.encode = k₂'.encode
  | .error f₁, .error f₂ => f₁.Same k₁.heap k₂.heap f₂
  | _, _ => False

def Wakeable (k : Kernel) (u : ThreadId) : Prop :=
  ∃ info, k.threads.get? u = some info ∧ info.state.woken ≠ info.state

def EndWakes (k : Kernel) (t u : ThreadId) : Prop :=
  ∃ info, k.threads.get? t = some info ∧
    ((∃ e, k.heap.get? info.object = some e ∧ u ∈ e.monitor.waiters) ∨
      (t ≠ u ∧ k.Wakeable u ∧ u ∈ info.lockedObjects.flatMap k.requestsOf))

/-- The states agree on what `op` reads of the monitors `m₁` and `m₂` and is not encoded: the number of
entries, who wants the monitor, who waits on it and in which order. -/
def SameHidden (k₁ k₂ : Kernel) (t : ThreadId) (m₁ m₂ : Monitor) : MonitorOp → Prop
  | .lock => True
  | .unlock => m₁.owner = some t → (m₁.count ≤ 1 ↔ m₂.count ≤ 1) ∧
      (m₁.count ≤ 1 → ∀ u, k₁.Wakeable u → (u ∈ m₁.requests ↔ u ∈ m₂.requests))
  | .wait => m₁.owner = some t →
      ∀ u, t ≠ u → k₁.Wakeable u → (u ∈ m₁.requests ↔ u ∈ m₂.requests)
  | .notify => m₁.owner = some t → m₁.waiters.head? = m₂.waiters.head?
  | .notifyAll => m₁.owner = some t → m₁.waiters.length = m₂.waiters.length ∧
      ∀ u info, k₁.threads.get? u = some info → info.state ≠ .notified →
        (u ∈ m₁.waiters ↔ u ∈ m₂.waiters)
  | .terminate => ∀ info, k₁.threads.get? t = some info → info.isAlive = true →
      (k₁.heap.get? info.object).isSome → ∀ u, (t = u ∨ ∃ info, k₁.threads.get? u = some info ∧
        info.state ≠ .unblocked) → (k₁.EndWakes t u ↔ k₂.EndWakes t u)

theorem ite_state_eq_iff {s s' : ThreadState} {p q : Prop} [Decidable p] [Decidable q] :
    (if p then s' else s) = (if q then s' else s) ↔ (s' ≠ s → (p ↔ q)) := by
  by_cases hs : s' = s
  · simp [hs]
  · by_cases hp : p <;> by_cases hq : q <;> simp [hp, hq, hs, Ne.symm hs]

theorem state_ite_awake (info : Thread) {p : Prop} [Decidable p] :
    (if p then info.awake else info).state = if p then info.state.woken else info.state := by
  split <;> rfl

theorem state_ite (info : Thread) {p : Prop} [Decidable p] {s : ThreadState} :
    (if p then { info with state := s } else info).state = if p then s else info.state := by
  split <;> rfl

theorem state_ended_eq (t : ThreadId) (requesters joiners : List ThreadId) (u : ThreadId) (info : Thread) :
    (ended t requesters joiners u info).state =
      if u ∈ joiners ∨ t ≠ u ∧ info.state.woken ≠ info.state ∧ u ∈ requesters then .unblocked
      else if t = u then .terminated else info.state := by
  have hwoken : info.state.woken = info.state ∨ info.state.woken = .unblocked := by
    cases info.state <;> simp [ThreadState.woken]
  unfold ended onThread
  by_cases hj : u ∈ joiners
  · simp [hj]
  · by_cases htu : t = u
    · simp [hj, htu, Thread.atEnd]
    · by_cases hr : u ∈ requesters
      · by_cases hs : info.state.woken = info.state
        · simp [hj, htu, hr, hs, Thread.awake]
        · simp [hj, htu, hr, Thread.awake, hwoken.resolve_left hs]
      · simp [hj, htu, hr]

theorem endWakes_iff {k : Kernel} {t u : ThreadId} {info info' : Thread} {e : Element}
    (ht : k.threads.get? t = some info) (he : k.heap.get? info.object = some e)
    (hu : k.threads.get? u = some info') : k.EndWakes t u ↔ u ∈ e.monitor.waiters ∨
      t ≠ u ∧ info'.state.woken ≠ info'.state ∧ u ∈ info.lockedObjects.flatMap k.requestsOf := by
  unfold EndWakes Wakeable
  simp [ht, he, hu]

namespace Twins

section

variable {k₁ k₂ : Kernel} {P : Nat → Nat → Prop} (hk : k₁.Twins k₂ P) {o₁ o₂ : Ref} {e₁ e₂ : Element}
  (he₁ : k₁.heap.get? o₁ = some e₁) (he₂ : k₂.heap.get? o₂ = some e₂) (hgid : e₁.gid = e₂.gid)
  {t : ThreadId} {i₁ i₂ : Thread} (hi₁ : k₁.threads.get? t = some i₁)
  (hi₂ : k₂.threads.get? t = some i₂)

theorem same_notOwner (he₁ : k₁.heap.get? o₁ = some e₁) (he₂ : k₂.heap.get? o₂ = some e₂)
    (hgid : e₁.gid = e₂.gid) (t : ThreadId) :
    (KernelError.notOwner t o₁).Same k₁.heap k₂.heap (.notOwner t o₂) :=
  ⟨rfl, by simp [Heap.nameOf?, he₁, he₂, hgid]⟩

include hk

theorem encode_wake_iff {k₁' k₂' : Kernel} {f₁ f₂ : Thread → Thread} {l₁ l₂ : List ThreadId}
    {g₁ g₂ : Nat → Monitor → Monitor}
    (h₁ : k₁.Edit k₁' (fun u info =>
      let info := onThread t f₁ u info
      if u ∈ l₁ then info.awake else info) g₁ k₁.atomic)
    (h₂ : k₂.Edit k₂' (fun u info =>
      let info := onThread t f₂ u info
      if u ∈ l₂ then info.awake else info) g₂ k₂.atomic)
    (hf : ∀ j₁ j₂, j₁.Alike k₁.heap k₂.heap P j₂ → (f₁ j₁).Alike k₁.heap k₂.heap P (f₂ j₂))
    (hstate : ∀ j₁ j₂, j₁.state = j₂.state → (f₁ j₁).state = (f₂ j₂).state) :
    k₁'.encode = k₂'.encode ↔ ∀ u info, k₁.threads.get? u = some info →
      (onThread t f₁ u info).state.woken ≠ (onThread t f₁ u info).state → (u ∈ l₁ ↔ u ∈ l₂) := by
  have hsame : ∀ u j₁ j₂, k₁.threads.get? u = some j₁ → k₂.threads.get? u = some j₂ →
      (onThread t f₁ u j₁).state = (onThread t f₂ u j₂).state := by
    intro u j₁ j₂ hj₁ hj₂
    unfold onThread
    split
    · exact hstate j₁ j₂ (hk.state_eq hj₁ hj₂)
    · exact hk.state_eq hj₁ hj₂
  rw [hk.encode_edit_iff h₁ h₂ hk.atomicOwner_eq hk.ownerKnown fun u j₁ j₂ _ _ hj =>
    (hj.onThread fun _ => hf j₁ j₂ hj).awake]
  constructor
  · intro h u j₁ hj₁
    obtain ⟨j₂, hj₂⟩ := hk.exists_thread hj₁
    have := h u j₁ j₂ hj₁ hj₂
    rwa [state_ite_awake, state_ite_awake, ← hsame u j₁ j₂ hj₁ hj₂, ite_state_eq_iff] at this
  · intro h u j₁ j₂ hj₁ hj₂
    rw [state_ite_awake, state_ite_awake, ← hsame u j₁ j₂ hj₁ hj₂, ite_state_eq_iff]
    exact h u j₁ hj₁

include he₁ he₂ hgid hi₁ hi₂

theorem agree_lock : k₁.Agree k₂ (k₁.attempt .lock t o₁) (k₂.attempt .lock t o₂) := by
  have hcan : e₁.monitor.canEnter t = e₂.monitor.canEnter t := by
    unfold Monitor.canEnter
    rw [hk.owner_eq he₁ he₂ hgid]
  cases h : e₁.monitor.canEnter t with
  | true =>
    obtain ⟨k₁', h₁, hedit₁⟩ := lock_of_canEnter he₁ hi₁ h
    obtain ⟨k₂', h₂, hedit₂⟩ := lock_of_canEnter he₂ hi₂ (hcan ▸ h)
    have hencode : k₁'.encode = k₂'.encode := by
      rw [hk.encode_edit_iff hedit₁ hedit₂ hk.atomicOwner_eq hk.ownerKnown]
      · intro u j₁ j₂ hj₁ hj₂
        unfold onThread entered
        split <;> simp [hk.state_eq hj₁ hj₂]
      · intro u j₁ j₂ _ _ hj
        apply hj.onThread
        intro _
        have hadd := hk.alike_addLocked he₁ he₂ hgid hj
        exact ⟨hadd.object, hadd.frames, hadd.gid, hadd.interrupted, hadd.suspended, hadd.permit, rfl,
          hadd.locked⟩
    unfold attempt
    rw [h₁, h₂]
    exact ⟨rfl, hencode⟩
  | false =>
    obtain ⟨k₁', h₁, hedit₁⟩ := lock_of_not_canEnter he₁ (by simp [hi₁]) h
    obtain ⟨k₂', h₂, hedit₂⟩ := lock_of_not_canEnter he₂ (by simp [hi₂]) (hcan ▸ h)
    have hencode : k₁'.encode = k₂'.encode := by
      rw [hk.encode_edit_iff hedit₁ hedit₂ hk.atomicOwner_eq hk.ownerKnown]
      · intro u j₁ j₂ hj₁ hj₂
        unfold onThread
        split
        · rfl
        · exact hk.state_eq hj₁ hj₂
      · intro u j₁ j₂ _ _ hj
        apply hj.onThread
        intro _
        exact ⟨hj.object, hj.frames, hj.gid, hj.interrupted, hj.suspended, hj.permit,
          by simp [Heap.nameOf?, he₁, he₂, hgid], hj.locked⟩
    unfold attempt
    rw [h₁, h₂]
    exact ⟨rfl, hencode⟩

theorem agree_unlock_iff : k₁.Agree k₂ (k₁.attempt .unlock t o₁) (k₂.attempt .unlock t o₂) ↔
    k₁.SameHidden k₂ t e₁.monitor e₂.monitor .unlock := by
  have howner := hk.owner_eq he₁ he₂ hgid
  have hknown₁ := hk.owned₁.requests_known he₁
  have hknown₂ := hk.owned₂.requests_known he₂
  unfold attempt SameHidden
  by_cases ho : e₁.monitor.owner = some t
  · have ho₂ := howner ▸ ho
    simp only [ho, true_imp_iff]
    -- the result says whether the monitor is free now
    rcases Nat.lt_or_ge 1 e₁.monitor.count with hc₁ | hc₁
    · obtain ⟨k₁', h₁, hedit₁⟩ := unlock_of_entered he₁ ho hc₁
      rw [h₁]
      rcases Nat.lt_or_ge 1 e₂.monitor.count with hc₂ | hc₂
      · obtain ⟨k₂', h₂, hedit₂⟩ := unlock_of_entered he₂ ho₂ hc₂
        have hencode := hk.encode_edit_iff hedit₁ hedit₂ hk.atomicOwner_eq hk.ownerKnown
          fun _ _ _ _ _ hj => hj
        rw [h₂]
        refine ⟨fun _ => ⟨by omega, by omega⟩, fun _ => ⟨rfl, ?_⟩⟩
        exact hencode.mpr fun u j₁ j₂ => hk.state_eq
      · obtain ⟨k₂', h₂, -⟩ := unlock_of_enteredOnce he₂ (by simp [hi₂]) ho₂ hc₂ hknown₂
        rw [h₂]
        exact ⟨fun h => (by cases h.1), fun h => absurd (h.1.mpr hc₂) (by omega)⟩
    · obtain ⟨k₁', h₁, hedit₁⟩ := unlock_of_enteredOnce he₁ (by simp [hi₁]) ho hc₁ hknown₁
      rw [h₁]
      rcases Nat.lt_or_ge 1 e₂.monitor.count with hc₂ | hc₂
      · obtain ⟨k₂', h₂, -⟩ := unlock_of_entered he₂ ho₂ hc₂
        rw [h₂]
        exact ⟨fun h => (by cases h.1), fun h => absurd (h.1.mp hc₁) (by omega)⟩
      · obtain ⟨k₂', h₂, hedit₂⟩ := unlock_of_enteredOnce he₂ (by simp [hi₂]) ho₂ hc₂ hknown₂
        have hencode := hk.encode_wake_iff hedit₁ hedit₂
          (fun _ _ hj => hk.alike_removeLocked he₁ he₂ hgid hj) fun _ _ hs => hs
        have hstate : ∀ u info, (onThread t (·.removeLocked o₁) u info).state = info.state := by
          intro u info
          unfold onThread
          split <;> rfl
        simp only [hstate] at hencode
        rw [h₂]
        constructor
        · intro h
          refine ⟨by omega, fun _ u ⟨info, hinfo, hs⟩ => hencode.mp h.2 u info hinfo hs⟩
        · intro h
          exact ⟨rfl, hencode.mpr fun u info hinfo hs => h.2 hc₁ u ⟨info, hinfo, hs⟩⟩
  · rw [unlock_of_not_owner he₁ ho, unlock_of_not_owner he₂ (howner ▸ ho)]
    exact ⟨fun _ h => absurd h ho, fun _ => ⟨same_notOwner he₁ he₂ hgid t, hk.encode_eq⟩⟩

theorem agree_wait_iff : k₁.Agree k₂ (k₁.attempt .wait t o₁) (k₂.attempt .wait t o₂) ↔
    k₁.SameHidden k₂ t e₁.monitor e₂.monitor .wait := by
  have howner := hk.owner_eq he₁ he₂ hgid
  unfold attempt SameHidden wait
  by_cases ho : e₁.monitor.owner = some t
  · obtain ⟨k₁', h₁, hedit₁⟩ := enterWait_of_owner .waiting he₁ (by simp [hi₁]) ho
      (hk.owned₁.requests_known he₁)
    obtain ⟨k₂', h₂, hedit₂⟩ := enterWait_of_owner .waiting he₂ (by simp [hi₂]) (howner ▸ ho)
      (hk.owned₂.requests_known he₂)
    have hencode := hk.encode_wake_iff hedit₁ hedit₂ (by
      intro j₁ j₂ hj
      have hremove := hk.alike_removeLocked he₁ he₂ hgid hj
      exact ⟨hremove.object, hremove.frames, hremove.gid, hremove.interrupted, hremove.suspended,
        hremove.permit, by simp [Heap.nameOf?, he₁, he₂, hgid], hremove.locked⟩) fun _ _ _ => rfl
    rw [h₁, h₂]
    constructor
    · intro h _ u htu ⟨info, hinfo, hs⟩
      apply hencode.mp h.2 u info hinfo
      rwa [onThread, if_neg htu]
    · intro h
      refine ⟨rfl, hencode.mpr ?_⟩
      intro u info hinfo hs
      by_cases htu : t = u
      · -- `t` waits now, so that it is not woken even if it wants the monitor
        rw [onThread, if_pos htu] at hs
        exact absurd rfl hs
      · rw [onThread, if_neg htu] at hs
        exact h ho u htu ⟨info, hinfo, hs⟩
  · rw [enterWait_of_not_owner he₁ ho, enterWait_of_not_owner he₂ (howner ▸ ho)]
    exact ⟨fun _ h => absurd h ho, fun _ => ⟨same_notOwner he₁ he₂ hgid t, hk.encode_eq⟩⟩

omit hi₁ hi₂ in
theorem agree_notify_iff : k₁.Agree k₂ (k₁.attempt .notify t o₁) (k₂.attempt .notify t o₂) ↔
    k₁.SameHidden k₂ t e₁.monitor e₂.monitor .notify := by
  have howner := hk.owner_eq he₁ he₂ hgid
  unfold attempt SameHidden
  by_cases ho : e₁.monitor.owner = some t
  · obtain ⟨k₁', g₁, h₁, hedit₁, -⟩ := notify_of_owner he₁ ho (hk.owned₁.waiters_known he₁)
    obtain ⟨k₂', g₂, h₂, hedit₂, -⟩ := notify_of_owner he₂ (howner ▸ ho) (hk.owned₂.waiters_known he₂)
    have hencode := hk.encode_edit_iff hedit₁ hedit₂ hk.atomicOwner_eq hk.ownerKnown
      fun _ _ _ _ _ hj => hj.ite
    rw [h₁, h₂]
    constructor
    · intro h _
      exact MonitorResult.woken.inj h.1
    · intro h
      refine ⟨congrArg MonitorResult.woken (h ho), hencode.mpr ?_⟩
      intro u j₁ j₂ hj₁ hj₂
      rw [state_ite, state_ite, h ho, hk.state_eq hj₁ hj₂]
  · rw [notify_of_not_owner he₁ ho, notify_of_not_owner he₂ (howner ▸ ho)]
    exact ⟨fun _ h => absurd h ho, fun _ => ⟨same_notOwner he₁ he₂ hgid t, hk.encode_eq⟩⟩

omit hi₁ hi₂ in
theorem agree_notifyAll_iff :
    k₁.Agree k₂ (k₁.attempt .notifyAll t o₁) (k₂.attempt .notifyAll t o₂) ↔
      k₁.SameHidden k₂ t e₁.monitor e₂.monitor .notifyAll := by
  have howner := hk.owner_eq he₁ he₂ hgid
  unfold attempt SameHidden
  by_cases ho : e₁.monitor.owner = some t
  · obtain ⟨k₁', g₁, h₁, hedit₁, -⟩ := notifyAll_of_owner he₁ ho (hk.owned₁.waiters_known he₁)
    obtain ⟨k₂', g₂, h₂, hedit₂, -⟩ := notifyAll_of_owner he₂ (howner ▸ ho) (hk.owned₂.waiters_known he₂)
    have hencode := hk.encode_edit_iff hedit₁ hedit₂ hk.atomicOwner_eq hk.ownerKnown
      fun _ _ _ _ _ hj => hj.ite
    rw [h₁, h₂]
    constructor
    · intro h _
      refine ⟨MonitorResult.count.inj h.1, ?_⟩
      intro u j₁ hj₁ hs
      obtain ⟨j₂, hj₂⟩ := hk.exists_thread hj₁
      have hstate := hencode.mp h.2 u j₁ j₂ hj₁ hj₂
      rw [state_ite, state_ite, ← hk.state_eq hj₁ hj₂, ite_state_eq_iff] at hstate
      exact hstate hs.symm
    · intro h
      refine ⟨congrArg MonitorResult.count (h ho).1, hencode.mpr ?_⟩
      intro u j₁ j₂ hj₁ hj₂
      rw [state_ite, state_ite, ← hk.state_eq hj₁ hj₂, ite_state_eq_iff]
      intro hs
      exact (h ho).2 u j₁ hj₁ hs.symm
  · rw [notifyAll_of_not_owner he₁ ho, notifyAll_of_not_owner he₂ (howner ▸ ho)]
    exact ⟨fun _ h => absurd h ho, fun _ => ⟨same_notOwner he₁ he₂ hgid t, hk.encode_eq⟩⟩

omit he₁ he₂ hgid in
theorem object_cases : (k₁.heap.get? i₁.object = none ∧ k₂.heap.get? i₂.object = none) ∨
    ∃ e₁ e₂, k₁.heap.get? i₁.object = some e₁ ∧ k₂.heap.get? i₂.object = some e₂ := by
  have hobject := (hk.alike hi₁ hi₂).object
  unfold Ref.Corresponds at hobject
  rw [Heap.get?_eq_bind_slot?, Heap.get?_eq_bind_slot?]
  generalize k₁.heap.slot? i₁.object = s₁ at hobject
  generalize k₂.heap.slot? i₂.object = s₂ at hobject
  cases hobject with
  | none => exact .inl ⟨rfl, rfl⟩
  | some hij =>
    obtain ⟨e₁, e₂, he₁, he₂, -⟩ := hk.objects _ _ hij
    exact .inr ⟨e₁, e₂, he₁, he₂⟩

omit he₁ he₂ hgid in
theorem agree_terminate_iff (m₁ m₂ : Monitor) :
    k₁.Agree k₂ (k₁.attempt .terminate t o₁) (k₂.attempt .terminate t o₂) ↔
      k₁.SameHidden k₂ t m₁ m₂ .terminate := by
  have hstate := hk.state_eq hi₁ hi₂
  unfold attempt SameHidden
  cases halive : i₁.isAlive with
  | false =>
    have halive₂ : i₂.isAlive = false := by
      unfold Thread.isAlive at halive ⊢
      rwa [← hstate]
    rw [terminateThread_of_not_alive hi₁ halive, terminateThread_of_not_alive hi₂ halive₂]
    refine ⟨fun _ info hinfo ha => ?_, fun _ => ⟨rfl, hk.encode_eq⟩⟩
    rw [hi₁] at hinfo
    cases hinfo
    rw [halive] at ha
    cases ha
  | true =>
    have halive₂ : i₂.isAlive = true := by
      unfold Thread.isAlive at halive ⊢
      rwa [← hstate]
    have hlive₁ := hk.owned₁.live t i₁ hi₁
    have hlive₂ := hk.owned₂.live t i₂ hi₂
    have hknown₁ : ∀ o ∈ i₁.lockedObjects, _ := fun o _ => hk.owned₁.requestsOf_known o
    have hknown₂ : ∀ o ∈ i₂.lockedObjects, _ := fun o _ => hk.owned₂.requestsOf_known o
    rcases hk.object_cases hi₁ hi₂ with ⟨hd₁, hd₂⟩ | ⟨e₁, e₂, he₁, he₂⟩
    · rw [terminateThread_of_dead hi₁ halive hlive₁ hknown₁ hd₁,
        terminateThread_of_dead hi₂ halive₂ hlive₂ hknown₂ hd₂]
      refine ⟨fun _ info hinfo _ hl => ?_, fun _ => hk.nameOf? (hk.alike hi₁ hi₂).object⟩
      rw [hi₁] at hinfo
      cases hinfo
      simp [hd₁] at hl
    · obtain ⟨k₁', g₁, h₁, hedit₁, -⟩ := terminateThread_of_live hi₁ halive hlive₁ hknown₁ he₁
        (hk.owned₁.waiters_known he₁)
      obtain ⟨k₂', g₂, h₂, hedit₂, -⟩ := terminateThread_of_live hi₂ halive₂ hlive₂ hknown₂ he₂
        (hk.owned₂.waiters_known he₂)
      have hencode := hk.encode_edit_iff hedit₁ hedit₂
        (by rw [hk.atomicOwner_eq]; split <;> simp [hk.atomicOwner_eq])
        (by
          split
          · simp
          · exact hk.ownerKnown)
        fun u _ _ _ _ hj => hj.ended t u _ _ _ _
      rw [h₁, h₂]
      -- being woken shows in the state of `u`, unless it is unblocked anyway
      have hshows : ∀ {u j₁ j₂}, k₁.threads.get? u = some j₁ → k₂.threads.get? u = some j₂ →
          ((ended t (i₁.lockedObjects.flatMap k₁.requestsOf) e₁.monitor.waiters u j₁).state =
              (ended t (i₂.lockedObjects.flatMap k₂.requestsOf) e₂.monitor.waiters u j₂).state ↔
            (t = u ∨ j₁.state ≠ .unblocked → (k₁.EndWakes t u ↔ k₂.EndWakes t u))) := by
        intro u j₁ j₂ hj₁ hj₂
        rw [state_ended_eq, state_ended_eq, ← hk.state_eq hj₁ hj₂, ite_state_eq_iff,
          endWakes_iff hi₁ he₁ hj₁, endWakes_iff hi₂ he₂ hj₂, hk.state_eq hj₁ hj₂]
        apply imp_congr_left
        by_cases htu : t = u
        · simp [htu]
        · simp [htu, eq_comm]
      constructor
      · rintro ⟨-, h⟩ info hinfo - - u hu
        obtain ⟨j₁, hj₁, hu⟩ : ∃ j₁, k₁.threads.get? u = some j₁ ∧ (t = u ∨ j₁.state ≠ .unblocked) := by
          rcases hu with rfl | ⟨j₁, hj₁, hs⟩
          · exact ⟨i₁, hi₁, .inl rfl⟩
          · exact ⟨j₁, hj₁, .inr hs⟩
        obtain ⟨j₂, hj₂⟩ := hk.exists_thread hj₁
        exact (hshows hj₁ hj₂).mp (hencode.mp h u j₁ j₂ hj₁ hj₂) hu
      · intro h
        refine ⟨rfl, hencode.mpr ?_⟩
        intro u j₁ j₂ hj₁ hj₂
        rw [hshows hj₁ hj₂]
        intro hu
        exact h i₁ hi₁ halive (by simp [he₁]) u (hu.imp_right fun hs => ⟨j₁, hj₁, hs⟩)

end

end Twins

theorem Comparable.twins {k₁ k₂ : Kernel} (hk : k₁.Comparable k₂)
    (hb₁ : Built (fun k op => op.IsProper k) k₁) (hb₂ : Built (fun k op => op.IsProper k) k₂)
    {w : List Int32} (he₁ : k₁.encode = .ok w) (he₂ : k₂.encode = .ok w) :
    k₁.Twins k₂ (k₁.VisitedAlike k₂) := by
  have hunique := Heap.SameName.biUnique (Named.built hb₁).distinctObjects
    (Named.built hb₂).distinctObjects
  refine ⟨(hk.corresponds_of_encode (.built hb₁) (.built hb₂) hunique he₁ he₂).1, .built hb₁, .built hb₂,
    .built hb₁, .built hb₂, ?_⟩
  rw [← isOk_atomicOwnerName]
  obtain ⟨n, hname, -⟩ := encode_eq_ok.mp he₁
  rw [hname]
  rfl

def enteredOnce : Kernel :=
  (withLimit none).performAll [.newArray .int 1 none none, .createThread "main" none none,
    .start 0 { method := 0, pc := some 0, slots := #[0], refs := ⟨1⟩, locals := 1 }, .lock 0 ⟨0⟩]

def enteredTwice : Kernel := enteredOnce.performAll [.lock 0 ⟨0⟩]

theorem built_enteredOnce : Built (fun k op => op.IsProper k) enteredOnce := by
  apply (Built.start none {}).performAll
  simp [Op.IsProper, Op.KeepsArrayNames]

theorem built_enteredTwice : Built (fun k op => op.IsProper k) enteredTwice := by
  apply built_enteredOnce.performAll
  simp [Op.IsProper, Op.KeepsArrayNames]

theorem comparable_entered : enteredOnce.Comparable enteredTwice where
  classes := by decide +kernel
  fits₁ := by constructor <;> decide +kernel
  fits₂ := by constructor <;> decide +kernel
  marks := by decide +kernel

theorem encode_entered : ∃ w, enteredOnce.encode = .ok w ∧ enteredTwice.encode = .ok w := by
  have hw : enteredOnce.encode.toOption = enteredTwice.encode.toOption := by decide +kernel
  obtain ⟨w, hw₁⟩ : ∃ w, enteredOnce.encode.toOption = some w := by
    rw [← Option.isSome_iff_exists]
    decide +kernel
  exact ⟨w, toOption_eq_some.mp hw₁, toOption_eq_some.mp (hw ▸ hw₁)⟩

theorem Agree.results {k₁ k₂ : Kernel} {a₁ a₂ : Except Fault (Attempt MonitorResult)}
    (h : k₁.Agree k₂ a₁ a₂) :
    a₁.toOption.map (·.1.toOption) = a₂.toOption.map (·.1.toOption) := by
  unfold Agree at h
  split at h
  · simp [Except.toOption, h.1]
  · rfl
  · rfl
  · exact h.elim

end Kernel

end Interleave
