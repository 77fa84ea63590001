import Interleave.Proofs.Encoding.Visit

/-!
States that correspond: a relation between the slots of their heaps matches up everything that an
encoding says about them. Such states have the same encoding, whatever slots their objects occupy.
-/

namespace Interleave

open Relator

def Element.status? (e : Element) : Option InitStatus :=
  match e.kind with
  | .static status _ => some status
  | _ => none

def Element.classRef? (e : Element) : Option Ref :=
  match e.kind with
  | .static _ classObject => some classObject
  | _ => none

def Kernel.atomicOwnerName (k : Kernel) : Except Fault (Option GlobalId) :=
  match k.atomic.owner with
  | none => return none
  | some t => return some (← k.threads.get t).gid

section

variable (h₁ h₂ : Heap) (P : Nat → Nat → Prop)

def Ref.Corresponds (r₁ r₂ : Ref) : Prop := Option.Rel P (h₁.slot? r₁) (h₂.slot? r₂)

structure Cell.Corresponds (c₁ c₂ : Cell) : Prop where
  tag : c₁.2 = c₂.2
  value : c₁.2 = false → c₁.1 = c₂.1
  target : c₁.2 = true → Ref.Corresponds h₁ h₂ P ⟨c₁.1⟩ ⟨c₂.1⟩

structure Element.Corresponds (e₁ e₂ : Element) : Prop where
  gid : e₁.gid = e₂.gid
  classId : e₁.classId = e₂.classId
  length : e₁.length? = e₂.length?
  cells : List.Forall₂ (Cell.Corresponds h₁ h₂ P) e₁.fields.cells e₂.fields.cells

structure Element.StaticCorresponds (e₁ e₂ : Element) : Prop where
  classId : e₁.classId = e₂.classId
  code : e₁.status?.map (·.code) = e₂.status?.map (·.code)
  classRef : Option.Rel (Ref.Corresponds h₁ h₂ P) e₁.classRef? e₂.classRef?
  cells : List.Forall₂ (Cell.Corresponds h₁ h₂ P) e₁.fields.cells e₂.fields.cells

structure Frame.Corresponds (f₁ f₂ : Frame) : Prop where
  method : f₁.method = f₂.method
  pc : f₁.pc = f₂.pc
  cells : List.Forall₂ (Cell.Corresponds h₁ h₂ P) f₁.cells f₂.cells

structure Thread.Alike (t₁ t₂ : Thread) : Prop where
  object : Ref.Corresponds h₁ h₂ P t₁.object t₂.object
  frames : List.Forall₂ (Frame.Corresponds h₁ h₂ P) t₁.frames.toList t₂.frames.toList
  gid : t₁.gid = t₂.gid
  interrupted : t₁.interrupted = t₂.interrupted
  suspended : t₁.suspended = t₂.suspended
  permit : t₁.permit = t₂.permit
  lockObject : t₁.lockObject.bind h₁.nameOf? = t₂.lockObject.bind h₂.nameOf?
  locked : (t₁.lockedObjects.map h₁.nameOf?).Perm (t₂.lockedObjects.map h₂.nameOf?)

end

structure Kernel.Alike (k₁ k₂ : Kernel) (P : Nat → Nat → Prop) : Prop where
  unique : BiUnique P
  objects : ∀ i j, P i j → ∃ e₁ e₂, k₁.heap.arena.get? i = some e₁ ∧ k₂.heap.arena.get? j = some e₂ ∧
    e₁.Corresponds k₁.heap k₂.heap P e₂
  threads : List.Forall₂ (Thread.Alike k₁.heap k₂.heap P) k₁.threads.toList k₂.threads.toList
  loaded : k₁.statics.size = k₂.statics.size
  statics : List.Forall₂ (Element.StaticCorresponds k₁.heap k₂.heap P) k₁.statics.elements
    k₂.statics.elements
  outOfMemory : k₁.heap.outOfMemory = k₂.heap.outOfMemory
  owner : k₁.atomicOwnerName = k₂.atomicOwnerName

structure Kernel.Corresponds (k₁ k₂ : Kernel) (P : Nat → Nat → Prop) : Prop
    extends Kernel.Alike k₁ k₂ P where
  states : k₁.threads.toList.map (·.state) = k₂.threads.toList.map (·.state)

theorem mergeSort_eq_of_perm {l l' : List Int32} (h : l.Perm l') : l.mergeSort = l'.mergeSort := by
  have hsorted : ∀ l : List Int32, l.mergeSort.Pairwise (· ≤ ·) := by
    intro l
    have hpairs := @List.pairwise_mergeSort Int32 (fun a b => decide (a ≤ b))
      (by simpa using fun a b c => Int32.le_trans) (by simpa using Int32.le_total) l
    simpa using hpairs
  apply List.Perm.eq_of_pairwise _ (hsorted l) (hsorted l')
  · exact (List.mergeSort_perm l _).trans (h.trans (List.mergeSort_perm l' _).symm)
  · intro a b _ _
    exact Int32.le_antisymm

theorem map_eq_iff_forall₂ {α β : Type} {f : α → β} {l₁ l₂ : List α} :
    l₁.map f = l₂.map f ↔ List.Forall₂ (fun a b => f a = f b) l₁ l₂ := by
  rw [← List.forall₂_eq_eq_eq, List.forall₂_map_left_iff, List.forall₂_map_right_iff]

theorem flatMap_eq_of_forall₂ {α β γ : Type} {R : α → β → Prop} {f : α → List γ} {g : β → List γ}
    {l₁ : List α} {l₂ : List β} (h : List.Forall₂ R l₁ l₂) (hfg : ∀ a b, R a b → f a = g b) :
    l₁.flatMap f = l₂.flatMap g := by
  induction h with
  | nil => rfl
  | cons hab _ ih => rw [List.flatMap_cons, List.flatMap_cons, hfg _ _ hab, ih]

theorem forall₂_toList {α β : Type} {R : α → β → Prop} {o₁ : Option α} {o₂ : Option β}
    (h : Option.Rel R o₁ o₂) : List.Forall₂ R o₁.toList o₂.toList := by
  cases h with
  | none => exact .nil
  | some hab => exact .cons hab .nil

def Heap.threadTargets (h : Heap) (t : Thread) : List Nat :=
  (h.slot? t.object).toList ++ t.frames.toList.flatMap fun f => f.cells.filterMap h.cellTarget

def Heap.staticTargets (h : Heap) (e : Element) : List Nat :=
  (e.classRef?.bind h.slot?).toList ++ e.fields.cells.filterMap h.cellTarget

theorem Heap.targets_classObject? (h : Heap) (e : Element) :
    h.targets e.classObject?.toList = (e.classRef?.bind h.slot?).toList := by
  unfold Element.classObject? Element.classRef? targets
  cases e.kind with
  | object => rfl
  | array => rfl
  | static status r =>
    cases hr : r.isNull with
    | false => cases hs : h.slot? r <;> simp [hr, hs]
    | true => simp [hr, slot?_eq_none_of_isNull hr]

theorem ThreadState.ordinal_inj {s₁ s₂ : ThreadState} : s₁.ordinal = s₂.ordinal ↔ s₁ = s₂ := by
  cases s₁ <;> cases s₂ <;> decide

namespace Kernel

theorem targets_encodingRoots (k : Kernel) :
    k.heap.targets k.encodingRoots =
      k.threads.toList.flatMap k.heap.threadTargets ++
        k.statics.elements.flatMap k.heap.staticTargets := by
  unfold encodingRoots
  rw [Heap.targets_append, Heap.targets_flatMap, Heap.targets_flatMap]
  congr 2
  · funext t
    rw [Heap.targets_cons, Heap.targets_flatMap]
    unfold Heap.threadTargets
    congr 2
    funext f
    exact k.heap.targets_frameReferences f
  · funext e
    rw [Heap.targets_append, Heap.targets_classObject?, Heap.targets_fieldReferences]
    rfl

theorem atomicOwnerWord_eq (k : Kernel) :
    k.atomicOwnerWord = (fun n => n.elim (-1) wordOf) <$> k.atomicOwnerName := by
  unfold atomicOwnerWord atomicOwnerName
  cases k.atomic.owner with
  | none => rfl
  | some t =>
    dsimp only
    cases k.threads.get t <;> rfl

theorem atomicOwnerName_congr {k₁ k₂ : Kernel} (howner : k₁.atomic.owner = k₂.atomic.owner)
    (hgid : List.Forall₂ (fun t₁ t₂ => t₁.gid = t₂.gid) k₁.threads.toList k₂.threads.toList) :
    k₁.atomicOwnerName = k₂.atomicOwnerName := by
  have hname : ∀ (k : Kernel) (t : ThreadId), (k.threads.get t).map (·.gid) =
      match (k.threads.toList.map (·.gid))[t]? with
      | some g => .ok g
      | none => .error (.unknownThread t) := by
    intro k t
    unfold Roster.get Roster.get? Roster.toList
    rw [List.getElem?_map, Array.getElem?_toList]
    cases k.threads.threads[t]? <;> rfl
  have hgids : k₁.threads.toList.map (·.gid) = k₂.threads.toList.map (·.gid) :=
    map_eq_iff_forall₂.mpr hgid
  unfold atomicOwnerName
  rw [howner]
  cases k₂.atomic.owner with
  | none => rfl
  | some t =>
    have h₁ := hname k₁ t
    have h₂ := hname k₂ t
    rw [hgids, ← h₂] at h₁
    dsimp only
    generalize k₁.threads.get t = o₁ at h₁
    generalize k₂.threads.get t = o₂ at h₁
    cases o₁ <;> cases o₂ <;> simp [Except.map] at h₁
    · rw [h₁]
    · simp [bind, Except.bind, pure, Except.pure, h₁]

def encodedBody (k : Kernel) : List Int32 :=
  k.threads.toList.flatMap k.heap.stackWords ++
    (wordOf k.statics.size :: k.statics.elements.flatMap k.heap.staticWords) ++
    (k.heap.visitOrder k.encodingRoots).flatMap k.heap.wordsAt

theorem encode_eq (k : Kernel) :
    k.encode = (fun n => k.encodedBody ++ (k.threads.toList.flatMap k.heap.threadWords ++
      [if k.heap.outOfMemory then 1 else 0, n.elim (-1) wordOf])) <$> k.atomicOwnerName := by
  unfold encode
  rw [atomicOwnerWord_eq]
  cases k.atomicOwnerName with
  | error e => rfl
  | ok n => simp [Functor.map, Except.map, bind, Except.bind, pure, Except.pure, encodedBody]

theorem encode_eq_ok {k : Kernel} {w : List Int32} :
    k.encode = .ok w ↔ ∃ n, k.atomicOwnerName = .ok n ∧
      k.encodedBody ++ (k.threads.toList.flatMap k.heap.threadWords ++
        [if k.heap.outOfMemory then 1 else 0, n.elim (-1) wordOf]) = w := by
  rw [encode_eq]
  cases k.atomicOwnerName <;> simp [Functor.map, Except.map]

namespace Alike

variable {k₁ k₂ : Kernel} {P : Nat → Nat → Prop}

theorem threadWords_inj {t₁ t₂ : Thread} (ht : t₁.Alike k₁.heap k₂.heap P t₂) {rest₁ rest₂ : List Int32} :
    k₁.heap.threadWords t₁ ++ rest₁ = k₂.heap.threadWords t₂ ++ rest₂ ↔
      t₁.state = t₂.state ∧ rest₁ = rest₂ := by
  have hdepth : t₁.depth = t₂.depth := by
    unfold Thread.depth
    rw [← Array.length_toList, ht.frames.length_eq, Array.length_toList]
  have hlen : t₁.lockedObjects.length = t₂.lockedObjects.length := by
    have := ht.locked.length_eq
    rwa [List.length_map, List.length_map] at this
  unfold Heap.threadWords Heap.heldWords
  rw [ht.gid, ht.interrupted, ht.suspended, ht.permit, hdepth, Heap.elim_refWord, Heap.elim_refWord,
    ht.lockObject, Heap.map_refWord, Heap.map_refWord, mergeSort_eq_of_perm (ht.locked.map _), hlen]
  simp [ThreadState.ordinal_inj]

theorem flatMap_threadWords_inj {l₁ l₂ : List Thread}
    (hl : List.Forall₂ (Thread.Alike k₁.heap k₂.heap P) l₁ l₂) {rest₁ rest₂ : List Int32} :
    l₁.flatMap k₁.heap.threadWords ++ rest₁ = l₂.flatMap k₂.heap.threadWords ++ rest₂ ↔
      l₁.map (·.state) = l₂.map (·.state) ∧ rest₁ = rest₂ := by
  induction hl with
  | nil => simp
  | cons ht _ ih =>
    rw [List.flatMap_cons, List.flatMap_cons, List.append_assoc, List.append_assoc,
      threadWords_inj ht, ih, List.map_cons, List.map_cons, List.cons.injEq, and_assoc]

theorem cellTargets {l₁ l₂ : List Cell}
    (hl : List.Forall₂ (Cell.Corresponds k₁.heap k₂.heap P) l₁ l₂) :
    List.Forall₂ P (l₁.filterMap k₁.heap.cellTarget) (l₂.filterMap k₂.heap.cellTarget) := by
  apply List.rel_filterMap _ hl
  intro c₁ c₂ hc
  unfold Heap.cellTarget
  rw [← hc.tag]
  split
  · next htag => exact hc.target htag
  · exact .none

theorem threadTargets {t₁ t₂ : Thread} (ht : t₁.Alike k₁.heap k₂.heap P t₂) :
    List.Forall₂ P (k₁.heap.threadTargets t₁) (k₂.heap.threadTargets t₂) := by
  unfold Heap.threadTargets
  apply List.rel_append
  · exact forall₂_toList ht.object
  · exact List.rel_flatMap ht.frames fun _ _ hf => cellTargets hf.cells

theorem staticTargets {e₁ e₂ : Element} (he : e₁.StaticCorresponds k₁.heap k₂.heap P e₂) :
    List.Forall₂ P (k₁.heap.staticTargets e₁) (k₂.heap.staticTargets e₂) := by
  unfold Heap.staticTargets
  apply List.rel_append
  · have hclass := he.classRef
    generalize e₁.classRef? = c₁ at hclass
    generalize e₂.classRef? = c₂ at hclass
    cases hclass with
    | none => exact .nil
    | some hr => exact forall₂_toList hr
  · exact cellTargets he.cells

variable (hk : k₁.Alike k₂ P)

include hk

theorem nameOf? {r₁ r₂ : Ref} (hr : r₁.Corresponds k₁.heap k₂.heap P r₂) :
    k₁.heap.nameOf? r₁ = k₂.heap.nameOf? r₂ := by
  unfold Heap.nameOf?
  rw [Heap.get?_eq_bind_slot?, Heap.get?_eq_bind_slot?]
  unfold Ref.Corresponds at hr
  generalize k₁.heap.slot? r₁ = s₁ at hr
  generalize k₂.heap.slot? r₂ = s₂ at hr
  cases hr with
  | none => rfl
  | some hij =>
    obtain ⟨e₁, e₂, he₁, he₂, he⟩ := hk.objects _ _ hij
    simp [he₁, he₂, he.gid]

theorem refWord {r₁ r₂ : Ref} (hr : r₁.Corresponds k₁.heap k₂.heap P r₂) :
    k₁.heap.refWord r₁ = k₂.heap.refWord r₂ := by
  rw [Heap.refWord_eq, Heap.refWord_eq, hk.nameOf? hr]

theorem cellWord {c₁ c₂ : Cell} (hc : c₁.Corresponds k₁.heap k₂.heap P c₂) :
    k₁.heap.cellWord c₁ = k₂.heap.cellWord c₂ := by
  unfold Heap.cellWord
  rw [← hc.tag]
  split
  · next htag => exact hk.refWord (hc.target htag)
  · next htag => exact hc.value (by simpa using htag)

theorem cellWords {l₁ l₂ : List Cell}
    (hl : List.Forall₂ (Cell.Corresponds k₁.heap k₂.heap P) l₁ l₂) :
    l₁.map k₁.heap.cellWord = l₂.map k₂.heap.cellWord := by
  rw [← List.forall₂_eq_eq_eq]
  exact List.rel_map (fun _ _ hc => hk.cellWord hc) hl

theorem stackWords {t₁ t₂ : Thread} (ht : t₁.Alike k₁.heap k₂.heap P t₂) :
    k₁.heap.stackWords t₁ = k₂.heap.stackWords t₂ := by
  unfold Heap.stackWords Thread.depth
  rw [hk.refWord ht.object]
  congr 2
  · rw [← Array.length_toList, ht.frames.length_eq, Array.length_toList]
  · apply flatMap_eq_of_forall₂ ht.frames
    intro f₁ f₂ hf
    rw [Heap.frameWords_eq, Heap.frameWords_eq, hf.method, hf.pc, hk.cellWords hf.cells,
      ← Frame.length_cells, ← Frame.length_cells, hf.cells.length_eq]

theorem staticWords {e₁ e₂ : Element} (he : e₁.StaticCorresponds k₁.heap k₂.heap P e₂) :
    k₁.heap.staticWords e₁ = k₂.heap.staticWords e₂ := by
  have hcode := he.code
  have hclass := he.classRef
  unfold Element.status? at hcode
  unfold Element.classRef? at hclass
  unfold Heap.staticWords
  rw [he.classId, Heap.fieldWords_eq, Heap.fieldWords_eq, hk.cellWords he.cells]
  cases h₁ : e₁.kind <;> cases h₂ : e₂.kind <;> rw [h₁, h₂] at hcode hclass <;> simp at hcode hclass ⊢
  exact ⟨hcode, hk.refWord hclass⟩

theorem wordsAt {i j : Nat} (hij : P i j) : k₁.heap.wordsAt i = k₂.heap.wordsAt j := by
  obtain ⟨e₁, e₂, he₁, he₂, he⟩ := hk.objects i j hij
  unfold Heap.wordsAt
  rw [he₁, he₂]
  dsimp only [Heap.objectWords]
  rw [he.classId, he.length, Heap.fieldWords_eq, Heap.fieldWords_eq, hk.cellWords he.cells]

theorem referencesAt {i j : Nat} (hij : P i j) :
    List.Forall₂ P (k₁.heap.targets (k₁.heap.referencesAt i))
      (k₂.heap.targets (k₂.heap.referencesAt j)) := by
  obtain ⟨e₁, e₂, he₁, he₂, he⟩ := hk.objects i j hij
  unfold Heap.referencesAt
  rw [he₁, he₂, Heap.targets_fieldReferences, Heap.targets_fieldReferences]
  exact cellTargets he.cells

theorem rootTargets :
    List.Forall₂ P (k₁.heap.targets k₁.encodingRoots) (k₂.heap.targets k₂.encodingRoots) := by
  rw [targets_encodingRoots, targets_encodingRoots]
  apply List.rel_append
  · exact List.rel_flatMap hk.threads fun _ _ ht => threadTargets ht
  · exact List.rel_flatMap hk.statics fun _ _ he => staticTargets he

theorem visitOrder :
    List.Forall₂ P (k₁.heap.visitOrder k₁.encodingRoots) (k₂.heap.visitOrder k₂.encodingRoots) := by
  apply Heap.visit_forall₂ hk.unique
  · intro i j
    exact hk.referencesAt
  · exact hk.rootTargets
  · intro i j _
    rw [SlotSet.contains_empty, SlotSet.contains_empty]

theorem encode_eq_iff : k₁.encode = k₂.encode ↔
    k₁.atomicOwnerName.isOk = false ∨
      k₁.threads.toList.map (·.state) = k₂.threads.toList.map (·.state) := by
  have hbody : k₁.encodedBody = k₂.encodedBody := by
    unfold encodedBody
    rw [flatMap_eq_of_forall₂ hk.threads fun _ _ => hk.stackWords,
      flatMap_eq_of_forall₂ hk.statics fun _ _ => hk.staticWords,
      flatMap_eq_of_forall₂ hk.visitOrder fun _ _ => hk.wordsAt, hk.loaded]
  rw [Kernel.encode_eq, Kernel.encode_eq, ← hk.owner, hk.outOfMemory, hbody]
  cases k₁.atomicOwnerName with
  | error e => simp [Functor.map, Except.map, Except.isOk, Except.toBool]
  | ok n =>
    simp only [Functor.map, Except.map, Except.isOk, Except.toBool, Except.ok.injEq,
      List.append_cancel_left_eq, flatMap_threadWords_inj hk.threads]
    simp

end Alike

theorem Corresponds.encode_eq {k₁ k₂ : Kernel} {P : Nat → Nat → Prop} (hk : k₁.Corresponds k₂ P) :
    k₁.encode = k₂.encode := by
  rw [hk.encode_eq_iff]
  exact .inr hk.states

end Kernel

end Interleave
