import Interleave.Proofs.Encoding.Correspondence
import Interleave.Proofs.Identity
import Interleave.Proofs.Reference.Safety

/-!
States in which nothing dangles: every reference that is stored anywhere is null or live, and the frames
keep to their slots.
-/

namespace Interleave

structure Frame.Proper (f : Frame) : Prop where
  locals : f.locals ≤ f.slots.size
  refs : ∀ i, f.refs.contains i = true → i < f.slots.size

namespace Frame

theorem proper_fresh (method : MethodId) (locals : Nat) : (fresh method locals).Proper :=
  ⟨by simp [fresh], by simp [fresh]⟩

namespace Proper

variable {f : Frame} {refs : SlotSet} {i : Nat} {v : Int32}

theorem contains_size (h : f.Proper) : f.refs.contains f.slots.size = false := by
  rw [Bool.eq_false_iff]
  exact fun hs => Nat.lt_irrefl _ (h.refs _ hs)

theorem set (h : f.Proper) (hi : i < f.slots.size)
    (hrefs : ∀ j, j ≠ i → refs.contains j = f.refs.contains j) :
    { f with slots := f.slots.setIfInBounds i v, refs }.Proper := by
  refine ⟨?_, fun j hj => ?_⟩
  · simpa using h.locals
  · rw [Array.size_setIfInBounds]
    by_cases hji : j = i
    · rwa [hji]
    · rw [hrefs j hji] at hj
      exact h.refs j hj

theorem push (h : f.Proper) (hrefs : ∀ j, j ≠ f.slots.size → refs.contains j = f.refs.contains j) :
    { f with slots := f.slots.push v, refs }.Proper := by
  refine ⟨?_, fun j hj => ?_⟩
  · rw [Array.size_push]
    exact Nat.le_succ_of_le h.locals
  · rw [Array.size_push]
    by_cases hjs : j = f.slots.size
    · omega
    · rw [hrefs j hjs] at hj
      exact Nat.lt_succ_of_lt (h.refs j hj)

end Proper

end Frame

def Cell.IsSafe (h : Heap) (c : Cell) : Prop := c.2 = true → h.IsSafe ⟨c.1⟩

theorem Cell.isSafe_of_references {h : Heap} {l : List Cell}
    (hl : ∀ r ∈ Cell.references l, h.contains r = true) : ∀ c ∈ l, c.IsSafe h := by
  rintro ⟨v, isRef⟩ hc rfl
  cases hnull : (Ref.mk v).isNull with
  | true => exact .inl hnull
  | false => exact .inr (hl ⟨v⟩ (Cell.mem_references.mpr ⟨hnull, hc⟩))

namespace Kernel

/-- Every reference that is stored is null or live, also those of threads that have terminated. -/
structure Closed (k : Kernel) : Prop where
  objects : ∀ e ∈ k.heap.elements, ∀ r ∈ e.fields.references, k.heap.contains r = true
  statics : ∀ e ∈ k.statics.elements, ∀ r ∈ e.classObject?.toList ++ e.fields.references,
    k.heap.contains r = true
  threads : ∀ info ∈ k.threads.toList, ∀ r ∈ info.references, k.heap.contains r = true

theorem closed_iff {k : Kernel} : k.Closed ↔
    (∀ e ∈ k.heap.elements, ∀ r ∈ e.fields.references, k.heap.contains r = true) ∧
      (∀ e ∈ k.statics.elements, ∀ r ∈ e.classObject?.toList ++ e.fields.references,
        k.heap.contains r = true) ∧
      ∀ info ∈ k.threads.toList, ∀ r ∈ info.references, k.heap.contains r = true :=
  ⟨fun h => ⟨h.objects, h.statics, h.threads⟩, fun h => ⟨h.1, h.2.1, h.2.2⟩⟩

instance (k : Kernel) : Decidable k.Closed := decidable_of_iff' _ closed_iff

namespace Closed

variable {k : Kernel} (hk : k.Closed)

include hk

theorem object {i : Nat} {e : Element} (he : k.heap.arena.get? i = some e) :
    ∀ c ∈ e.fields.cells, c.IsSafe k.heap := by
  apply Cell.isSafe_of_references
  rw [← Fields.references_eq]
  exact hk.objects e ((Arena.mem_elements _ _).mpr ⟨i, he⟩)

theorem static {e : Element} (he : e ∈ k.statics.elements) : ∀ c ∈ e.fields.cells, c.IsSafe k.heap := by
  apply Cell.isSafe_of_references
  rw [← Fields.references_eq]
  exact fun r hr => hk.statics e he r (List.mem_append_right _ hr)

theorem classRef {e : Element} (he : e ∈ k.statics.elements) {r : Ref} (hr : e.classRef? = some r) :
    k.heap.IsSafe r := by
  cases hnull : r.isNull with
  | true => exact .inl hnull
  | false =>
    refine .inr (hk.statics e he r (List.mem_append_left _ ?_))
    unfold Element.classRef? at hr
    unfold Element.classObject?
    cases hkind : e.kind with
    | static status o =>
      rw [hkind] at hr
      cases hr
      dsimp only
      rw [if_neg (by rw [hnull]; exact Bool.false_ne_true)]
      exact List.mem_singleton_self r
    | object | array =>
      rw [hkind] at hr
      cases hr

theorem thread {info : Thread} (hinfo : info ∈ k.threads.toList) {r : Ref}
    (hr : r ∈ info.object :: info.lockObject.toList ++ info.lockedObjects ++
      info.frames.toList.flatMap Frame.references) : k.heap.IsSafe r := by
  cases hnull : r.isNull with
  | true => exact .inl hnull
  | false => exact .inr (hk.threads info hinfo r (List.mem_filter.mpr ⟨hr, by simp [hnull]⟩))

theorem frame {info : Thread} (hinfo : info ∈ k.threads.toList) {f : Frame} (hf : f ∈ info.frames) :
    ∀ c ∈ f.cells, c.IsSafe k.heap := by
  apply Cell.isSafe_of_references
  intro r hr
  rw [← Frame.references_eq] at hr
  have hmem := List.mem_flatMap.mpr ⟨f, Array.mem_toList_iff.mpr hf, hr⟩
  have hnull : r.isNull = false := by
    rw [Frame.references_eq] at hr
    exact (Cell.mem_references.mp hr).1
  exact (hk.thread hinfo (List.mem_append_right _ hmem)).resolve_left (by simp [hnull])

end Closed

variable {k k' : Kernel} {op : Op} {ok : Kernel → Op → Prop}

theorem mem_frames_of_onThread {t u : ThreadId} {g : Thread → Thread} {info : Thread} {f : Frame}
    (hf : f ∈ (onThread t g u info).frames) (hg : (g info).frames = info.frames) : f ∈ info.frames := by
  unfold onThread at hf
  split at hf
  · rwa [hg] at hf
  · exact hf

theorem frames_entered (o : Ref) (info : Thread) : (entered o info).frames = info.frames := by
  unfold entered Thread.addLocked
  split <;> rfl

theorem frames_awakeIf (p : Prop) [Decidable p] (info : Thread) :
    (if p then info.awake else info).frames = info.frames := by
  split <;> rfl

theorem mem_frames_ended {t u : ThreadId} {requesters joiners : List ThreadId} {info : Thread} {f : Frame}
    (hf : f ∈ (ended t requesters joiners u info).frames) : f ∈ info.frames := by
  have hend : ∀ info', info' = onThread t Thread.atEnd u (if u ∈ requesters then info.awake else info) →
      f ∈ info'.frames → f ∈ info.frames := by
    rintro _ rfl hf
    unfold onThread at hf
    split at hf
    · simp [Thread.atEnd] at hf
    · rwa [frames_awakeIf] at hf
  unfold ended at hf
  dsimp only at hf
  split at hf <;> exact hend _ rfl hf

theorem Turn.frames (h : k.Turn op k') {t : ThreadId} {info' : Thread}
    (ht : k'.threads.get? t = some info') : ∃ info, k.threads.get? t = some info ∧
      ∀ f ∈ info'.frames, f ∈ info.frames ∨ f ∈ op.frames := by
  cases h with
  | still _ h | leave _ _ _ _ h =>
    obtain ⟨info, hinfo, rfl⟩ := h.of_thread ht
    exact ⟨info, hinfo, fun _ => .inl⟩
  | proceed _ ht₀ hf h =>
    obtain ⟨info, hinfo, rfl⟩ := h.of_thread ht
    refine ⟨info, hinfo, ?_⟩
    unfold onThread
    split
    · next htt =>
      subst htt
      rw [ht₀] at hinfo
      cases hinfo
      exact hf.frames
    · exact fun _ => .inl
  | enter _ _ _ _ h =>
    obtain ⟨info, hinfo, rfl⟩ := h.of_thread ht
    exact ⟨info, hinfo, fun _ hf => .inl (mem_frames_of_onThread hf (frames_entered _ info))⟩
  | block _ _ _ _ h | expire _ _ _ _ _ _ h =>
    obtain ⟨info, hinfo, rfl⟩ := h.of_thread ht
    exact ⟨info, hinfo, fun _ hf => .inl (mem_frames_of_onThread hf rfl)⟩
  | release _ _ _ h | wait _ _ _ _ h =>
    obtain ⟨info, hinfo, rfl⟩ := h.of_thread ht
    rw [frames_awakeIf]
    exact ⟨info, hinfo, fun _ hf => .inl (mem_frames_of_onThread hf rfl)⟩
  | notify _ _ _ _ _ h =>
    obtain ⟨info, hinfo, rfl⟩ := h.of_thread ht
    refine ⟨info, hinfo, ?_⟩
    split <;> exact fun _ => .inl
  | finish _ _ _ _ _ h =>
    obtain ⟨info, hinfo, rfl⟩ := h.of_thread ht
    exact ⟨info, hinfo, fun _ hf => .inl (mem_frames_ended hf)⟩

theorem Built.proper (hok : ∀ k op, ok k op → ∀ f ∈ op.frames, f.Proper) (h : Built ok k) :
    ∀ t info, k.threads.get? t = some info → ∀ f ∈ info.frames, f.Proper := by
  refine h.invariant
    (motive := fun k => ∀ t info, k.threads.get? t = some info → ∀ f ∈ info.frames, f.Proper) ?_ ?_ ?_
  · intro k hthreads _ t info ht
    rw [hthreads] at ht
    cases ht
  · intro k op k' _ _ hop hturn hk t info' ht f hf
    obtain ⟨info, hinfo, hframes⟩ := hturn.frames ht
    rcases hframes f hf with hf | hf
    · exact hk t info hinfo f hf
    · exact hok k op hop f hf
  · intro k k' _ hspares hk t info ht f hf
    rcases hspares.newThreads t info ht with ht | ⟨_, hnew⟩
    · exact hk t info ht f hf
    · rw [hnew.frames] at hf
      simp at hf

theorem nodup_newGlobalId {creator : Option ThreadId} {site : Option Site} {gid : GlobalId}
    (h : k.newGlobalId creator site = .ok (gid, k')) (hk : k.pool.keys.toList.Nodup) :
    k'.pool.keys.toList.Nodup := by
  obtain ⟨thread, -, -, rfl⟩ := newGlobalId_eq_ok.mp h
  exact IdPool.nodup_intern hk _

theorem Stirs.nodup {calm : Prop} (h : k.Stirs calm k') (hk : k.pool.keys.toList.Nodup) :
    k'.pool.keys.toList.Nodup := by
  induction h with
  | refl => exact hk
  | tail _ h ih => cases h <;> exact ih

theorem Grows.nodup {proper : Prop} (h : Grows proper k k') (hk : k.pool.keys.toList.Nodup) :
    k'.pool.keys.toList.Nodup := by
  induction h with
  | refl => exact hk
  | tail _ h ih =>
    cases h with
    | name h | object h | thread h =>
      have hnodup := nodup_newGlobalId h ih
      exact hnodup
    | load => exact IdPool.nodup_intern ih _
    | _ => exact ih

theorem Built.nodup (h : Built ok k) : k.pool.keys.toList.Nodup := by
  induction h with
  | start => exact .nil
  | @perform _ _ op _ _ h ih =>
    cases hs : op.stirs with
    | true => exact (@perform_stirs False _ _ _ hs False.elim h).nodup ih
    | false => exact (@perform_grows False _ _ _ hs h False.elim False.elim).nodup ih
  | adopt _ _ _ _ ih => exact ih
  | restore _ _ _ ih => exact ih

end Kernel

end Interleave
