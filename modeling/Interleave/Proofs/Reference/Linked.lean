import Interleave.Proofs.Monitor.Ending
import Interleave.Proofs.Reference.Room

/-!
States in which every reference that matters is null or live, and what may be done to such a state:
references may be added that are null or live, and a collection takes nothing away that is referred to.
-/

namespace Interleave

namespace Fields

variable {f f' : Fields} {i j : Nat} {r : Ref}

theorem holds_iff : f.Holds i r ↔ f.values[i]? = some r.slot ∧ f.isReference i = true := by
  unfold Holds
  rw [getElem?_cells, Option.map_eq_some_iff]
  constructor
  · rintro ⟨v, hv, h⟩
    obtain ⟨rfl, href⟩ := Prod.mk.inj h
    exact ⟨hv, href⟩
  · rintro ⟨hv, href⟩
    exact ⟨r.slot, hv, by rw [href]⟩

theorem isNull_of_slot_eq (h : some Ref.null.slot = some r.slot) : r.isNull = true := by
  unfold Ref.isNull
  rw [← Option.some.inj h]
  decide

theorem isNull_of_holds_ofMask {mask : List Bool} (h : (ofMask mask).Holds i r) : r.isNull = true := by
  rw [holds_iff] at h
  obtain ⟨hvalue, href⟩ := h
  have hmark : mask[i]? = some true := by
    simpa [ofMask, isReference, Option.getD_eq_iff] using href
  simp only [ofMask, List.getElem?_toArray, List.getElem?_map, hmark, Option.map_some, if_true] at hvalue
  exact isNull_of_slot_eq hvalue

theorem isNull_of_holds_ofArray {elem : ValueKind} {length : Nat}
    (h : (ofArray elem length).Holds i r) : r.isNull = true := by
  rw [holds_iff] at h
  obtain ⟨hvalue, href⟩ := h
  cases he : elem.isReference with
  | true =>
    simp only [ofArray, he, if_true, Array.getElem?_replicate] at hvalue
    split at hvalue
    · exact isNull_of_slot_eq hvalue
    · cases hvalue
  | false => simp [ofArray, he, isReference] at href

theorem isReference_setInt {v : Int32} (h : f.setInt i v = .ok f') : f'.isReference = f.isReference := by
  unfold setInt at h
  split at h
  · cases h
    exact isReference_congr (by simp [size]) rfl
  · cases h

theorem of_holds_setInt {v : Int32} (h : f.setInt i v = .ok f') (hr : f'.Holds j r) :
    f.Holds j r ∨ j = i ∧ f.isReference j = true ∧ r.slot = v := by
  rw [holds_iff, isReference_setInt h] at hr
  obtain ⟨hvalue, href⟩ := hr
  unfold setInt at h
  split at h
  · next hlt =>
    cases h
    rw [Array.getElem?_setIfInBounds] at hvalue
    split at hvalue
    · next hij =>
      rw [if_pos (show i < f.values.size from hlt)] at hvalue
      exact .inr ⟨hij.symm, href, (Option.some.inj hvalue).symm⟩
    · exact .inl (holds_iff.mpr ⟨hvalue, href⟩)
  · cases h

end Fields

def SlotValue.words : SlotValue → List Int32
  | int v => [v]
  | long v => [Int32.ofBitVec (v.toBitVec.extractLsb' 32 32), Int32.ofBitVec (v.toBitVec.extractLsb' 0 32)]
  | ref r => [r.slot]

theorem SlotValue.of_holds_write {v : SlotValue} {f f' : Fields} {i j : Nat} {r : Ref}
    (h : v.write f i = .ok f') (hr : f'.Holds j r) :
    f.Holds j r ∨ ∃ n, j = i + n ∧ f.isReference j = true ∧ v.words[n]? = some r.slot := by
  have hone : ∀ {w : Int32}, f.setInt i w = .ok f' → v.words[0]? = some w →
      f.Holds j r ∨ ∃ n, j = i + n ∧ f.isReference j = true ∧ v.words[n]? = some r.slot := by
    intro w h hw
    rcases Fields.of_holds_setInt h hr with hr | ⟨rfl, href, rfl⟩
    · exact .inl hr
    · exact .inr ⟨0, rfl, href, hw⟩
  cases v with
  | int w => exact hone h rfl
  | ref r' => exact hone h rfl
  | long w =>
    obtain ⟨f₁, h₁, h₂⟩ := bind_eq_ok.mp h
    rcases Fields.of_holds_setInt h₂ hr with hr | ⟨rfl, href, hw⟩
    · rcases Fields.of_holds_setInt h₁ hr with hr | ⟨rfl, href, hw⟩
      · exact .inl hr
      · exact .inr ⟨0, rfl, href, by rw [hw]; rfl⟩
    · rw [Fields.isReference_setInt h₁] at href
      exact .inr ⟨1, rfl, href, by rw [hw]; rfl⟩

namespace Element

variable {e : Element} {r : Ref}

theorem not_traces_of_isNull (hfields : ∀ i r, e.fields.Holds i r → r.isNull = true)
    (hobject : ∀ r, ¬ e.HasClassObject r) (r : Ref) : ¬ e.Traces r := by
  rintro ⟨hnull, ⟨i, hr, -⟩ | hr⟩
  · rw [hfields i r hr] at hnull
    cases hnull
  · exact hobject r hr

theorem not_traces_object (o : Ref) (gid : GlobalId) (c : ClassId) (mask : List Bool)
    (creator : Option ThreadId) : ∀ r, ¬ (fresh o gid c .object (.ofMask mask) creator).Traces r := by
  apply not_traces_of_isNull
  · exact fun _ _ => Fields.isNull_of_holds_ofMask
  · rintro r ⟨status, hkind⟩
    cases hkind

theorem not_traces_array (o : Ref) (gid : GlobalId) (c : ClassId) (elem : ValueKind) (length : Nat)
    (creator : Option ThreadId) :
    ∀ r, ¬ (fresh o gid c (.array elem length) (.ofArray elem length) creator).Traces r := by
  apply not_traces_of_isNull
  · exact fun _ _ => Fields.isNull_of_holds_ofArray
  · rintro r ⟨status, hkind⟩
    cases hkind

theorem Refers.of_written {e' : Element} {p : Ref → Prop} (hr : e'.Refers r) (hkind : e'.kind = e.kind)
    (h : ∀ i r, e'.fields.Holds i r → r.isNull = false → e.fields.Holds i r ∨ p r) :
    e.Refers r ∨ p r := by
  obtain ⟨hnull, ⟨i, hi⟩ | ⟨status, hobject⟩⟩ := hr
  · exact (h i r hi hnull).imp_left fun hi => ⟨hnull, .inl ⟨i, hi⟩⟩
  · exact .inl ⟨hnull, .inr ⟨status, hkind ▸ hobject⟩⟩

theorem Traces.of_written {e' : Element} {p : Ref → Prop} (hr : e'.Traces r) (hkind : e'.kind = e.kind)
    (hweak : e'.weak = e.weak)
    (h : ∀ i r, e'.fields.Holds i r → r.isNull = false → e.fields.Holds i r ∨ p r) :
    e.Traces r ∨ p r := by
  obtain ⟨hnull, ⟨i, hi, hi'⟩ | ⟨status, hobject⟩⟩ := hr
  · exact (h i r hi hnull).imp_left fun hi => ⟨hnull, .inl ⟨i, hi, hweak ▸ hi'⟩⟩
  · exact .inl ⟨hnull, .inr ⟨status, hkind ▸ hobject⟩⟩

theorem Traces.of_maintain {e' : Element} {u : Upkeep} (h : e.maintain u = .ok e') (hr : e'.Traces r) :
    e.Traces r := by
  unfold maintain at h
  split at h
  · obtain ⟨fields, hfields, h⟩ := bind_eq_ok.mp h
    cases h
    refine (hr.of_written (e := e) (p := fun _ => False) rfl rfl ?_).resolve_right fun h => h
    intro i r hi hnull
    rcases Fields.of_holds_setInt hfields hi with hi | ⟨-, -, hslot⟩
    · exact .inl hi
    · rw [Fields.isNull_of_slot_eq (by rw [hslot])] at hnull
      cases hnull
  · cases h
    exact hr

end Element

theorem Heap.traces_of_collect {h : Heap} {roots : Roots} {c : Collection} (hc : h.collect roots = .ok c) :
    ∀ i e', c.heap.arena.get? i = some e' →
      ∃ e, h.arena.get? i = some e ∧ ∀ r, e'.Traces r → e.Traces r := by
  apply foldlM_induction (motive := fun c => ∀ i e', c.heap.arena.get? i = some e' →
    ∃ e, h.arena.get? i = some e ∧ ∀ r, e'.Traces r → e.Traces r) hc
  · intro i e' he'
    have hi := (h.get?_sweep _ i).symm.trans he'
    split at hi
    · cases hi
    · exact ⟨e', hi, fun _ => id⟩
  · intro j _ c₁ c₂ h₁ h₂ i e' he'
    obtain rfl | ⟨e₁, u, e₂, _, _, he₁, he₂, rfl⟩ := maintainAt_cases h₂
    · exact h₁ i e' he'
    · rw [Arena.get?_replace] at he'
      split at he'
      · next hij =>
        subst hij
        rw [he₁] at he'
        cases he'
        obtain ⟨e, he, htraces⟩ := h₁ j e₁ he₁
        exact ⟨e, he, fun r hr => htraces r (.of_maintain he₂ hr)⟩
      · exact h₁ i e' he'

def Frame.Within (p : Ref → Prop) (f : Frame) : Prop := ∀ i r, f.Holds i r → r.isNull = false → p r

structure Thread.Adds (p : Ref → Prop) (info info' : Thread) : Prop where
  object : info'.object = info.object
  lockObject : ∀ o, info'.lockObject = some o → info.lockObject = some o ∨ p o
  lockedObjects : ∀ o ∈ info'.lockedObjects, o ∈ info.lockedObjects ∨ p o
  frames : ∀ f ∈ info'.frames, f ∈ info.frames ∨ f.Within p

namespace Thread.Adds

variable {p : Ref → Prop} {info info' : Thread}

theorem refl (p : Ref → Prop) (info : Thread) : info.Adds p info :=
  ⟨rfl, fun _ => .inl, fun _ => .inl, fun _ => .inl⟩

theorem holds (h : info.Adds p info') {r : Ref} (hr : info'.Holds r) : info.Holds r ∨ p r := by
  obtain ⟨hnull, hr | hr | hr | ⟨f, hf, i, hr⟩⟩ := hr
  · exact .inl ⟨hnull, .inl (hr.trans h.object)⟩
  · exact (h.lockObject r hr).imp_left fun hr => ⟨hnull, .inr (.inl hr)⟩
  · exact (h.lockedObjects r hr).imp_left fun hr => ⟨hnull, .inr (.inr (.inl hr))⟩
  · rcases h.frames f hf with hf | hf
    · exact .inl ⟨hnull, .inr (.inr (.inr ⟨f, hf, i, hr⟩))⟩
    · exact .inr (hf i r hr hnull)

theorem onThread {t u : ThreadId} {f : Thread → Thread} (h : t = u → info.Adds p (f info)) :
    info.Adds p (Kernel.onThread t f u info) := by
  unfold Kernel.onThread
  split
  · next htu => exact h htu
  · exact .refl p info

theorem awakeIf (h : info.Adds p info') (q : Prop) [Decidable q] :
    info.Adds p (if q then info'.awake else info') := by
  split <;> exact ⟨h.object, h.lockObject, h.lockedObjects, h.frames⟩

theorem removeLocked (info : Thread) (o : Ref) : info.Adds p (info.removeLocked o) :=
  ⟨rfl, fun _ => .inl, fun _ ho => .inl (List.mem_of_mem_filter ho), fun _ => .inl⟩

theorem entered {o : Ref} (ho : p o) : info.Adds p (Kernel.entered o info) := by
  refine ⟨?_, nofun, ?_, ?_⟩
  · unfold Kernel.entered Thread.addLocked
    split <;> rfl
  · intro o' ho'
    unfold Kernel.entered Thread.addLocked at ho'
    split at ho'
    · exact .inl ho'
    · rcases List.mem_append.mp ho' with ho' | ho'
      · exact .inl ho'
      · rw [List.mem_singleton.mp ho']
        exact .inr ho
  · intro f hf
    unfold Kernel.entered Thread.addLocked at hf
    split at hf <;> exact .inl hf

theorem ended (u : ThreadId) (requesters joiners : List ThreadId) (t : ThreadId) :
    info.Adds p (Kernel.ended u requesters joiners t info) := by
  have hend : info.Adds p
      (Kernel.onThread u Thread.atEnd t (if t ∈ requesters then info.awake else info)) := by
    have hawake : info.Adds p (if t ∈ requesters then info.awake else info) := (refl p info).awakeIf _
    unfold Kernel.onThread
    split
    · exact ⟨hawake.object, nofun, nofun, fun f hf => by simp [atEnd] at hf⟩
    · exact hawake
  unfold Kernel.ended
  dsimp only
  split
  · exact ⟨hend.object, hend.lockObject, hend.lockedObjects, hend.frames⟩
  · exact hend

end Thread.Adds

namespace Kernel

variable {k k' : Kernel} {op : Op}

theorem Turn.adds {p : Ref → Prop} (h : k.Turn op k') (hlive : ∀ o, (k.monitor? o).isSome → p o)
    (hframes : ∀ f ∈ op.frames, f.Within p) {t : ThreadId} {info' : Thread}
    (ht : k'.threads.get? t = some info') : ∃ info, k.threads.get? t = some info ∧ info.Adds p info' := by
  cases h with
  | still _ h =>
    obtain ⟨info, hinfo, rfl⟩ := h.of_thread ht
    exact ⟨info, hinfo, .refl p info⟩
  | proceed _ ht₀ hf h =>
    obtain ⟨info, hinfo, rfl⟩ := h.of_thread ht
    refine ⟨info, hinfo, .onThread fun htt => ?_⟩
    subst htt
    rw [ht₀] at hinfo
    cases hinfo
    refine ⟨hf.object, ?_, ?_, fun f hmem => (hf.frames f hmem).imp_right (hframes f)⟩
    · rw [hf.lockObject]
      exact fun _ => .inl
    · rw [hf.lockedObjects]
      exact fun _ => .inl
  | enter _ _ ho _ h =>
    obtain ⟨info, hinfo, rfl⟩ := h.of_thread ht
    exact ⟨info, hinfo, .onThread fun _ => .entered (hlive _ (by simp [ho]))⟩
  | @block _ o _ _ _ _ ho _ h =>
    obtain ⟨info, hinfo, rfl⟩ := h.of_thread ht
    refine ⟨info, hinfo, .onThread fun _ => ⟨rfl, ?_, fun _ => .inl, fun _ => .inl⟩⟩
    intro o' ho'
    cases ho'
    exact .inr (hlive o (by simp [ho]))
  | leave _ _ _ _ h =>
    obtain ⟨info, hinfo, rfl⟩ := h.of_thread ht
    exact ⟨info, hinfo, .refl p info⟩
  | @release _ o _ _ _ _ h =>
    obtain ⟨info, hinfo, rfl⟩ := h.of_thread ht
    exact ⟨info, hinfo, (Thread.Adds.onThread fun _ => .removeLocked info o).awakeIf _⟩
  | @wait _ o _ _ _ _ ho _ h =>
    obtain ⟨info, hinfo, rfl⟩ := h.of_thread ht
    refine ⟨info, hinfo, (Thread.Adds.onThread fun _ => ?_).awakeIf _⟩
    have hremove := Thread.Adds.removeLocked (p := p) info o
    refine ⟨rfl, ?_, hremove.lockedObjects, hremove.frames⟩
    intro o' ho'
    cases ho'
    exact .inr (hlive o (by simp [ho]))
  | expire _ _ _ _ _ _ h =>
    obtain ⟨info, hinfo, rfl⟩ := h.of_thread ht
    exact ⟨info, hinfo, .onThread fun _ => ⟨rfl, fun _ => .inl, fun _ => .inl, fun _ => .inl⟩⟩
  | notify _ _ _ _ _ h =>
    obtain ⟨info, hinfo, rfl⟩ := h.of_thread ht
    refine ⟨info, hinfo, ?_⟩
    split <;> exact ⟨rfl, fun _ => .inl, fun _ => .inl, fun _ => .inl⟩
  | finish _ _ _ _ _ h =>
    obtain ⟨info, hinfo, rfl⟩ := h.of_thread ht
    exact ⟨info, hinfo, .ended ..⟩

theorem Stirs.slots {calm : Prop} (h : k.Stirs calm k') :
    k'.statics = k.statics ∧ ∀ i, (k'.heap.arena.get? i).map ({ · with monitor := {} }) =
      (k.heap.arena.get? i).map ({ · with monitor := {} }) := by
  induction h with
  | refl => exact ⟨rfl, fun _ => rfl⟩
  | tail _ h ih =>
    cases h with
    | @monitor o e f he =>
      refine ⟨ih.1, fun i => ?_⟩
      rw [← ih.2 i, Heap.arena_put]
      split
      · next hi =>
        obtain ⟨j, hj, he⟩ := Heap.get?_eq_some.mp he
        rw [hi] at hj
        cases hj
        rw [he]
        rfl
      · rfl
    | _ => exact ih

structure Linked (k : Kernel) : Prop where
  objects : ∀ i e, k.heap.arena.get? i = some e → ∀ r, e.Traces r → k.heap.contains r = true
  statics : ∀ c e, k.statics.get? c = some e → ∀ r, e.Refers r → k.heap.contains r = true
  threads : ∀ t info, k.threads.get? t = some info → info.state ≠ .terminated → ∀ r, info.Holds r →
    k.heap.contains r = true
  own : ∀ t info, k.threads.get? t = some info → info.object.isNull = false

structure Extends (k k' : Kernel) : Prop where
  live : ∀ r, k.heap.contains r = true → k'.heap.contains r = true
  objects : ∀ i e', k'.heap.arena.get? i = some e' → ∀ r, e'.Traces r →
    (∃ e, k.heap.arena.get? i = some e ∧ e.Traces r) ∨ k'.heap.contains r = true
  statics : ∀ c e', k'.statics.get? c = some e' → ∀ r, e'.Refers r →
    (∃ e, k.statics.get? c = some e ∧ e.Refers r) ∨ k'.heap.contains r = true
  threads : ∀ t info', k'.threads.get? t = some info' → info'.state ≠ .terminated → ∀ r, info'.Holds r →
    (∃ info, k.threads.get? t = some info ∧ info.state ≠ .terminated ∧ info.Holds r) ∨
      k'.heap.contains r = true
  own : ∀ t info', k'.threads.get? t = some info' →
    (∃ info, k.threads.get? t = some info ∧ info.object = info'.object) ∨ info'.object.isNull = false

theorem Linked.extends (hk : k.Linked) (h : k.Extends k') : k'.Linked where
  objects := by
    intro i e' he' r hr
    rcases h.objects i e' he' r hr with ⟨e, he, hr⟩ | hr
    · exact h.live r (hk.objects i e he r hr)
    · exact hr
  statics := by
    intro c e' he' r hr
    rcases h.statics c e' he' r hr with ⟨e, he, hr⟩ | hr
    · exact h.live r (hk.statics c e he r hr)
    · exact hr
  threads := by
    intro t info' ht' hs' r hr
    rcases h.threads t info' ht' hs' r hr with ⟨info, ht, hs, hr⟩ | hr
    · exact h.live r (hk.threads t info ht hs r hr)
    · exact hr
  own := by
    intro t info' ht'
    rcases h.own t info' ht' with ⟨info, ht, hobject⟩ | hobject
    · rw [← hobject]
      exact hk.own t info ht
    · exact hobject

namespace Extends

theorem trans {k'' : Kernel} (h : k.Extends k') (h' : k'.Extends k'') : k.Extends k'' where
  live := fun r hr => h'.live r (h.live r hr)
  objects := by
    intro i e' he' r hr
    rcases h'.objects i e' he' r hr with ⟨e, he, hr⟩ | hr
    · exact (h.objects i e he r hr).imp_right (h'.live r)
    · exact .inr hr
  statics := by
    intro c e' he' r hr
    rcases h'.statics c e' he' r hr with ⟨e, he, hr⟩ | hr
    · exact (h.statics c e he r hr).imp_right (h'.live r)
    · exact .inr hr
  threads := by
    intro t info' ht' hs' r hr
    rcases h'.threads t info' ht' hs' r hr with ⟨info, ht, hs, hr⟩ | hr
    · exact (h.threads t info ht hs r hr).imp_right (h'.live r)
    · exact .inr hr
  own := by
    intro t info' ht'
    rcases h'.own t info' ht' with ⟨info, ht, hobject⟩ | hobject
    · rw [← hobject]
      exact h.own t info ht
    · exact .inr hobject

theorem onHeap {heap : Heap} (hlive : ∀ r, k.heap.contains r = true → heap.contains r = true)
    (hobjects : ∀ i e', heap.arena.get? i = some e' → ∀ r, e'.Traces r →
      (∃ e, k.heap.arena.get? i = some e ∧ e.Traces r) ∨ heap.contains r = true)
    (hheap : k'.heap = heap) (hstatics : k'.statics.get? = k.statics.get?)
    (hthreads : k'.threads = k.threads) : k.Extends k' := by
  subst hheap
  refine ⟨hlive, hobjects, ?_, ?_, ?_⟩
  · rw [hstatics]
    exact fun c e' he' r hr => .inl ⟨e', he', hr⟩
  · rw [hthreads]
    exact fun t info ht hs r hr => .inl ⟨info, ht, hs, hr⟩
  · rw [hthreads]
    exact fun t info ht => .inl ⟨info, ht, rfl⟩

theorem of_eq (hheap : k'.heap.arena.get? = k.heap.arena.get?)
    (hstatics : k'.statics.get? = k.statics.get?) (hthreads : k'.threads = k.threads) :
    k.Extends k' := by
  refine onHeap ?_ ?_ rfl hstatics hthreads
  · intro r hr
    unfold Heap.contains Heap.get? at *
    rwa [hheap]
  · rw [hheap]
    exact fun i e' he' r hr => .inl ⟨e', he', hr⟩

theorem refl (k : Kernel) : k.Extends k := of_eq rfl rfl rfl

theorem places {build : Ref → Element} (h : k.Places build k') (hbuild : ∀ o r, ¬ (build o).Traces r) :
    k.Extends k' := by
  refine onHeap ?_ ?_ h.heap (by rw [h.statics]) h.threads
  · intro r hr
    obtain ⟨e, he⟩ := Option.isSome_iff_exists.mp hr
    unfold Heap.contains
    rw [Heap.get?_place_of_some he]
    rfl
  · intro i e' he' r hr
    rw [Heap.arena_place] at he'
    split at he'
    · cases he'
      exact absurd hr (hbuild _ r)
    · exact .inl ⟨e', he', hr⟩

theorem put {o : Ref} {e e' : Element} (he : k.heap.get? o = some e)
    (h : ∀ r, e'.Traces r → e.Traces r ∨ k.heap.contains r = true) :
    k.Extends { k with heap := k.heap.put o e' } := by
  have hlive : ∀ r, k.heap.contains r = true → (k.heap.put o e').contains r = true := by
    intro r hr
    unfold Heap.contains at *
    rw [Heap.get?_put]
    split
    · rwa [Option.isSome_map]
    · exact hr
  refine onHeap hlive ?_ rfl rfl rfl
  intro i e₁ he₁ r hr
  rw [Heap.arena_put] at he₁
  split at he₁
  · next hi =>
    obtain ⟨j, hj, he⟩ := Heap.get?_eq_some.mp he
    rw [hi] at hj
    cases hj
    rw [he] at he₁
    cases he₁
    exact (h r hr).imp (fun hr => ⟨e, he, hr⟩) (hlive r)
  · exact .inl ⟨e₁, he₁, hr⟩

theorem onStatics {statics : Statics} (h : ∀ c e', statics.get? c = some e' → ∀ r, e'.Refers r →
      (∃ e, k.statics.get? c = some e ∧ e.Refers r) ∨ k.heap.contains r = true) :
    k.Extends { k with statics } where
  live := fun _ => id
  objects := fun _ e' he' _ hr => .inl ⟨e', he', hr⟩
  statics := h
  threads := fun _ info ht hs _ hr => .inl ⟨info, ht, hs, hr⟩
  own := fun _ info ht => .inl ⟨info, ht, rfl⟩

theorem putStatic {c : ClassId} {e e' : Element} (he : k.statics.get? c = some e)
    (h : ∀ r, e'.Refers r → e.Refers r ∨ k.heap.contains r = true) :
    k.Extends { k with statics := k.statics.put c e' } := by
  refine onStatics ?_
  intro c' e₁ he₁ r hr
  replace he₁ : (k.statics.arena.replace c e').get? c' = some e₁ := he₁
  rw [Arena.get?_replace] at he₁
  split at he₁
  · next hc =>
    subst hc
    rw [show k.statics.arena.get? c = some e from he] at he₁
    cases he₁
    exact (h r hr).imp_left fun hr => ⟨e, he, hr⟩
  · exact .inl ⟨e₁, he₁, hr⟩

theorem addClass (desc : ClassDescriptor) (gid : GlobalId) {classObject : Ref}
    (hlive : k.heap.contains classObject = true) :
    k.Extends { k with statics := k.statics.addClass desc gid classObject } := by
  refine onStatics ?_
  intro c e' he' r hr
  unfold Statics.addClass at he'
  split at he'
  · exact .inl ⟨e', he', hr⟩
  · replace he' : (k.statics.arena.insert _ _).get? c = some e' := he'
    rw [Arena.get?_insert] at he'
    split at he'
    · cases he'
      obtain ⟨hnull, ⟨i, hr⟩ | ⟨status, hkind⟩⟩ := hr
      · rw [Fields.isNull_of_holds_ofMask hr] at hnull
        cases hnull
      · cases hkind
        exact .inr hlive
    · exact .inl ⟨e', he', hr⟩

theorem push (epoch : Nat) {info : Thread} (hnew : info.IsNew k.threads.nextId)
    (hlive : k.heap.contains info.object = true) :
    k.Extends { k with threads := { threads := k.threads.threads.push info, epoch } } := by
  have hget : ∀ {t info'}, (Roster.mk (k.threads.threads.push info) epoch).get? t = some info' →
      k.threads.get? t = some info' ∨ info' = info := by
    intro t info' ht
    rw [Roster.get?_push] at ht
    split at ht
    · cases ht
      exact .inr rfl
    · exact .inl ht
  refine ⟨fun _ => id, fun i e' he' r hr => .inl ⟨e', he', hr⟩, fun c e' he' r hr => .inl ⟨e', he', hr⟩,
    ?_, ?_⟩
  · intro t info' ht hs r hr
    rcases hget ht with ht | rfl
    · exact .inl ⟨info', ht, hs, hr⟩
    · obtain ⟨-, rfl | hr | hr | ⟨f, hf, -⟩⟩ := hr
      · exact .inr hlive
      · rw [hnew.lockObject] at hr
        cases hr
      · rw [hnew.lockedObjects] at hr
        cases hr
      · rw [hnew.frames] at hf
        simp at hf
  · intro t info' ht
    rcases hget ht with ht | rfl
    · exact .inl ⟨info', ht, rfl⟩
    · right
      obtain ⟨e, he⟩ := Option.isSome_iff_exists.mp hlive
      exact isNull_of_monitor? (monitor?_of_get? he)

theorem turn {calm : Prop} (h : k.Turn op k') (hstirs : k.Stirs calm k')
    (hended : ∀ t, k.HasEnded t → k'.HasEnded t)
    (hframes : ∀ f ∈ op.frames, f.Within fun r => k.heap.contains r = true) : k.Extends k' := by
  obtain ⟨hstatics, hslots⟩ := Stirs.slots hstirs
  have hlive : ∀ r, k'.heap.contains r = k.heap.contains r := by
    intro r
    unfold Heap.contains Heap.get?
    cases r.index? with
    | none => rfl
    | some i =>
      have hsome := congrArg Option.isSome (hslots i)
      rwa [Option.isSome_map, Option.isSome_map] at hsome
  have hadds : ∀ t info', k'.threads.get? t = some info' → ∃ info, k.threads.get? t = some info ∧
      info.Adds (fun r => k.heap.contains r = true) info' := by
    intro t info' ht
    refine h.adds (fun o ho => ?_) hframes ht
    rwa [isSome_monitor?] at ho
  refine ⟨fun r hr => by rwa [hlive], ?_, ?_, ?_, ?_⟩
  · intro i e' he' r hr
    have hslot := hslots i
    rw [he', Option.map_some, eq_comm, Option.map_eq_some_iff] at hslot
    obtain ⟨e, he, hsame⟩ := hslot
    refine .inl ⟨e, he, ?_⟩
    have htraces : { e with monitor := {} }.Traces r := by
      rw [hsame]
      exact hr
    exact htraces
  · rw [hstatics]
    exact fun c e' he' r hr => .inl ⟨e', he', hr⟩
  · intro t info' ht hs r hr
    obtain ⟨info, hinfo, hadd⟩ := hadds t info' ht
    rw [hlive]
    refine (hadd.holds hr).imp_left fun hr => ⟨info, hinfo, ?_, hr⟩
    intro hstate
    exact hs ((hasEnded_iff_of_get? ht).mp (hended t ⟨info, hinfo, hstate⟩))
  · intro t info' ht
    obtain ⟨info, hinfo, hadd⟩ := hadds t info' ht
    exact .inl ⟨info, hinfo, hadd.object.symm⟩

end Extends

theorem Linked.collect {c : Collection} (hk : k.Linked) (ho : k.Orderly)
    (h : k.heap.collect k.roots = .ok c) : { k with heap := c.heap }.Linked := by
  have hkeeps : ∀ i, k.heap.arena.contains i = true → k.Alive i → c.heap.arena.contains i = true := by
    intro i hi halive
    rw [(Heap.collect_spec h).2, hi, (alive_iff ho).mp halive]
    rfl
  have hslot : ∀ r, k.heap.contains r = true → ∃ i, k.heap.slot? r = some i := by
    intro r hr
    obtain ⟨e, he⟩ := Option.isSome_iff_exists.mp hr
    obtain ⟨i, hi, he⟩ := Heap.get?_eq_some.mp he
    exact ⟨i, Heap.slot?_eq_some_iff.mpr ⟨hi, Arena.contains_of_get? he⟩⟩
  have hlive : ∀ r i, k.heap.slot? r = some i → k.Alive i → c.heap.contains r = true := by
    intro r i hr halive
    obtain ⟨hi, hcontains⟩ := Heap.slot?_eq_some_iff.mp hr
    have hsome := hkeeps i hcontains halive
    rw [Heap.contains_eq, hi]
    exact hsome
  constructor
  case objects =>
    intro i e' he' r hr
    obtain ⟨e, he, htraces⟩ := Heap.traces_of_collect h i e' he'
    have halive : k.Alive i := by
      have hcontains := Arena.contains_of_get? he'
      rw [(Heap.collect_spec h).2, Bool.and_eq_true] at hcontains
      exact (alive_iff ho).mpr hcontains.2
    obtain ⟨j, hj⟩ := hslot r (hk.objects i e he r (htraces r hr))
    exact hlive r j hj (.trace halive he (htraces r hr) hj)
  case statics =>
    intro d e he r hr
    obtain ⟨j, hj⟩ := hslot r (hk.statics d e he r hr)
    exact hlive r j hj (.static ((Arena.mem_elements _ _).mpr ⟨d, he⟩) hr hj)
  case threads =>
    intro t info ht hs r hr
    obtain ⟨j, hj⟩ := hslot r (hk.threads t info ht hs r hr)
    exact hlive r j hj (.thread (Roster.mem_toList_of_get? ht) hs hr hj)
  case own => exact hk.own

end Kernel

end Interleave
