import Interleave.Heap.Collect
import Interleave.Proofs.Encoding.Cells
import Interleave.Proofs.Except
import Interleave.Proofs.Heap.Marking

/-!
What a collection does to the elements of a heap. Every survivor is the element that was in its slot
before, up to upkeep, and whatever a thread, a static slot or a pin refers to directly survives.
-/

namespace Interleave

def Fields.marks (f : Fields) : List Bool := f.cells.map (·.2)

structure Element.Kept (e e' : Element) : Prop where
  ref : e'.ref = e.ref
  gid : e'.gid = e.gid
  classId : e'.classId = e.classId
  kind : e'.kind = e.kind
  monitor : e'.monitor = e.monitor
  marks : e'.fields.marks = e.fields.marks

theorem Element.Kept.refl (e : Element) : e.Kept e := ⟨rfl, rfl, rfl, rfl, rfl, rfl⟩

theorem Element.Kept.trans {e₁ e₂ e₃ : Element} (h : e₁.Kept e₂) (h' : e₂.Kept e₃) : e₁.Kept e₃ where
  ref := h'.ref.trans h.ref
  gid := h'.gid.trans h.gid
  classId := h'.classId.trans h.classId
  kind := h'.kind.trans h.kind
  monitor := h'.monitor.trans h.monitor
  marks := h'.marks.trans h.marks

theorem Fields.marks_eq (f : Fields) : f.marks = (List.range f.size).map f.isReference := by
  unfold marks
  apply List.ext_getElem?
  intro i
  rw [List.getElem?_map, getElem?_cells, List.getElem?_map, Option.map_map]
  by_cases hi : i < f.size
  · have hv : i < f.values.size := hi
    simp [hi, hv]
  · have hv : ¬ i < f.values.size := hi
    simp [hi, hv]

theorem Fields.isReference_congr {f f' : Fields} (hsize : f'.size = f.size) (hrefs : f'.refs = f.refs) :
    f'.isReference = f.isReference := by
  funext i
  unfold isReference
  rw [hrefs, hsize]

theorem Fields.marks_congr {f f' : Fields} (hsize : f'.size = f.size) (hrefs : f'.refs = f.refs) :
    f'.marks = f.marks := by
  rw [marks_eq, marks_eq, hsize, isReference_congr hsize hrefs]

theorem Fields.marks_setInt {f f' : Fields} {i : Nat} {v : Int32} (h : f.setInt i v = .ok f') :
    f'.marks = f.marks := by
  unfold setInt at h
  split at h
  · cases h
    exact marks_congr (by simp [size]) rfl
  · cases h

theorem Element.kept_maintain {e e' : Element} {u : Upkeep} (h : e.maintain u = .ok e') :
    e.Kept e' := by
  unfold maintain at h
  split at h
  · obtain ⟨f, hf, h⟩ := bind_eq_ok.mp h
    cases h
    exact ⟨rfl, rfl, rfl, rfl, rfl, Fields.marks_setInt hf⟩
  · cases h
    exact ⟨rfl, rfl, rfl, rfl, rfl, rfl⟩

namespace Heap

structure Collected (h h' : Heap) : Prop where
  kept : ∀ i e', h'.arena.get? i = some e' → ∃ e, h.arena.get? i = some e ∧ e.Kept e'
  outOfMemory : h'.outOfMemory = h.outOfMemory
  flagEpoch : h'.flagEpoch = h.flagEpoch

theorem get?_sweep (h : Heap) (masks : Array ThreadMask) (i : Nat) :
    (h.sweep masks).2.arena.get? i =
      if (masks.getD i .empty).isEmpty then none else h.arena.get? i := by
  unfold sweep
  rw [Arena.get?_foldl_erase]
  cases hi : h.arena.get? i with
  | none => simp
  | some e =>
    have hmem : i ∈ h.arena.indices := Arena.mem_indices.mpr (Arena.contains_of_get? hi)
    simp [List.mem_filter, hmem]

theorem maintainAt_cases {masks : Array ThreadMask} {c c' : Collection} {i : Nat}
    (h : maintainAt masks c i = .ok c') :
    c' = c ∨ ∃ e u e' weakCleared scrubbed, c.heap.arena.get? i = some e ∧ e.maintain u = .ok e' ∧
      c' = { c with
        heap := { c.heap with arena := c.heap.arena.replace i e' }
        stats := { c.stats with weakCleared, scrubbed } } := by
  unfold maintainAt at h
  split at h
  · cases h
    exact .inl rfl
  · next e he =>
    obtain ⟨u, -, h⟩ := bind_eq_ok.mp h
    split at h
    · obtain ⟨e', he', h⟩ := bind_eq_ok.mp h
      cases h
      exact .inr ⟨e, u, e', _, _, he, he', rfl⟩
    · cases h
      exact .inl rfl

theorem collected_maintainAt {h : Heap} {masks : Array ThreadMask} {c c' : Collection} {i : Nat}
    (hc : h.Collected c.heap) (h' : maintainAt masks c i = .ok c') :
    h.Collected c'.heap ∧ ∀ j, c'.heap.arena.contains j = c.heap.arena.contains j := by
  obtain rfl | ⟨e, u, e', _, _, he, he', rfl⟩ := maintainAt_cases h'
  · exact ⟨hc, fun _ => rfl⟩
  · refine ⟨⟨?_, hc.outOfMemory, hc.flagEpoch⟩, ?_⟩
    · intro j e₁ he₁
      rw [Arena.get?_replace] at he₁
      split at he₁
      · next hij =>
        subst hij
        rw [he] at he₁
        cases he₁
        obtain ⟨e₀, he₀, hkept⟩ := hc.kept i e he
        exact ⟨e₀, he₀, hkept.trans (Element.kept_maintain he')⟩
      · exact hc.kept j e₁ he₁
    · intro j
      exact c.heap.arena.contains_replace i j e'

theorem collect_spec {h : Heap} {roots : Roots} {c : Collection} (hc : h.collect roots = .ok c) :
    h.Collected c.heap ∧ ∀ j, c.heap.arena.contains j =
      (h.arena.contains j && !((Reach.masks h.arena (h.seeds roots)).getD j .empty).isEmpty) := by
  have hswept := h.get?_sweep (Reach.masks h.arena (h.seeds roots))
  -- nothing is freed after the sweep
  unfold collect at hc
  apply foldlM_induction hc
  · refine ⟨⟨?_, rfl, rfl⟩, ?_⟩
    · intro i e' he'
      have hi := (hswept i).symm.trans he'
      split at hi
      · cases hi
      · exact ⟨e', hi, .refl e'⟩
    · intro j
      rw [Arena.contains_eq h.arena]
      refine ((Arena.contains_eq _ j).trans (congrArg Option.isSome (hswept j))).trans ?_
      split
      · next hm =>
        rw [hm]
        exact (Bool.and_false _).symm
      · next hm =>
        rw [Bool.eq_false_iff.mpr hm]
        exact (Bool.and_true _).symm
  · intro i _ c₁ c₂ h₁ h₂
    have h₂ := collected_maintainAt h₁.1 h₂
    refine ⟨h₂.1, ?_⟩
    intro j
    rw [h₂.2, h₁.2]

theorem mem_seeds {h : Heap} {roots : Roots} {i : Nat} {m : ThreadMask} :
    (i, m) ∈ h.seeds roots ↔
      (∃ e, h.arena.get? i = some e ∧ 0 < e.pins ∧ m = .pinned) ∨
        (∃ t r, (t, r) ∈ roots.threads ∧ r.index? = some i ∧ m = .thread t) ∨
        ∃ r ∈ roots.statics, r.index? = some i ∧ m = .static := by
  unfold seeds
  simp only [List.mem_append, List.mem_map, List.mem_filter, List.mem_filterMap, Option.map_eq_some_iff,
    Prod.mk.injEq, Prod.exists, Option.any_eq_true, Element.isPinned, decide_eq_true_eq, or_assoc]
  constructor
  · rintro (⟨_, ⟨_, e, he, hpin⟩, rfl, rfl⟩ | ⟨t, r, hr, _, hi, rfl, rfl⟩ | ⟨r, hr, _, hi, rfl, rfl⟩)
    · exact .inl ⟨e, he, hpin, rfl⟩
    · exact .inr (.inl ⟨t, r, hr, hi, rfl⟩)
    · exact .inr (.inr ⟨r, hr, hi, rfl⟩)
  · rintro (⟨e, he, hpin, rfl⟩ | ⟨t, r, hr, hi, rfl⟩ | ⟨r, hr, hi, rfl⟩)
    · have hmem := Arena.mem_indices.mpr (Arena.contains_of_get? he)
      exact .inl ⟨i, ⟨hmem, e, he, hpin⟩, rfl, rfl⟩
    · exact .inr (.inl ⟨t, r, hr, i, hi, rfl, rfl⟩)
    · exact .inr (.inr ⟨r, hr, i, hi, rfl, rfl⟩)

theorem contains_collect {h : Heap} {roots : Roots} {c : Collection} (hc : h.collect roots = .ok c)
    {t : ThreadId} {r : Ref} (hr : (t, r) ∈ roots.threads) {e : Element} (he : h.get? r = some e) :
    ∃ e', c.heap.get? r = some e' := by
  obtain ⟨i, hi, he⟩ := Option.bind_eq_some_iff.mp he
  have hlive := Arena.contains_of_get? he
  have hseed : (i, ThreadMask.thread t) ∈ h.seeds roots := mem_seeds.mpr (.inr (.inl ⟨t, r, hr, hi, rfl⟩))
  have hmask := (Reach.masks_iff ThreadMask.additive_not_isEmpty).mpr
    ⟨i, .thread t, hseed, by rw [ThreadMask.isEmpty_thread]; rfl, hlive, .refl⟩
  have hkeep := (collect_spec hc).2 i
  rw [hlive, hmask] at hkeep
  obtain ⟨e', he'⟩ := (Arena.contains_iff _ _).mp hkeep
  exact ⟨e', by unfold get?; rw [hi]; exact he'⟩

end Heap

end Interleave
