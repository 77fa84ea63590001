import Interleave.Proofs.Heap.Packed

/-!
Heaps with the same contents. Epochs, interned strings and the place where the search for a free slot
begins may differ; no operation on the two heaps tells them apart.
-/

namespace Interleave

namespace Arena

variable {α : Type} {a b : Arena α}

theorem capture_insert (h : b.capture.1 = a.capture.1) (i : Nat) (x : α) :
    (b.insert i x).capture.1 = (a.insert i x).capture.1 := by
  cases a
  cases b
  cases h
  rfl

theorem capture_replace (h : b.capture.1 = a.capture.1) (i : Nat) (x : α) :
    (b.replace i x).capture.1 = (a.replace i x).capture.1 := by
  have hcontains := contains_of_capture h i
  unfold replace modify
  by_cases hc : a.contains i = true
  · rw [dif_pos hc, dif_pos (hcontains.trans hc)]
    cases a
    cases b
    cases h
    rfl
  · rw [dif_neg hc, dif_neg (hcontains ▸ hc)]
    exact h

theorem capture_erase (h : b.capture.1 = a.capture.1) (i : Nat) :
    (b.erase i).capture.1 = (a.erase i).capture.1 := by
  have hcontains := contains_of_capture h i
  unfold erase
  by_cases hc : a.contains i = true
  · rw [dif_pos hc, dif_pos (hcontains.trans hc)]
    cases a
    cases b
    cases h
    rfl
  · rw [dif_neg hc, dif_neg (hcontains ▸ hc)]
    exact h

theorem capture_foldl_erase {l : List Nat} (h : b.capture.1 = a.capture.1) :
    (l.foldl erase b).capture.1 = (l.foldl erase a).capture.1 := by
  induction l generalizing a b with
  | nil => exact h
  | cons i l ih => exact ih (capture_erase h i)

end Arena

namespace Marker

variable {a b : Arena Element}

theorem markAll_congr (h : ∀ i, b.get? i = a.get? i) : markAll b = markAll a := by
  have hmark : mark b = mark a := by
    funext s i m
    unfold mark
    rw [Arena.contains_eq, Arena.contains_eq, h]
  unfold markAll
  rw [hmark]

theorem pass_congr (h : ∀ i, b.get? i = a.get? i) : pass b = pass a := by
  funext s i
  unfold pass
  rw [h, markAll_congr h]

theorem drain_congr (h : ∀ i, b.get? i = a.get? i) (s : Marker) : s.drain b = s.drain a := by
  fun_induction drain a s with
  | case1 s hqueue =>
    rw [drain]
    split
    · rfl
    · next hqueue' =>
      rw [hqueue] at hqueue'
      cases hqueue'
  | case2 s i rest hqueue _ ih =>
    rw [drain]
    split
    · next hqueue' =>
      rw [hqueue] at hqueue'
      cases hqueue'
    · next hqueue' =>
      rw [hqueue] at hqueue'
      cases hqueue'
      dsimp only
      rw [pass_congr h]
      exact ih

end Marker

namespace Heap

structure Mirrors (h h' : Heap) : Prop where
  image : h'.capture.1 = h.capture.1
  limit : h'.limit = h.limit
  packed : h.arena.Packed
  packed' : h'.arena.Packed

end Heap

structure Collection.Mirrors (c c' : Collection) : Prop where
  heap : c.heap.Mirrors c'.heap
  stats : c'.stats = c.stats
  released : c'.released = c.released

namespace Heap.Mirrors

variable {h h' : Heap}

theorem outOfMemory (hm : h.Mirrors h') : h'.outOfMemory = h.outOfMemory :=
  congrArg (·.outOfMemory) hm.image

theorem arena (hm : h.Mirrors h') : h'.arena.capture.1 = h.arena.capture.1 :=
  congrArg (·.arena) hm.image

theorem getSlot? (hm : h.Mirrors h') (i : Nat) : h'.arena.get? i = h.arena.get? i :=
  Arena.get?_of_capture hm.arena i

theorem get? (hm : h.Mirrors h') (r : Ref) : h'.get? r = h.get? r := by
  unfold Heap.get?
  rw [funext hm.getSlot?]

theorem contains (hm : h.Mirrors h') : h'.contains = h.contains :=
  funext fun r => congrArg Option.isSome (hm.get? r)

theorem nextFree_eq (hm : h.Mirrors h') : h'.arena.nextFree = h.arena.nextFree :=
  hm.packed.nextFree_eq hm.packed' (Arena.contains_of_capture hm.arena)

theorem onArena (hm : h.Mirrors h') {a a' : Arena Element} (ha : a'.capture.1 = a.capture.1)
    (hp : a.Packed) (hp' : a'.Packed) : { h with arena := a }.Mirrors { h' with arena := a' } where
  image := (Heap.Image.mk.injEq ..).mpr ⟨ha, hm.outOfMemory⟩
  limit := hm.limit
  packed := hp
  packed' := hp'

theorem replace (hm : h.Mirrors h') (i : Nat) (e : Element) :
    { h with arena := h.arena.replace i e }.Mirrors { h' with arena := h'.arena.replace i e } :=
  hm.onArena (Arena.capture_replace hm.arena i e) (hm.packed.replace i e) (hm.packed'.replace i e)

theorem put (hm : h.Mirrors h') (r : Ref) (e : Element) : (h.put r e).Mirrors (h'.put r e) := by
  unfold Heap.put
  split
  · exact hm.replace _ e
  · exact hm

theorem deref (hm : h.Mirrors h') (r : Ref) : h'.deref r = h.deref r := by
  unfold Heap.deref
  rw [hm.get?]

theorem update (hm : h.Mirrors h') (r : Ref) (f : Element → Except Fault Element) :
    Follows Mirrors (h.update r f) (h'.update r f) := by
  unfold Heap.update
  rw [hm.deref]
  apply Follows.after
  intro e
  apply Follows.after
  intro e'
  exact .pure (hm.put r e')

theorem setOutOfMemory (hm : h.Mirrors h') (flag : Bool) :
    (h.setOutOfMemory flag).Mirrors (h'.setOutOfMemory flag) := by
  unfold Heap.setOutOfMemory
  rw [hm.outOfMemory]
  split
  · exact hm
  · exact ⟨(Heap.Image.mk.injEq ..).mpr ⟨hm.arena, rfl⟩, hm.limit, hm.packed, hm.packed'⟩

theorem overLimit (hm : h.Mirrors h') : h'.overLimit = h.overLimit := by
  have hsize : h'.size = h.size := congrArg (·.arena.live) hm.image
  unfold Heap.overLimit
  rw [hm.limit, hsize]

theorem place (hm : h.Mirrors h') (build : Ref → Element) :
    (h'.place build).1 = (h.place build).1 ∧ (h.place build).2.Mirrors (h'.place build).2 := by
  have hnext := hm.nextFree_eq
  have hallocate : { h with arena := (h.arena.allocate fun i => build (.ofIndex i)).2 }.Mirrors
      { h' with arena := (h'.arena.allocate fun i => build (.ofIndex i)).2 } := by
    apply hm.onArena _ (hm.packed.allocate _) (hm.packed'.allocate _)
    dsimp only [Arena.allocate, Arena.seek]
    rw [hnext]
    exact Arena.capture_insert hm.arena _ _
  refine ⟨congrArg Ref.ofIndex hnext, ?_⟩
  dsimp only [Heap.place]
  rw [hallocate.overLimit]
  split
  · exact hallocate.setOutOfMemory true
  · exact hallocate

theorem seeds (hm : h.Mirrors h') (roots : Roots) : h'.seeds roots = h.seeds roots := by
  unfold Heap.seeds
  rw [Arena.indices_of_capture hm.arena, funext hm.getSlot?]

theorem masks (hm : h.Mirrors h') (seeds : List (Nat × ThreadMask)) :
    Reach.masks h'.arena seeds = Reach.masks h.arena seeds := by
  have hcapacity : h'.arena.capacity = h.arena.capacity := congrArg (·.cells.size) hm.arena
  unfold Reach.masks
  rw [hcapacity, Marker.markAll_congr hm.getSlot?, Marker.drain_congr hm.getSlot?]

theorem sweep (hm : h.Mirrors h') (masks : Array ThreadMask) :
    (h'.sweep masks).1 = (h.sweep masks).1 ∧ (h.sweep masks).2.Mirrors (h'.sweep masks).2 := by
  unfold Heap.sweep
  rw [Arena.indices_of_capture hm.arena, funext hm.getSlot?]
  exact ⟨rfl, hm.onArena (Arena.capture_foldl_erase hm.arena) hm.packed.foldl_erase
    hm.packed'.foldl_erase⟩

theorem maintainAt {c c' : Collection} (hc : c.Mirrors c') (masks : Array ThreadMask) (i : Nat) :
    Follows Collection.Mirrors (Heap.maintainAt masks c i) (Heap.maintainAt masks c' i) := by
  unfold Heap.maintainAt
  rw [hc.heap.getSlot?, hc.heap.contains, hc.stats, hc.released]
  split
  · exact .pure hc
  · apply Follows.after
    intro u
    split
    · apply Follows.after
      intro e
      exact .pure ⟨hc.heap.replace i e, rfl, rfl⟩
    · exact .pure hc

theorem collect (hm : h.Mirrors h') (roots : Roots) :
    Follows Collection.Mirrors (h.collect roots) (h'.collect roots) := by
  obtain ⟨hreleased, hswept⟩ := hm.sweep (Reach.masks h.arena (h.seeds roots))
  have hsize : h'.size = h.size := congrArg (·.arena.live) hm.image
  unfold Heap.collect
  dsimp only
  rw [hm.seeds, hm.masks, hreleased, hsize, Arena.indices_of_capture hswept.arena]
  exact Follows.foldlM (fun i c c' hc => maintainAt hc _ i) ⟨hswept, rfl, rfl⟩

end Heap.Mirrors

end Interleave
