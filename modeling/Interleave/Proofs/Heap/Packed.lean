import Interleave.Proofs.Arena.Bookkeeping
import Interleave.Proofs.Heap.Collect
import Interleave.Proofs.Heap.Update

/-!
What lasts as a heap changes: its next object goes to the lowest free slot, and its limit stays.
-/

namespace Interleave

namespace Heap

structure Lasts (h h' : Heap) : Prop where
  limit : h'.limit = h.limit
  packed : h.arena.Packed → h'.arena.Packed

theorem Lasts.refl (h : Heap) : h.Lasts h := ⟨rfl, id⟩

theorem Lasts.trans {h h' h'' : Heap} (hl : h.Lasts h') (hl' : h'.Lasts h'') : h.Lasts h'' :=
  ⟨hl'.limit.trans hl.limit, fun hp => hl'.packed (hl.packed hp)⟩

theorem lasts_put (h : Heap) (r : Ref) (e : Element) : h.Lasts (h.put r e) := by
  unfold put
  split
  · exact ⟨rfl, fun hp => hp.replace _ e⟩
  · exact .refl h

theorem lasts_setOutOfMemory (h : Heap) (flag : Bool) : h.Lasts (h.setOutOfMemory flag) := by
  unfold setOutOfMemory
  split <;> exact ⟨rfl, id⟩

theorem lasts_place (h : Heap) (build : Ref → Element) : h.Lasts (h.place build).2 := by
  have hallocate : h.Lasts { h with arena := (h.arena.allocate fun i => build (.ofIndex i)).2 } :=
    ⟨rfl, fun hp => hp.allocate fun i => build (.ofIndex i)⟩
  dsimp only [place]
  split
  · exact hallocate.trans (lasts_setOutOfMemory _ true)
  · exact hallocate

theorem lasts_maintainAt {masks : Array ThreadMask} {c c' : Collection} {i : Nat}
    (h : maintainAt masks c i = .ok c') : c.heap.Lasts c'.heap := by
  obtain rfl | ⟨_, _, e, _, _, -, -, rfl⟩ := maintainAt_cases h
  · exact .refl _
  · exact ⟨rfl, fun hp => hp.replace i e⟩

theorem lasts_collect {h : Heap} {roots : Roots} {c : Collection} (hc : h.collect roots = .ok c) :
    h.Lasts c.heap := by
  apply foldlM_induction (motive := fun c => h.Lasts c.heap) hc
  · exact ⟨rfl, fun hp => hp.foldl_erase⟩
  · intro i _ c c' hc hc'
    exact hc.trans (lasts_maintainAt hc')

end Heap

end Interleave
