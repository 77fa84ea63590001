import Interleave.Proofs.Kernel.Effect

/-!
Bookkeeping that no action disturbs: the heap counts its objects right, every object knows its slot, and
static slots are never weak holders.
-/

namespace Interleave

namespace Heap

structure Orderly (h : Heap) : Prop where
  tallied : h.arena.Tallied
  ref : ∀ i e, h.arena.get? i = some e → e.ref = .ofIndex i

namespace Orderly

variable {h : Heap} (ho : h.Orderly)

include ho

theorem put {o : Ref} {e e' : Element} (he : h.get? o = some e) (href : e'.ref = e.ref) :
    (h.put o e').Orderly := by
  obtain ⟨i, hi, he⟩ := get?_eq_some.mp he
  refine ⟨?_, ?_⟩
  · unfold Heap.put
    rw [hi]
    exact ho.tallied.replace i e'
  · intro j x hx
    rw [arena_put] at hx
    split at hx
    · next hij =>
      have hij : i = j := Option.some.inj (hi.symm.trans hij)
      subst hij
      rw [he] at hx
      cases hx
      rw [href]
      exact ho.ref i e he
    · exact ho.ref j x hx

theorem setOutOfMemory (flag : Bool) : (h.setOutOfMemory flag).Orderly := by
  refine ⟨?_, ?_⟩
  · rw [arena_setOutOfMemory]
    exact ho.tallied
  · rw [arena_setOutOfMemory]
    exact ho.ref

theorem place {build : Ref → Element} (href : ∀ r, (build r).ref = r) :
    (h.place build).2.Orderly := by
  refine ⟨?_, ?_⟩
  · have hallocate := ho.tallied.allocate fun i => build (.ofIndex i)
    dsimp only [Heap.place]
    split
    · rw [arena_setOutOfMemory]
      exact hallocate
    · exact hallocate
  · intro j x hx
    rw [arena_place] at hx
    split at hx
    · cases hx
      exact href _
    · exact ho.ref j x hx

theorem collect {roots : Roots} {c : Collection} (hc : h.collect roots = .ok c) : c.heap.Orderly := by
  refine ⟨?_, ?_⟩
  · apply foldlM_induction (motive := fun c => c.heap.arena.Tallied) hc
    · exact ho.tallied.foldl_erase
    · intro i _ c₁ c₂ h₁ h₂
      obtain rfl | ⟨_, _, e, _, _, -, -, rfl⟩ := maintainAt_cases h₂
      · exact h₁
      · exact h₁.replace i e
  · intro i e' he'
    obtain ⟨e, he, hkept⟩ := (collect_spec hc).1.kept i e' he'
    rw [hkept.ref]
    exact ho.ref i e he

end Orderly

end Heap

namespace Kernel

structure Orderly (k : Kernel) : Prop where
  heap : k.heap.Orderly
  statics : ∀ c e, k.statics.get? c = some e → e.weak = false

namespace Orderly

variable {k k' : Kernel}

theorem stir {calm : Prop} (hk : k.Orderly) (h : k.Stir calm k') : k'.Orderly := by
  cases h with
  | monitor f he => exact ⟨hk.heap.put he rfl, hk.statics⟩
  | _ => exact ⟨hk.heap, hk.statics⟩

theorem newGlobalId {creator : Option ThreadId} {site : Option Site} {gid : GlobalId} (hk : k.Orderly)
    (h : k.newGlobalId creator site = .ok (gid, k')) : k'.Orderly := by
  obtain ⟨thread, -, -, rfl⟩ := newGlobalId_eq_ok.mp h
  exact ⟨hk.heap, hk.statics⟩

theorem grow {proper : Prop} (hk : k.Orderly) (h : Grow proper k k') : k'.Orderly := by
  cases h with
  | name h => exact hk.newGlobalId h
  | object h hbuild =>
    have hk' := hk.newGlobalId h
    exact ⟨hk'.heap.place hbuild.ref, hk'.statics⟩
  | thread h hbuild =>
    have hk' := hk.newGlobalId h
    exact ⟨hk'.heap.place hbuild.ref, hk'.statics⟩
  | load hnew hdesc hbuild =>
    refine ⟨hk.heap.place hbuild.ref, ?_⟩
    intro c e he
    unfold Statics.addClass at he
    split at he
    · exact hk.statics c e he
    · replace he : (k.statics.arena.insert _ _).get? c = some e := he
      rw [Arena.get?_insert] at he
      split at he
      · cases he
        rfl
      · exact hk.statics c e he
  | write he hkept => exact ⟨hk.heap.put he hkept.ref, hk.statics⟩
  | flag flag => exact ⟨hk.heap.setOutOfMemory flag, hk.statics⟩
  | strings strings => exact ⟨⟨hk.heap.tallied, hk.heap.ref⟩, hk.statics⟩
  | @writeStatic c e e' he _ _ _ hweak =>
    refine ⟨hk.heap, ?_⟩
    intro c' x hx
    replace hx : (k.statics.arena.replace c e').get? c' = some x := hx
    rw [Arena.get?_replace] at hx
    split at hx
    · next hc =>
      subst hc
      rw [show k.statics.arena.get? c = some e from he] at hx
      cases hx
      rw [hweak]
      exact hk.statics c e he
    · exact hk.statics c' x hx
  | collect h => exact ⟨hk.heap.collect h, hk.statics⟩
  | capture => exact ⟨⟨hk.heap.tallied, hk.heap.ref⟩, hk.statics⟩
  | _ => exact ⟨hk.heap, hk.statics⟩

theorem effect (hk : k.Orderly) (h : k.Effect k') : k'.Orderly := by
  cases h with
  | stirs h =>
    induction h with
    | refl => exact hk
    | tail _ h ih => exact ih.stir h
  | grows h =>
    induction h with
    | refl => exact hk
    | tail _ h ih => exact ih.grow h
  | place build href => exact ⟨hk.heap.place href, hk.statics⟩
  | put he href => exact ⟨hk.heap.put he href, hk.statics⟩
  | collect h => exact ⟨hk.heap.collect h, hk.statics⟩
  | capture => exact ⟨⟨hk.heap.tallied, hk.heap.ref⟩, hk.statics⟩
  | _ => exact ⟨hk.heap, hk.statics⟩

end Orderly

theorem Reachable.orderly {k : Kernel} (hk : k.Reachable) : k.Orderly := by
  induction hk with
  | start =>
    exact ⟨⟨Arena.tallied_empty, fun i e he => by simp [Arena.get?, Heap.withLimit] at he⟩, fun c e he => by
      simp [Statics.get?, Arena.get?] at he⟩
  | act _ ha h ih => exact ih.effect (act_effect ha h)
  | restore _ _ _ ih => exact ⟨⟨ih.heap.tallied, ih.heap.ref⟩, ih.statics⟩
  | restoreHeap _ _ ihk ih => exact ⟨⟨ih.heap.tallied, ih.heap.ref⟩, ihk.statics⟩

end Kernel

end Interleave
