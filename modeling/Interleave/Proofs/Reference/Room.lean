import Interleave.Proofs.Kernel.Orderly

/-!
Where new objects go. As long as a heap has fewer objects than there are references, the next object is
placed where a reference denotes it.
-/

namespace Interleave

namespace Heap

def maxSize : Nat := 0x80000000

structure Roomy (h : Heap) (n : Nat) : Prop where
  packed : h.arena.Packed
  tallied : h.arena.Tallied
  size : h.size + n ≤ maxSize

variable {h : Heap} {n : Nat} {build : Ref → Element}

theorem size_put (h : Heap) (o : Ref) (e : Element) : (h.put o e).size = h.size := by
  unfold Heap.put
  split
  · exact h.arena.live_modify _ _
  · rfl

theorem size_place (h : Heap) (build : Ref → Element) : (h.place build).2.size = h.size + 1 := by
  unfold Heap.size
  rw [arena_place_eq, Arena.live_allocate]

namespace Roomy

theorem nextFree_lt (hr : h.Roomy (n + 1)) : h.arena.nextFree < maxSize := by
  have hle := Arena.nextFree_le_live hr.packed hr.tallied
  have hsize := hr.size
  unfold Heap.size at hsize
  omega

theorem mono {m : Nat} (hr : h.Roomy n) (hle : m ≤ n) : h.Roomy m :=
  ⟨hr.packed, hr.tallied, Nat.le_trans (Nat.add_le_add_left hle _) hr.size⟩

theorem place (hr : h.Roomy (n + 1)) (build : Ref → Element) : (h.place build).2.Roomy n where
  packed := (h.lasts_place build).packed hr.packed
  tallied := by
    rw [arena_place_eq]
    exact hr.tallied.allocate _
  size := by
    have hsize := hr.size
    rw [size_place]
    omega

theorem put (hr : h.Roomy n) (o : Ref) (e : Element) : (h.put o e).Roomy n where
  packed := (h.lasts_put o e).packed hr.packed
  tallied := by
    unfold Heap.put
    split
    · exact hr.tallied.replace _ e
    · exact hr.tallied
  size := by
    rw [size_put]
    exact hr.size

theorem get?_place (hr : h.Roomy (n + 1)) (build : Ref → Element) :
    (h.place build).2.get? (.ofIndex h.arena.nextFree) = some (build (.ofIndex h.arena.nextFree)) := by
  rw [Heap.get?_place, if_pos (Ref.index?_ofIndex hr.nextFree_lt)]

end Roomy

end Heap

namespace Registry

theorem register_core {r : Registry} (h : core.classes.toList <+: r.classes.toList)
    {c : ClassDescriptor} {i : ClassId} (hi : core.lookup? c.name = some i) : r.register c = (i, r) :=
  register_of_lookup? (findIdx?_mono h hi)

end Registry

namespace Kernel

structure Sited (k : Kernel) : Prop where
  orderly : k.Orderly
  packed : k.heap.arena.Packed
  core : Registry.core.classes.toList <+: k.classes.classes.toList

theorem Built.sited {ok : Kernel → Op → Prop} {k : Kernel} (h : Built ok k) : k.Sited := by
  induction h with
  | start limit observers =>
    refine ⟨⟨⟨Arena.tallied_empty, ?_⟩, ?_⟩, ?_, List.prefix_rfl⟩
    · intro i e he
      cases he
    · intro c e he
      cases he
    · intro i hi
      cases hi
  | perform _ _ h ih =>
    have heffect := perform_effect h
    have hlasts := Lasts.effect heffect
    exact ⟨ih.orderly.effect heffect, hlasts.heap.packed ih.packed, ih.core.trans hlasts.precedes.classes⟩
  | adopt _ _ hle ih _ =>
    exact ⟨⟨ih.orderly.heap, ih.orderly.statics⟩, ih.packed, ih.core.trans hle.classes⟩
  | restore _ _ _ ih ihother =>
    exact ⟨⟨⟨ihother.orderly.heap.tallied, ihother.orderly.heap.ref⟩, ihother.orderly.statics⟩,
      .restore _ _, ih.core⟩

theorem Sited.roomy {k : Kernel} {n : Nat} (hk : k.Sited) (hsize : k.heap.size + n ≤ Heap.maxSize) :
    k.heap.Roomy n :=
  ⟨hk.packed, hk.orderly.heap.tallied, hsize⟩

structure Places (k : Kernel) (build : Ref → Element) (k' : Kernel) : Prop where
  heap : k'.heap = (k.heap.place build).2
  threads : k'.threads = k.threads
  statics : k'.statics = k.statics
  core : Registry.core.classes.toList <+: k.classes.classes.toList →
    Registry.core.classes.toList <+: k'.classes.classes.toList

namespace Places

variable {k k' : Kernel} {build : Ref → Element} {n : Nat}

theorem roomy (h : k.Places build k') (hr : k.heap.Roomy (n + 1)) : k'.heap.Roomy n := by
  rw [h.heap]
  exact hr.place build

theorem get? (h : k.Places build k') (hr : k.heap.Roomy (n + 1)) :
    k'.heap.get? (.ofIndex k.heap.arena.nextFree) = some (build (.ofIndex k.heap.arena.nextFree)) := by
  rw [h.heap]
  exact hr.get?_place build

theorem get?_of_some (h : k.Places build k') {o : Ref} {e : Element} (he : k.heap.get? o = some e) :
    k'.heap.get? o = some e := by
  rw [h.heap]
  exact Heap.get?_place_of_some he

end Places

def KnowsCreator (k : Kernel) (creator : Option ThreadId) : Prop := ∀ t ∈ creator, (k.threads.get? t).isSome

variable {k : Kernel} {creator : Option ThreadId}

theorem newGlobalId_ok (h : k.KnowsCreator creator) (site : Option Site) :
    ∃ gid pool tally, k.newGlobalId creator site = .ok (gid, { k with pool, tally }) := by
  have hmapM : ∃ thread, creator.mapM (fun t => return (← k.threads.get t).gid) =
      (.ok thread : Except Fault _) := by
    cases creator with
    | none => exact ⟨none, rfl⟩
    | some t =>
      obtain ⟨info, ht⟩ := Option.isSome_iff_exists.mp (h t rfl)
      refine ⟨some info.gid, ?_⟩
      rw [Option.mapM_some, get_eq_ok.mpr ht]
      rfl
  obtain ⟨thread, hthread⟩ := hmapM
  exact ⟨_, _, _, newGlobalId_eq_ok.mpr ⟨thread, hthread, rfl, rfl⟩⟩

theorem newObject_ok {c : ClassId} {desc : ClassDescriptor} (h : k.KnowsCreator creator)
    (hc : k.classes.classes[c]? = some desc) (site : Option Site) :
    ∃ gid k', k.newObject c creator site = .ok (.ofIndex k.heap.arena.nextFree, k') ∧
      k.Places (fun r => .fresh r gid desc.id .object (.ofMask desc.instances.refMask) creator) k' := by
  obtain ⟨gid, pool, tally, hgid⟩ := newGlobalId_ok h site
  refine ⟨gid, _, bind_eq_ok.mpr ⟨_, hgid, bind_eq_ok.mpr ⟨desc, Registry.get_eq_ok.mpr hc, rfl⟩⟩, ?_⟩
  exact ⟨rfl, rfl, rfl, id⟩

theorem newArray_ok (h : k.KnowsCreator creator) (elem : ValueKind) (length : Nat) (site : Option Site) :
    ∃ gid c k', k.newArray elem length creator site = .ok (.ofIndex k.heap.arena.nextFree, k') ∧
      k.Places (fun r => .fresh r gid c (.array elem length) (.ofArray elem length) creator) k' := by
  obtain ⟨gid, pool, tally, hgid⟩ := newGlobalId_ok h site
  refine ⟨gid, _, _, bind_eq_ok.mpr ⟨_, hgid, rfl⟩, rfl, rfl, rfl, ?_⟩
  exact fun hcore => hcore.trans (k.classes.prefix_register (.array elem))

end Kernel

end Interleave
