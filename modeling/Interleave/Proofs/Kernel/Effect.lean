import Interleave.Proofs.Heap.Packed
import Interleave.Proofs.Kernel.Action
import Interleave.Proofs.Kernel.Naming

/-!
What actions do to a state, and what stays through all of them: the registry and the id pool only grow,
the limit of the heap is fixed, and no slot below the hint of the heap is free.
-/

namespace Interleave

namespace Kernel

theorem Precedes.refl (k : Kernel) : k.Precedes k := ⟨List.prefix_rfl, List.prefix_rfl⟩

theorem Precedes.trans {k k' k'' : Kernel} (h : k.Precedes k') (h' : k'.Precedes k'') :
    k.Precedes k'' :=
  ⟨h.classes.trans h'.classes, h.pool.trans h'.pool⟩

inductive Effect (k : Kernel) : Kernel → Prop where
  | stirs {k' : Kernel} (h : k.Stirs False k') : Effect k k'
  | grows {k' : Kernel} (h : Grows False k k') : Effect k k'
  | intern (key : IdKey) : Effect k { k with pool := (k.pool.intern key).2 }
  | observe (observers : Observers) : Effect k { k with observers }
  | place (build : Ref → Element) (href : ∀ r, (build r).ref = r) :
    Effect k { k with heap := (k.heap.place build).2 }
  | put {o : Ref} {e e' : Element} (he : k.heap.get? o = some e) (href : e'.ref = e.ref) :
    Effect k { k with heap := k.heap.put o e' }
  | collect {roots : Roots} {c : Collection} (h : k.heap.collect roots = .ok c) :
    Effect k { k with heap := c.heap }
  | capture : Effect k { k with heap := k.heap.capture.2 }
  | threads (threads : Array Thread) :
    Effect k { k with threads := { threads, epoch := k.threads.epoch + 1 } }

theorem perform_effect {k k' : Kernel} {op : Op} (h : k.perform op = .ok k') : k.Effect k' := by
  cases hs : op.stirs with
  | true => exact .stirs (perform_stirs hs False.elim h)
  | false => exact .grows (@perform_grows False _ _ _ hs h False.elim False.elim)

theorem act_effect {k k' : Kernel} {a : Action} {r : Answer} (ha : a.restores = false)
    (h : k.act a = .ok (r, k')) : k.Effect k' := by
  cases a with
  | perform op => exact perform_effect (perform_eq_ok.mpr ⟨r, h⟩)
  | ask q =>
    obtain ⟨r', -, h⟩ := bind_eq_ok.mp h
    cases h
    exact .stirs .refl
  | intern key =>
    cases h
    exact .intern key
  | observe observers =>
    cases h
    exact .observe observers
  | allocate c creator gid =>
    cases h
    exact .place (fun ref => .fresh ref gid c.id .object (.ofMask c.instances.refMask) creator)
      fun _ => rfl
  | allocateArray classId elem length creator gid =>
    cases h
    exact .place
      (fun ref => .fresh ref gid classId (.array elem length) (.ofArray elem length) creator)
      fun _ => rfl
  | modify o f =>
    obtain ⟨e, he, h⟩ := bind_eq_ok.mp h
    obtain ⟨⟨r', e'⟩, -, h⟩ := bind_eq_ok.mp h
    cases h
    exact .put (deref_eq_ok.mp he) rfl
  | collectFrom roots =>
    obtain ⟨c, hc, h⟩ := bind_eq_ok.mp h
    cases h
    exact .collect hc
  | captureHeap =>
    cases h
    exact .capture
  | addThread info =>
    obtain ⟨⟨t, threads⟩, hadd, h⟩ := bind_eq_ok.mp h
    cases h
    obtain ⟨-, rfl⟩ := Roster.add_eq_ok.mp hadd
    exact .threads _
  | modifyThread t f =>
    obtain ⟨info, -, h⟩ := bind_eq_ok.mp h
    obtain ⟨⟨r', info'⟩, -, h⟩ := bind_eq_ok.mp h
    cases h
    exact .threads _
  | restoreThreads threads =>
    cases h
    exact .threads _
  | restore m => cases ha
  | restoreHeap m => cases ha

structure Lasts (k k' : Kernel) : Prop where
  precedes : k.Precedes k'
  heap : k.heap.Lasts k'.heap

namespace Lasts

variable {k k' k'' : Kernel}

theorem refl (k : Kernel) : k.Lasts k := ⟨.refl k, .refl _⟩

theorem trans (h : k.Lasts k') (h' : k'.Lasts k'') : k.Lasts k'' :=
  ⟨h.precedes.trans h'.precedes, h.heap.trans h'.heap⟩

theorem onHeap {heap : Heap} (h : k.heap.Lasts heap) : k.Lasts { k with heap } :=
  ⟨⟨List.prefix_rfl, List.prefix_rfl⟩, h⟩

theorem stir {calm : Prop} (h : k.Stir calm k') : k.Lasts k' := by
  cases h with
  | monitor f => exact onHeap (k.heap.lasts_put _ _)
  | _ => exact ⟨⟨List.prefix_rfl, List.prefix_rfl⟩, .refl _⟩

theorem newGlobalId {creator : Option ThreadId} {site : Option Site} {gid : GlobalId}
    (h : k.newGlobalId creator site = .ok (gid, k')) : k.Lasts k' := by
  obtain ⟨thread, -, -, rfl⟩ := newGlobalId_eq_ok.mp h
  exact ⟨⟨List.prefix_rfl, IdPool.prefix_intern _ _⟩, .refl _⟩

theorem grow {proper : Prop} (h : Grow proper k k') : k.Lasts k' := by
  cases h with
  | register c => exact ⟨⟨k.classes.prefix_register c, List.prefix_rfl⟩, .refl _⟩
  | name h => exact newGlobalId h
  | object h => exact (newGlobalId h).trans (onHeap (Heap.lasts_place _ _))
  | thread h =>
    apply (newGlobalId h).trans
    exact ⟨⟨List.prefix_rfl, List.prefix_rfl⟩, Heap.lasts_place _ _⟩
  | load => exact ⟨⟨List.prefix_rfl, IdPool.prefix_intern _ _⟩, Heap.lasts_place _ _⟩
  | write => exact onHeap (k.heap.lasts_put _ _)
  | flag flag => exact onHeap (k.heap.lasts_setOutOfMemory flag)
  | collect h => exact onHeap (Heap.lasts_collect h)
  | _ => exact ⟨⟨List.prefix_rfl, List.prefix_rfl⟩, ⟨rfl, id⟩⟩

theorem effect (h : k.Effect k') : k.Lasts k' := by
  cases h with
  | stirs h =>
    induction h with
    | refl => exact .refl _
    | tail _ h ih => exact ih.trans (stir h)
  | grows h =>
    induction h with
    | refl => exact .refl _
    | tail _ h ih => exact ih.trans (grow h)
  | intern key => exact ⟨⟨List.prefix_rfl, k.pool.prefix_intern key⟩, .refl _⟩
  | place build => exact onHeap (k.heap.lasts_place build)
  | put => exact onHeap (k.heap.lasts_put _ _)
  | collect h => exact onHeap (Heap.lasts_collect h)
  | _ => exact ⟨⟨List.prefix_rfl, List.prefix_rfl⟩, ⟨rfl, id⟩⟩

theorem act {a : Action} {r : Answer} (h : k.act a = .ok (r, k')) : k.Lasts k' := by
  cases a with
  | restore m =>
    cases h
    exact ⟨⟨List.prefix_rfl, List.prefix_rfl⟩, ⟨rfl, fun _ => .restore _ _⟩⟩
  | restoreHeap m =>
    cases h
    exact onHeap ⟨rfl, fun _ => .restore _ _⟩
  | _ => exact effect (act_effect rfl h)

theorem run {as : List Action} {rs : List Answer} (h : k.run as = .ok (rs, k')) : k.Lasts k' := by
  induction as generalizing k rs with
  | nil =>
    cases h
    exact .refl _
  | cons a as ih =>
    obtain ⟨r, k₁, rs', h₁, h₂, -⟩ := run_cons.mp h
    exact (act h₁).trans (ih h₂)

end Lasts

theorem Reachable.packed {k : Kernel} (hk : k.Reachable) : k.heap.arena.Packed := by
  induction hk with
  | start => exact fun _ hi => absurd hi (Nat.not_lt_zero _)
  | act _ _ h ih => exact (Lasts.act h).heap.packed ih
  | restore => exact .restore _ _
  | restoreHeap => exact .restore _ _

end Kernel

end Interleave
