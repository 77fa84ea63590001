import Interleave.Encoding.Signature
import Interleave.Proofs.Encoding.Correspondence
import Interleave.Proofs.Kernel.Grow

/-!
An encoding depends on nothing but what a snapshot captures, and the epochs count every change of that.
So a remembered signature is right as long as the epochs stand still.
-/

namespace Interleave

structure Counted {α : Type} (epoch epoch' : Nat) (c c' : α) : Prop where
  le : epoch ≤ epoch'
  eq : epoch' = epoch → c' = c

namespace Counted

variable {α : Type} {n n' n'' : Nat} {c c' c'' : α}

theorem refl (n : Nat) (c : α) : Counted n n c c := ⟨Nat.le_refl n, fun _ => rfl⟩

theorem next (n : Nat) (c c' : α) : Counted n (n + 1) c c' := ⟨by omega, by omega⟩

theorem trans (h : Counted n n' c c') (h' : Counted n' n'' c' c'') : Counted n n'' c c'' := by
  have hle := h.le
  have hle' := h'.le
  refine ⟨by omega, ?_⟩
  intro hn
  rw [h'.eq (by omega), h.eq (by omega)]

end Counted

namespace Arena

variable {α : Type}

def Tracks (a a' : Arena α) : Prop := Counted a.epoch a'.epoch a.capture.1 a'.capture.1

theorem Tracks.trans {a a' a'' : Arena α} (h : a.Tracks a') (h' : a'.Tracks a'') : a.Tracks a'' :=
  Counted.trans h h'

theorem tracks_allocate (a : Arena α) (build : Nat → α) : a.Tracks (a.allocate build).2 := .next _ _ _

theorem tracks_replace (a : Arena α) (i : Nat) (x : α) : a.Tracks (a.replace i x) := by
  unfold replace modify
  split
  · exact .next _ _ _
  · exact .refl _ _

theorem tracks_erase (a : Arena α) (i : Nat) : a.Tracks (a.erase i) := by
  unfold erase
  split
  · exact .next _ _ _
  · exact .refl _ _

theorem tracks_foldl_erase (l : List Nat) (a : Arena α) : a.Tracks (l.foldl erase a) := by
  induction l generalizing a with
  | nil => exact .refl _ _
  | cons i l ih => exact (a.tracks_erase i).trans (ih _)

end Arena

namespace Heap

structure Tracks (h h' : Heap) : Prop where
  arena : h.arena.Tracks h'.arena
  flag : Counted h.flagEpoch h'.flagEpoch h.outOfMemory h'.outOfMemory

theorem Tracks.refl (h : Heap) : h.Tracks h := ⟨.refl _ _, .refl _ _⟩

theorem Tracks.trans {h h' h'' : Heap} (ht : h.Tracks h') (ht' : h'.Tracks h'') : h.Tracks h'' :=
  ⟨ht.arena.trans ht'.arena, ht.flag.trans ht'.flag⟩

theorem tracks_put (h : Heap) (r : Ref) (e : Element) : h.Tracks (h.put r e) := by
  unfold put
  split
  · exact ⟨h.arena.tracks_replace _ e, .refl _ _⟩
  · exact .refl h

theorem tracks_setOutOfMemory (h : Heap) (flag : Bool) : h.Tracks (h.setOutOfMemory flag) := by
  unfold setOutOfMemory
  split
  · exact .refl h
  · exact ⟨.refl _ _, .next _ _ _⟩

theorem tracks_place (h : Heap) (build : Ref → Element) : h.Tracks (h.place build).2 := by
  have hallocate : h.Tracks { h with arena := (h.arena.allocate fun i => build (.ofIndex i)).2 } :=
    ⟨h.arena.tracks_allocate fun i => build (.ofIndex i), .refl _ _⟩
  dsimp only [place]
  split
  · exact hallocate.trans (tracks_setOutOfMemory _ true)
  · exact hallocate

theorem tracks_maintainAt {masks : Array ThreadMask} {c c' : Collection} {i : Nat}
    (h : maintainAt masks c i = .ok c') : c.heap.Tracks c'.heap := by
  obtain rfl | ⟨_, _, e, _, _, -, -, rfl⟩ := maintainAt_cases h
  · exact .refl _
  · exact ⟨c.heap.arena.tracks_replace i e, .refl _ _⟩

theorem tracks_collect {h : Heap} {roots : Roots} {c : Collection} (hc : h.collect roots = .ok c) :
    h.Tracks c.heap := by
  apply foldlM_induction (motive := fun c => h.Tracks c.heap) hc
  · exact ⟨Arena.tracks_foldl_erase _ h.arena, .refl _ _⟩
  · intro i _ c c' hc hc'
    exact hc.trans (tracks_maintainAt hc')

end Heap

namespace Kernel

structure Tracks (k k' : Kernel) : Prop where
  heap : k.heap.Tracks k'.heap
  statics : k.statics.arena.Tracks k'.statics.arena
  threads : Counted k.threads.epoch k'.threads.epoch k.threads.threads k'.threads.threads
  ids : Counted k.tally.epoch k'.tally.epoch k.tally.counts k'.tally.counts
  atomic : Counted k.atomicEpoch k'.atomicEpoch k.atomic k'.atomic

namespace Tracks

variable {k k' k'' : Kernel}

theorem refl (k : Kernel) : k.Tracks k := ⟨.refl _, .refl _ _, .refl _ _, .refl _ _, .refl _ _⟩

theorem trans (h : k.Tracks k') (h' : k'.Tracks k'') : k.Tracks k'' where
  heap := h.heap.trans h'.heap
  statics := h.statics.trans h'.statics
  threads := h.threads.trans h'.threads
  ids := h.ids.trans h'.ids
  atomic := h.atomic.trans h'.atomic

theorem onHeap {heap : Heap} (h : k.heap.Tracks heap) : k.Tracks { k with heap } :=
  ⟨h, .refl _ _, .refl _ _, .refl _ _, .refl _ _⟩

theorem tell (k : Kernel) (e : Event) : k.Tracks (k.tell e) :=
  ⟨.refl _, .refl _ _, .refl _ _, .refl _ _, .refl _ _⟩

theorem stir {calm : Prop} (h : k.Stir calm k') : k.Tracks k' := by
  cases h with
  | tell e => exact tell k e
  | thread f => exact ⟨.refl _, .refl _ _, .next _ _ _, .refl _ _, .refl _ _⟩
  | monitor f => exact onHeap (k.heap.tracks_put _ _)
  | atomic a => exact ⟨.refl _, .refl _ _, .refl _ _, .refl _ _, .next _ _ _⟩

theorem newGlobalId {creator : Option ThreadId} {site : Option Site} {gid : GlobalId}
    (h : k.newGlobalId creator site = .ok (gid, k')) : k.Tracks k' := by
  obtain ⟨thread, -, -, rfl⟩ := newGlobalId_eq_ok.mp h
  exact ⟨.refl _, .refl _ _, .refl _ _, .next _ _ _, .refl _ _⟩

theorem grow {proper : Prop} (h : Grow proper k k') : k.Tracks k' := by
  cases h with
  | name h => exact newGlobalId h
  | object h => exact (newGlobalId h).trans (onHeap (Heap.tracks_place _ _))
  | thread h =>
    apply (newGlobalId h).trans
    exact ⟨Heap.tracks_place _ _, .refl _ _, .next _ _ _, .refl _ _, .refl _ _⟩
  | load hnew hdesc =>
    refine ⟨Heap.tracks_place _ _, ?_, .refl _ _, .refl _ _, .refl _ _⟩
    unfold Statics.addClass
    split
    · exact .refl _ _
    · exact .next _ _ _
  | write => exact onHeap (k.heap.tracks_put _ _)
  | flag flag => exact onHeap (k.heap.tracks_setOutOfMemory flag)
  | strings strings => exact onHeap ⟨.refl _ _, .refl _ _⟩
  | writeStatic => exact ⟨.refl _, k.statics.arena.tracks_replace _ _, .refl _ _, .refl _ _, .refl _ _⟩
  | collect h => exact onHeap (Heap.tracks_collect h)
  | _ => exact ⟨⟨.refl _ _, .refl _ _⟩, .refl _ _, .refl _ _, .refl _ _, .refl _ _⟩

theorem stirs {calm : Prop} (h : k.Stirs calm k') : k.Tracks k' := by
  induction h with
  | refl => exact .refl k
  | tail _ h ih => exact ih.trans (stir h)

theorem grows {proper : Prop} (h : Grows proper k k') : k.Tracks k' := by
  induction h with
  | refl => exact .refl k
  | tail _ h ih => exact ih.trans (grow h)

theorem perform (op : Op) (h : k.perform op = .ok k') : k.Tracks k' := by
  cases hs : op.stirs with
  | true => exact stirs (perform_stirs hs False.elim h)
  | false => exact grows (@perform_grows False _ _ _ hs h False.elim False.elim)

theorem operation {α : Type} {f : Kernel → Except Fault (α × Kernel)} {a : α} (op : Op)
    (hop : ∀ k, k.perform op = f k >>= fun r => pure r.2) (h : f k = .ok (a, k')) : k.Tracks k' :=
  perform op ((hop k).trans (snd_eq_ok.mpr ⟨a, h⟩))

theorem collect {stats : CollectionStats} (h : k.collect = .ok (stats, k')) : k.Tracks k' :=
  grows (@grows_collect False _ _ _ h)

theorem snapshot_eq (h : k.Tracks k') (he : k'.epochs = k.epochs) : k'.snapshot.1 = k.snapshot.1 := by
  unfold epochs at he
  obtain ⟨hheap, hstatics, hthreads, hids, hatomic⟩ := Epochs.mk.inj he
  have harena := h.heap.arena.le
  have hflag := h.heap.flag.le
  unfold Heap.epoch at hheap
  have hcells : k'.heap.arena.capture.1 = k.heap.arena.capture.1 := h.heap.arena.eq (by omega)
  have houtOfMemory : k'.heap.outOfMemory = k.heap.outOfMemory := h.heap.flag.eq (by omega)
  have hslots : k'.statics.arena.capture.1 = k.statics.arena.capture.1 := h.statics.eq hstatics
  dsimp only [snapshot, Heap.capture, Statics.capture]
  rw [hcells, houtOfMemory, hslots, h.threads.eq hthreads, h.ids.eq hids, h.atomic.eq hatomic]

end Tracks

section

variable {k k' : Kernel} (h : k.snapshot.1 = k'.snapshot.1)

def SameSlot (k : Kernel) (i j : Nat) : Prop := i = j ∧ k.heap.arena.contains i = true

include h

theorem arena_get?_of_snapshot : k'.heap.arena.get? = k.heap.arena.get? := by
  funext i
  exact (Arena.get?_of_capture (congrArg (·.heap.arena) h) i).symm

theorem arena_contains_of_snapshot : k'.heap.arena.contains = k.heap.arena.contains := by
  funext i
  exact (Arena.contains_of_capture (congrArg (·.heap.arena) h) i).symm

theorem get?_of_snapshot : k'.heap.get? = k.heap.get? := by
  funext r
  unfold Heap.get?
  rw [arena_get?_of_snapshot h]

theorem ref_corresponds (r : Ref) : r.Corresponds k.heap k'.heap k.SameSlot r := by
  have hslot : k'.heap.slot? r = k.heap.slot? r := by
    unfold Heap.slot?
    rw [arena_contains_of_snapshot h]
  unfold Ref.Corresponds
  rw [hslot]
  cases hs : k.heap.slot? r with
  | none => exact .none
  | some i => exact .some ⟨rfl, (Heap.slot?_eq_some_iff.mp hs).2⟩

theorem cells_correspond (l : List Cell) :
    List.Forall₂ (Cell.Corresponds k.heap k'.heap k.SameSlot) l l :=
  List.forall₂_same.mpr fun c _ => ⟨rfl, fun _ => rfl, fun _ => ref_corresponds h ⟨c.1⟩⟩

theorem thread_alike_self (t : Thread) : t.Alike k.heap k'.heap k.SameSlot t := by
  have hname : k'.heap.nameOf? = k.heap.nameOf? := by
    funext r
    unfold Heap.nameOf?
    rw [get?_of_snapshot h]
  refine ⟨ref_corresponds h t.object, ?_, rfl, rfl, rfl, rfl, by rw [hname], by rw [hname]⟩
  exact List.forall₂_same.mpr fun f _ => ⟨rfl, rfl, cells_correspond h f.cells⟩

theorem static_corresponds_self (e : Element) :
    e.StaticCorresponds k.heap k'.heap k.SameSlot e := by
  refine ⟨rfl, rfl, ?_, cells_correspond h e.fields.cells⟩
  cases e.classRef? with
  | none => exact .none
  | some r => exact .some (ref_corresponds h r)

theorem encode_eq_of_snapshot : k.encode = k'.encode := by
  have hthreads : k.threads.toList = k'.threads.toList := congrArg (·.threads.toList) h
  have helements : k.statics.elements = k'.statics.elements :=
    Arena.elements_of_capture (congrArg (·.statics) h)
  apply Corresponds.encode_eq (P := k.SameSlot)
  refine ⟨⟨?_, ?_, ?_, congrArg (·.statics.live) h, ?_, congrArg (·.heap.outOfMemory) h, ?_⟩, ?_⟩
  · constructor
    · intro i i' j hi hi'
      exact hi.1.trans hi'.1.symm
    · intro i j j' hj hj'
      exact hj.1.symm.trans hj'.1
  · rintro i j ⟨rfl, hi⟩
    obtain ⟨e, he⟩ := (Arena.contains_iff _ _).mp hi
    refine ⟨e, e, he, by rw [arena_get?_of_snapshot h]; exact he, rfl, rfl, rfl, ?_⟩
    exact cells_correspond h e.fields.cells
  · rw [← hthreads]
    exact List.forall₂_same.mpr fun t _ => thread_alike_self h t
  · rw [← helements]
    exact List.forall₂_same.mpr fun e _ => static_corresponds_self h e
  · apply atomicOwnerName_congr (congrArg (·.atomic.owner) h)
    rw [← hthreads]
    exact List.forall₂_same.mpr fun _ _ => rfl
  · rw [hthreads]

theorem signature_eq_of_snapshot : k.signature = k'.signature := by
  unfold signature
  rw [encode_eq_of_snapshot h]

end

end Kernel

theorem Cursor.seen_of_poll {c : Cursor} {k : Kernel} (h : (c.poll k).1.any = false) :
    c.seen = some k.epochs := by
  unfold poll at h
  split at h
  · next seen hseen =>
    simp only [Changes.any, Epochs.changesSince, Bool.or_eq_false_iff, bne_eq_false_iff_eq] at h
    obtain ⟨⟨⟨⟨hheap, hstatics⟩, hthreads⟩, hids⟩, hatomic⟩ := h
    rw [hseen, Option.some.injEq]
    cases seen
    cases hheap
    cases hstatics
    cases hthreads
    cases hids
    cases hatomic
    rfl
  · cases h

namespace Serializer

theorem signature_eq_ok {s s' : Serializer} {k : Kernel} {sig : Signature}
    (h : s.signature k = .ok (sig, s')) :
    k.signature = .ok sig ∨ s.cached = some sig ∧ s.cursor.seen = some k.epochs := by
  dsimp only [signature] at h
  split at h
  · next hcached hsame =>
    cases h
    exact .inr ⟨hcached, Cursor.seen_of_poll hsame⟩
  · obtain ⟨sig', hsig, h⟩ := bind_eq_ok.mp h
    cases h
    exact .inl hsig

theorem signature_prime {s s' : Serializer} {k k' : Kernel} {sig sig' : Signature} (hk : k.Tracks k')
    (hsig : k.signature = .ok sig) (h : (s.prime k sig).signature k' = .ok (sig', s')) :
    k'.signature = .ok sig' := by
  rcases signature_eq_ok h with h | ⟨hcached, hseen⟩
  · exact h
  · cases hcached
    rw [← hsig]
    exact Kernel.signature_eq_of_snapshot (hk.snapshot_eq (Option.some.inj hseen).symm)

end Serializer

end Interleave
