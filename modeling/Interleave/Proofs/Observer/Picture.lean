import Interleave.Proofs.Kernel.Collection
import Interleave.Proofs.Observer.Tidings

/-!
Observers know what is live. They are told of every object when it is made and when it is freed, each time
once, so that what has been created and not been released since is what the heap holds.
-/

namespace Interleave

namespace Event

def created? : Event → Option Ref
  | .created _ o => some o
  | _ => none

def released? : Event → Option (Ref × GlobalId)
  | .released o gid => some (o, gid)
  | _ => none

def revise (live : Set Ref) : Event → Set Ref
  | .created _ o => insert o live
  | .released o _ => live \ {o}
  | _ => live

variable {events : List Event}

theorem foldl_revise_of_created (h : events.filterMap released? = []) (live : Set Ref) :
    events.foldl revise live = live ∪ {r | r ∈ events.filterMap created?} := by
  induction events generalizing live with
  | nil => simp
  | cons e events ih =>
    cases e with
    | released o gid => cases h
    | created t o =>
      have hlist : (created t o :: events).filterMap created? = o :: events.filterMap created? := rfl
      rw [hlist]
      refine (ih h (insert o live)).trans ?_
      ext r
      simp [or_assoc, or_left_comm]
    | _ => exact ih h live

theorem foldl_revise_of_released (h : events.filterMap created? = []) (live : Set Ref) :
    events.foldl revise live = live \ {r | ∃ gid, (r, gid) ∈ events.filterMap released?} := by
  induction events generalizing live with
  | nil => simp
  | cons e events ih =>
    cases e with
    | created t o => cases h
    | released o gid =>
      have hlist : (released o gid :: events).filterMap released? = (o, gid) :: events.filterMap released? := rfl
      rw [hlist]
      refine (ih h (live \ {o})).trans ?_
      ext r
      simp [exists_or, and_assoc]
    | _ => exact ih h live

theorem created?_eq_none {e : Event} (h : e.subject? = none) : e.created? = none := by
  cases e <;> first | rfl | cases h

theorem released?_eq_none {e : Event} (h : e.subject? = none) : e.released? = none := by
  cases e <;> first | rfl | cases h

end Event

namespace Observers

variable {o : Observers}

/-- What has been created and not been released since. -/
def picture (o : Observers) : Set Ref := o.told.toList.foldl Event.revise ∅

theorem isEmpty_tell (o : Observers) (e : Event) : (o.tell e).isEmpty = o.isEmpty := by
  unfold tell
  split <;> rfl

theorem told_tell (h : o.isEmpty = false) (e : Event) : (o.tell e).told.toList = o.told.toList ++ [e] := by
  unfold tell
  rw [h]
  exact Array.toList_push

theorem told_tellAll (h : o.isEmpty = false) (es : List Event) :
    (o.tellAll es).isEmpty = false ∧ (o.tellAll es).told.toList = o.told.toList ++ es := by
  induction es generalizing o with
  | nil => exact ⟨h, (List.append_nil _).symm⟩
  | cons e es ih =>
    obtain ⟨hheard, htold⟩ := ih ((o.isEmpty_tell e).trans h)
    refine ⟨hheard, htold.trans ?_⟩
    rw [told_tell h, List.append_assoc]
    rfl

end Observers

namespace Kernel

variable {k k' k'' : Kernel} {new new' : List Event}

/-- From `k` to `k'` observers are told `new`, which has every object once that is made, and every one once
that is freed, with its name. -/
structure Reports (k k' : Kernel) (new : List Event) : Prop where
  told : k'.observers.told.toList = k.observers.told.toList ++ new
  created : (new.filterMap Event.created?).Nodup
  mem_created : ∀ r, r ∈ new.filterMap Event.created? ↔ k.heap.contains r = false ∧ k'.heap.contains r = true
  released : (new.filterMap Event.released?).Nodup
  mem_released : ∀ r gid, (r, gid) ∈ new.filterMap Event.released? ↔
    k.heap.nameOf? r = some gid ∧ k'.heap.contains r = false

structure Announces (k k' : Kernel) (new : List Event) : Prop where
  heard : k'.observers.isEmpty = false
  told : k'.observers.told.toList = k.observers.told.toList ++ new
  created : (new.filterMap Event.created?).Nodup
  mem_created : ∀ r, r ∈ new.filterMap Event.created? ↔ k.heap.contains r = false ∧ k'.heap.contains r = true
  released : new.filterMap Event.released? = []
  stays : ∀ r, k.heap.contains r = true → k'.heap.contains r = true

namespace Announces

theorem of_contains (hheard : k'.observers.isEmpty = false)
    (htold : k'.observers.told.toList = k.observers.told.toList ++ new) (hnew : ∀ e ∈ new, e.subject? = none)
    (hlive : ∀ r, k'.heap.contains r = k.heap.contains r) : Announces k k' new := by
  have hcreated : new.filterMap Event.created? = [] :=
    List.filterMap_eq_nil_iff.mpr fun e he => Event.created?_eq_none (hnew e he)
  refine ⟨hheard, htold, ?_, ?_, ?_, ?_⟩
  · rw [hcreated]
    exact .nil
  · intro r
    rw [hcreated, hlive]
    simp
  · exact List.filterMap_eq_nil_iff.mpr fun e he => Event.released?_eq_none (hnew e he)
  · intro r hr
    rw [hlive, hr]

theorem silent (hheard : k.observers.isEmpty = false) (hobservers : k'.observers = k.observers)
    (hlive : ∀ r, k'.heap.contains r = k.heap.contains r) : Announces k k' [] := by
  apply of_contains _ _ _ hlive
  · rw [hobservers, hheard]
  · rw [hobservers, List.append_nil]
  · exact fun e he => absurd he List.not_mem_nil

theorem trans (h : Announces k k' new) (h' : Announces k' k'' new') : Announces k k'' (new ++ new') where
  heard := h'.heard
  told := by rw [h'.told, h.told, List.append_assoc]
  created := by
    rw [List.filterMap_append, List.nodup_append]
    refine ⟨h.created, h'.created, ?_⟩
    rintro r hr _ hr' rfl
    rw [h.mem_created] at hr
    rw [h'.mem_created, hr.2] at hr'
    cases hr'.1
  mem_created := by
    intro r
    rw [List.filterMap_append, List.mem_append, h.mem_created, h'.mem_created]
    have hstays := h.stays r
    have hstays' := h'.stays r
    cases hk : k.heap.contains r <;> cases hk' : k'.heap.contains r <;> cases hk'' : k''.heap.contains r <;>
      simp_all
  released := by rw [List.filterMap_append, h.released, h'.released, List.nil_append]
  stays := fun r hr => h'.stays r (h.stays r hr)

theorem reports (h : Announces k k' new) : Reports k k' new where
  told := h.told
  created := h.created
  mem_created := h.mem_created
  released := by
    rw [h.released]
    exact .nil
  mem_released := by
    intro r gid
    rw [h.released]
    refine ⟨nofun, ?_⟩
    rintro ⟨hname, hgone⟩
    obtain ⟨e, he, -⟩ := Option.map_eq_some_iff.mp hname
    rw [h.stays r (by rw [Heap.contains, he]; rfl)] at hgone
    cases hgone

end Announces

theorem Note.size_le (h : Note k k') : k.heap.size ≤ k'.heap.size := by
  cases h with
  | still hheap => exact Nat.le_of_eq hheap.size.symm
  | tell e he hheap => rw [hheap]
  | create build href creator hheap =>
    rw [hheap, Heap.size_place]
    exact Nat.le_succ _

theorem Note.announces (h : Note k k') (hk : k.heap.Seated) (hsize : k'.heap.size ≤ Heap.maxSize)
    (hheard : k.observers.isEmpty = false) : k'.heap.Seated ∧ ∃ new, Announces k k' new := by
  cases h with
  | still hheap hobservers => exact ⟨hk.unmoved hheap, [], .silent hheard hobservers hheap.contains⟩
  | tell e he hheap hobservers =>
    refine ⟨hheap ▸ hk, [e], .of_contains ?_ ?_ (by simpa using he) fun r => by rw [hheap]⟩
    · rw [hobservers, Observers.isEmpty_tell, hheard]
    · rw [hobservers, Observers.told_tell hheard]
  | create build href creator hheap hobservers =>
    rw [hheap] at hsize
    have hlt := hk.nextFree_lt build hsize
    have hfree := Heap.not_contains_nextFree hlt
    refine ⟨hheap ▸ hk.place href hsize, [.created creator (.ofIndex k.heap.arena.nextFree)], ?_⟩
    have hcontains := Heap.contains_place hlt build
    rw [← hheap] at hcontains
    constructor
    case heard => rw [hobservers, Observers.isEmpty_tell, hheard]
    case told => rw [hobservers, Observers.told_tell hheard]
    case created => exact List.nodup_singleton _
    case mem_created =>
      intro r
      rw [hcontains]
      change r ∈ [_] ↔ _
      rw [List.mem_singleton]
      constructor
      · rintro rfl
        simp [hfree]
      · rintro ⟨hnew, hr⟩
        simpa [hnew] using hr
    case released => rfl
    case stays =>
      intro r hr
      rw [hcontains, hr]
      rfl

theorem Notes.announces (h : Notes k k') (hk : k.heap.Seated) (hsize : k'.heap.size ≤ Heap.maxSize)
    (hheard : k.observers.isEmpty = false) : k'.heap.Seated ∧ ∃ new, Announces k k' new := by
  induction h with
  | refl => exact ⟨hk, [], .silent hheard rfl fun _ => rfl⟩
  | tail _ h ih =>
    obtain ⟨hk₁, new, h₁⟩ := ih (Nat.le_trans h.size_le hsize)
    obtain ⟨hk₂, new', h₂⟩ := h.announces hk₁ hsize h₁.heard
    exact ⟨hk₂, _, h₁.trans h₂⟩

end Kernel

namespace Collection

def events (c : Collection) : List Event :=
  .gcBegin :: (c.released.map fun (o, gid) => .released o gid) ++ [.gcEnd]

theorem created?_events (c : Collection) : c.events.filterMap Event.created? = [] := by
  apply List.filterMap_eq_nil_iff.mpr
  simp only [events, List.cons_append, List.mem_cons, List.mem_append, List.mem_map]
  rintro _ (rfl | ⟨_, -, rfl⟩ | rfl | ⟨⟨⟩⟩) <;> rfl

theorem released?_events (c : Collection) : c.events.filterMap Event.released? = c.released := by
  have hsome : Event.released? ∘ (fun p : Ref × GlobalId => .released p.1 p.2) = some := rfl
  unfold events
  rw [List.filterMap_append, List.filterMap_cons_none rfl, List.filterMap_map]
  change c.released.filterMap (Event.released? ∘ fun p : Ref × GlobalId => .released p.1 p.2) ++ [] = _
  rw [hsome, List.filterMap_some, List.append_nil]

end Collection

namespace Heap

variable {h : Heap} {roots : Roots} {c : Collection}

theorem mem_released (hh : h.Seated) (hc : h.collect roots = .ok c) {r : Ref} {gid : GlobalId} :
    (r, gid) ∈ c.released ↔ h.nameOf? r = some gid ∧ c.heap.contains r = false := by
  rw [(counts_of_collect hc).1, released_sweep hh.orderly, contains_eq, nameOf?, Option.map_eq_some_iff]
  constructor
  · intro hr
    obtain ⟨⟨i, _⟩, hi, heq⟩ := List.mem_map.mp hr
    cases heq
    obtain ⟨⟨e, he, hgid⟩, hmask⟩ := mem_swept.mp hi
    have hindex := Ref.index?_ofIndex (hh.denoted i (Arena.contains_of_get? he))
    refine ⟨⟨e, get?_eq_some.mpr ⟨i, hindex, he⟩, hgid⟩, ?_⟩
    rw [hindex, Option.any_some, (collect_spec hc).2, hmask]
    exact Bool.and_false _
  · rintro ⟨⟨e, he, rfl⟩, hgone⟩
    obtain ⟨i, hi, he⟩ := get?_eq_some.mp he
    have hlt := hh.denoted i (Arena.contains_of_get? he)
    rw [hi, Option.any_some, (collect_spec hc).2, Arena.contains_of_get? he, Bool.true_and,
      Bool.not_eq_false'] at hgone
    exact List.mem_map.mpr ⟨(i, e.gid), mem_swept.mpr ⟨⟨e, he, rfl⟩, hgone⟩,
      by rw [Ref.eq_of_index? hi (Ref.index?_ofIndex hlt)]⟩

theorem nodup_released (hh : h.Seated) (hc : h.collect roots = .ok c) : c.released.Nodup := by
  rw [(counts_of_collect hc).1, released_sweep hh.orderly]
  generalize Reach.masks h.arena (h.seeds roots) = masks
  have hslots : ((h.swept masks).map fun p => (Ref.ofIndex p.1, p.2)).map (·.1.index?) =
      ((h.swept masks).map Prod.fst).map some := by
    rw [List.map_map, List.map_map]
    apply List.map_congr_left
    rintro ⟨i, gid⟩ hi
    obtain ⟨⟨e, he, -⟩, -⟩ := mem_swept.mp hi
    exact Ref.index?_ofIndex (hh.denoted i (Arena.contains_of_get? he))
  apply List.Nodup.of_map (·.1.index?)
  rw [hslots, map_fst_swept]
  have hnodup : (h.arena.indices.filter fun i => (masks.getD i .empty).isEmpty).Nodup :=
    ((Arena.pairwise_indices _).imp Nat.ne_of_lt).filter _
  exact hnodup.map (Option.some_injective Nat)

theorem contains_of_collect (hc : h.collect roots = .ok c) {r : Ref} (hr : c.heap.contains r = true) :
    h.contains r = true := by
  rw [contains_eq, Option.any_eq_true] at hr ⊢
  obtain ⟨i, hi, hr⟩ := hr
  rw [(collect_spec hc).2, Bool.and_eq_true] at hr
  exact ⟨i, hi, hr.1⟩

theorem Seated.collect (hh : h.Seated) (hc : h.collect roots = .ok c) : c.heap.Seated where
  orderly := hh.orderly.collect hc
  packed := (lasts_collect hc).packed hh.packed
  denoted := by
    intro i hi
    rw [(collect_spec hc).2, Bool.and_eq_true] at hi
    exact hh.denoted i hi.1

end Heap

namespace Kernel

variable {k k' : Kernel} {new : List Event}

theorem observers_collect {stats : CollectionStats} (h : k.collect = .ok (stats, k')) :
    ∃ c, k.heap.collect k.roots = .ok c ∧ k'.heap = c.heap ∧ k'.observers = k.observers.tellAll c.events := by
  obtain ⟨c, hc, h⟩ := bind_eq_ok.mp h
  cases h
  refine ⟨c, hc, rfl, ?_⟩
  unfold Collection.events Observers.tellAll
  rw [List.foldl_append, List.foldl_cons]
  rfl

theorem reports_collect {stats : CollectionStats} (hk : k.heap.Seated) (hheard : k.observers.isEmpty = false)
    (h : k.collect = .ok (stats, k')) :
    k'.heap.Seated ∧ k'.observers.isEmpty = false ∧
      ∃ new, new.filterMap Event.created? = [] ∧ k.Reports k' new := by
  obtain ⟨c, hc, hheap, hobservers⟩ := observers_collect h
  obtain ⟨hheard', htold⟩ := Observers.told_tellAll hheard c.events
  refine ⟨hheap ▸ hk.collect hc, hobservers ▸ hheard', c.events, c.created?_events, ?_⟩
  constructor
  case told => rw [hobservers, htold]
  case created =>
    rw [c.created?_events]
    exact .nil
  case mem_created =>
    intro r
    rw [c.created?_events, hheap]
    refine ⟨nofun, ?_⟩
    rintro ⟨hnew, hr⟩
    rw [Heap.contains_of_collect hc hr] at hnew
    cases hnew
  case released =>
    rw [c.released?_events]
    exact Heap.nodup_released hk hc
  case mem_released =>
    intro r gid
    rw [c.released?_events, hheap]
    exact Heap.mem_released hk hc

theorem Reports.contains_of_released (h : k.Reports k' new) (hreleased : new.filterMap Event.released? = [])
    {r : Ref} (hr : k.heap.contains r = true) : k'.heap.contains r = true := by
  obtain ⟨e, he⟩ := Option.isSome_iff_exists.mp hr
  by_contra hgone
  have hname : k.heap.nameOf? r = some e.gid := Option.map_eq_some_iff.mpr ⟨e, he, rfl⟩
  have hmem := (h.mem_released r e.gid).mpr ⟨hname, Bool.eq_false_iff.mpr hgone⟩
  rw [hreleased] at hmem
  cases hmem

theorem Reports.picture (h : k.Reports k' new)
    (hone : new.filterMap Event.created? = [] ∨ new.filterMap Event.released? = [])
    (hk : k.observers.picture = {r | k.heap.contains r = true}) :
    k'.observers.picture = {r | k'.heap.contains r = true} := by
  have hrevised : k'.observers.picture = new.foldl Event.revise {r | k.heap.contains r = true} := by
    unfold Observers.picture at hk ⊢
    rw [h.told, List.foldl_append, hk]
  rw [hrevised]
  rcases hone with hcreated | hreleased
  · rw [Event.foldl_revise_of_released hcreated]
    ext r
    have hmem := h.mem_created r
    rw [hcreated] at hmem
    simp only [Set.mem_sdiff, Set.mem_ofPred_eq, h.mem_released]
    constructor
    · rintro ⟨hr, hkept⟩
      obtain ⟨e, he⟩ := Option.isSome_iff_exists.mp hr
      by_contra hgone
      exact hkept ⟨e.gid, Option.map_eq_some_iff.mpr ⟨e, he, rfl⟩, Bool.eq_false_iff.mpr hgone⟩
    · intro hr
      refine ⟨?_, ?_⟩
      · by_contra hnew
        cases hmem.mpr ⟨Bool.eq_false_iff.mpr hnew, hr⟩
      · rintro ⟨gid, -, hgone⟩
        rw [hr] at hgone
        cases hgone
  · rw [Event.foldl_revise_of_created hreleased]
    ext r
    simp only [Set.mem_union, Set.mem_ofPred_eq, h.mem_created]
    constructor
    · rintro (hr | ⟨-, hr⟩)
      · exact h.contains_of_released hreleased hr
      · exact hr
    · intro hr
      by_cases hold : k.heap.contains r = true
      · exact .inl hold
      · exact .inr ⟨Bool.eq_false_iff.mpr hold, hr⟩

inductive Advances (k : Kernel) : Kernel → Prop where
  | perform {op : Op} {k' : Kernel} (hop : op.isCandid = true) (h : k.perform op = .ok k') : Advances k k'
  | box {b : BoxBounds} {t : ThreadId} {kind : BoxKind} {v : Int64} {r : Except KernelError Ref} {k' : Kernel}
    (h : k.box b t kind v = .ok (r, k')) : Advances k k'
  | adopt (other : Kernel) : Advances k (k.adopt other)

theorem Notes.reports (h : Notes k k') (hk : k.heap.Seated) (hheard : k.observers.isEmpty = false)
    (hsize : k'.heap.size ≤ Heap.maxSize) :
    k'.heap.Seated ∧ k'.observers.isEmpty = false ∧
      ∃ new, (new.filterMap Event.created? = [] ∨ new.filterMap Event.released? = []) ∧ k.Reports k' new := by
  obtain ⟨hk', new, hnew⟩ := h.announces hk hsize hheard
  exact ⟨hk', hnew.heard, new, .inr hnew.released, hnew.reports⟩

theorem Advances.reports (h : k.Advances k') (hk : k.heap.Seated) (hheard : k.observers.isEmpty = false)
    (hsize : k'.heap.size ≤ Heap.maxSize) :
    k'.heap.Seated ∧ k'.observers.isEmpty = false ∧
      ∃ new, (new.filterMap Event.created? = [] ∨ new.filterMap Event.released? = []) ∧ k.Reports k' new := by
  cases h with
  | @perform op _ hop h =>
    by_cases hcollect : op = .collect
    · subst hcollect
      obtain ⟨stats, h⟩ := snd_eq_ok.mp h
      obtain ⟨hk', hheard', new, hnew, hreports⟩ := reports_collect hk hheard h
      exact ⟨hk', hheard', new, .inl hnew, hreports⟩
    · exact Notes.reports (notes_perform hop hcollect h) hk hheard hsize
  | box h => exact Notes.reports (notes_box h) hk hheard hsize
  | adopt other => exact Notes.reports (notes_still rfl rfl) hk hheard hsize

/-- The states of a run that somebody has observed from the start. There are never more objects than
references. -/
inductive Watched : Kernel → Prop where
  | start (limit : Option Nat) {observers : Observers} (hheard : observers.isEmpty = false)
    (htold : observers.told = #[]) : Watched { Kernel.withLimit limit with observers }
  | step {k k' : Kernel} (hk : Watched k) (h : k.Advances k') (hsize : k'.heap.size ≤ Heap.maxSize) : Watched k'

theorem Watched.spec (hk : k.Watched) :
    k.heap.Seated ∧ k.observers.isEmpty = false ∧ k.observers.picture = {r | k.heap.contains r = true} := by
  induction hk with
  | @start limit observers hheard htold =>
    have hsited := (Built.start limit observers : Built (fun _ _ => True) _).sited
    have hnone : ∀ i, (Heap.withLimit limit).arena.contains i = false := SlotSet.contains_empty
    refine ⟨⟨hsited.orderly.heap, hsited.packed, fun i hi => ?_⟩, hheard, ?_⟩
    · exact absurd ((hnone i).symm.trans hi) Bool.false_ne_true
    · unfold Observers.picture
      rw [htold]
      ext r
      change False ↔ (r.index?.bind fun _ => (none : Option Element)).isSome = true
      cases r.index? <;> simp
  | step _ h hsize ih =>
    obtain ⟨hk, hheard, hpicture⟩ := ih
    obtain ⟨hk', hheard', new, hone, hreports⟩ := h.reports hk hheard hsize
    exact ⟨hk', hheard', hreports.picture hone hpicture⟩

/-- Who has observed a run from the start knows what is live, and every slot that is taken is among it, since
every operation tells of what it makes and frees. -/
theorem Watched.heap_pictured (hk : k.Watched) :
    k.observers.picture = {r | k.heap.contains r = true} ∧
      (∀ i, k.heap.arena.contains i = true → .ofIndex i ∈ k.observers.picture) ∧
      ∀ k', k.Advances k' → k'.heap.size ≤ Heap.maxSize → ∃ new, k.Reports k' new := by
  obtain ⟨hseated, hheard, hpicture⟩ := hk.spec
  refine ⟨hpicture, fun i hi => ?_, fun k' h hsize => ?_⟩
  · rw [hpicture, Set.mem_ofPred_eq, Heap.contains_eq, Ref.index?_ofIndex (hseated.denoted i hi)]
    exact hi
  · obtain ⟨-, -, new, -, hreports⟩ := h.reports hseated hheard hsize
    exact ⟨new, hreports⟩

def modest (k : Kernel) (op : Op) : Bool :=
  op.isCandid && (k.perform op).toOption.all (·.heap.size ≤ Heap.maxSize)

theorem Watched.performAllowed (hk : k.Watched) {ops : List Op}
    (hok : k.allows (fun k op => k.modest op = true) ops = true) : (k.performAll ops).Watched := by
  apply performAll_of_allows _ hk hok
  intro k op k' hop h hk
  rw [modest, Bool.and_eq_true, h] at hop
  exact hk.step (.perform hop.1 h) (of_decide_eq_true hop.2)

def recycled : Kernel := littered.performAll [.collect, .newObject 3 none none]

theorem heap_pictured_recycled :
    recycled.Watched ∧ recycled.observers.picture = {r | recycled.heap.contains r = true} ∧
      ∃ r k' new, recycled.box {} 0 .boolean 1 = .ok (r, k') ∧ recycled.Reports k' new ∧
        k'.heap.size = recycled.heap.size + 4 := by
  have hstart : Watched { Kernel.withLimit none with observers := { count := 1 } } := .start none rfl rfl
  have hlittered : littered.Watched := hstart.performAllowed (by decide +kernel)
  have hrecycled : recycled.Watched := hlittered.performAllowed (by decide +kernel)
  obtain ⟨hpicture, -, hreports⟩ := hrecycled.heap_pictured
  have hbox : (recycled.box {} 0 .boolean 1).toOption.map (·.2.heap.size) = some (recycled.heap.size + 4) := by
    decide +kernel
  obtain ⟨⟨r, k'⟩, hbox, hsize⟩ := Option.map_eq_some_iff.mp hbox
  have hroom : recycled.heap.size + 4 ≤ Heap.maxSize := by decide +kernel
  rw [toOption_eq_some] at hbox
  obtain ⟨new, hnew⟩ := hreports k' (.box hbox) (hsize ▸ hroom)
  exact ⟨hrecycled, hpicture, r, k', new, hbox, hnew, hsize⟩

end Kernel

end Interleave
