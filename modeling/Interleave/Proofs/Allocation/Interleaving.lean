import Interleave.Proofs.Allocation.Showing

/-!
Allocations of different threads commute. Whatever the order in which two threads do their works, the
state shows the same things made, and states that show the same things are encoded alike, although the
things may lie in different slots of the heap.
-/

namespace Interleave

theorem Kernel.perform_writeField {k k' : Kernel} {o : Ref} {name : String} {slot : Nat} {v : SlotValue}
    (h : k.instanceSlot o name = .ok (.ok slot)) (hk : k.perform (.writeSlot o slot v) = .ok k') :
    k.perform (.writeField o name v) = .ok k' :=
  snd_eq_ok.mpr ⟨.ok (), bind_eq_ok.mpr ⟨_, h, bind_eq_ok.mpr ⟨k', hk, rfl⟩⟩⟩

namespace Bench

theorem lasts_onTop {b b' : Bench} {t : ThreadId} {g : Frame → Except Fault Frame}
    (h : b.onTop t g = .ok b') : b.kernel.Lasts b'.kernel := by
  obtain ⟨info, -, h⟩ := bind_eq_ok.mp h
  split at h
  · cases h
    exact .refl _
  · obtain ⟨f, -, h⟩ := bind_eq_ok.mp h
    obtain ⟨k, hk, h⟩ := bind_eq_ok.mp h
    cases h
    exact .effect (Kernel.perform_effect hk)

theorem lasts_work {b b' : Bench} {t : ThreadId} {w : Work} (h : b.work t w = .ok b') :
    b.kernel.Lasts b'.kernel := by
  cases w with
  | newObject c site =>
    obtain ⟨⟨r, k⟩, hnew, h⟩ := bind_eq_ok.mp h
    cases h
    have hk : b.kernel.perform (.newObject c (some t) site) = .ok k := snd_eq_ok.mpr ⟨r, hnew⟩
    exact .effect (Kernel.perform_effect hk)
  | newArray elem length site =>
    obtain ⟨⟨r, k⟩, hnew, h⟩ := bind_eq_ok.mp h
    cases h
    have hk : b.kernel.perform (.newArray elem length (some t) site) = .ok k := snd_eq_ok.mpr ⟨r, hnew⟩
    exact .effect (Kernel.perform_effect hk)
  | setField | setElement =>
    obtain ⟨k, hk, h⟩ := bind_eq_ok.mp h
    cases h
    exact .effect (Kernel.perform_effect hk)
  | setLocal | push => exact lasts_onTop h

theorem lasts_run {b b' : Bench} {I : List (ThreadId × Work)} (h : b.run I = .ok b') :
    b.kernel.Lasts b'.kernel := by
  apply foldlM_induction (motive := fun b' => b.kernel.Lasts b'.kernel) h (.refl _)
  intro p _ b₁ b₂ hb₁ hb₂
  exact hb₁.trans (lasts_work hb₂)

end Bench

def worksOf (t : ThreadId) (I : List (ThreadId × Work)) : List Work :=
  (I.filter (·.1 = t)).map (·.2)

theorem worksOf_cons_self (t : ThreadId) (w : Work) (I : List (ThreadId × Work)) :
    worksOf t ((t, w) :: I) = w :: worksOf t I := by
  simp [worksOf]

theorem worksOf_cons_of_ne {t u : ThreadId} (h : u ≠ t) (w : Work) (I : List (ThreadId × Work)) :
    worksOf u ((t, w) :: I) = worksOf u I := by
  simp [worksOf, h.symm]

namespace Bench.Shows

variable {s : Kernel} {est : ThreadId → Estate} {n : Nat} {b : Bench} {t : ThreadId} {info : Thread}

theorem writeSlot (h : b.Shows s est n) {j slot : Nat} {item : Item} {kind : ValueKind} {v : Value}
    (hitem : (est t).items[j]? = some item)
    (hmarks : ∀ i, i < kind.width → item.shape.marks[slot + i]? = some kind.isReference)
    (hv : v.Suits kind) (hknown : ∀ c ∈ v.contents, c.IsKnown s (est t).items.length) :
    ∃ k, b.kernel.perform (.writeSlot (b.object t j) slot (v.slotValue (b.own t))) = .ok k ∧
      { b with kernel := k }.Shows s (Function.update est t ((est t).write j slot v.contents)) n := by
  obtain ⟨e, he, hdescribes⟩ := h.items t j item hitem
  have hslots := (h.sound t).slots hitem hv hmarks
  obtain ⟨f, hf, hcells⟩ := Fields.write_value hdescribes.cells hslots
  have hwrite : e.updateFields ((v.slotValue (b.own t)).write · slot) = .ok { e with fields := f } :=
    bind_eq_ok.mpr ⟨f, hf, rfl⟩
  exact ⟨_, Kernel.updateElement_eq_ok.mpr ⟨e, _, he, hwrite, rfl⟩,
    h.put hitem he hdescribes hcells ((h.sound t).write hitem hslots hknown)⟩

theorem instanceSlot (h : b.Shows s est n) {j slot : Nat} {item : Item} {name : String}
    {kind : ValueKind} (hitem : (est t).items[j]? = some item)
    (hfield : item.shape.field? name = some (slot, kind)) :
    b.kernel.instanceSlot (b.object t j) name = .ok (.ok slot) := by
  obtain ⟨e, he, hdescribes⟩ := h.items t j item hitem
  have hshape := hdescribes.shape
  generalize item.shape = sh at hfield hshape
  cases sh with
  | array => cases hfield
  | object desc =>
    obtain ⟨-, hid, hdesc⟩ := hshape
    rw [← hid] at hdesc
    refine bind_eq_ok.mpr ⟨e, Kernel.deref_eq_ok.mpr he, bind_eq_ok.mpr
      ⟨desc, Registry.get_eq_ok.mpr hdesc, ?_⟩⟩
    have hlookup : desc.instances.lookup? name = some (slot, kind) := hfield
    rw [hlookup]
    rfl

theorem work (hs : s.Named) (h : b.Shows s est n) (ht : s.threads.get? t = some info) {w : Work}
    (hw : w.Fits s t (est t).shapes)
    (hroom : s.heap.size + n + (if w.allocates then 1 else 0) ≤ Heap.maxSize) :
    ∃ b', b.work t w = .ok b' ∧ b'.Shows s (Function.update est t ((est t).after s t w))
      (n + if w.allocates then 1 else 0) := by
  obtain ⟨info', hinfo', hshows⟩ := h.frames t info ht
  have horigin : ∀ site, Origin.ofCreation (some info'.gid) site = s.originOf t site := by
    intro site
    unfold Kernel.originOf
    rw [ht, hshows.gid]
    rfl
  have hthread : ∀ site, (s.originOf t site).thread = info.gid := by
    intro site
    unfold Kernel.originOf
    rw [ht]
    rfl
  have htop : ∀ f ∈ (s.threads.get? t).bind Thread.topFrame?, info.topFrame? = some f := by
    intro f hf
    rwa [ht] at hf
  cases w with
  | newObject c site =>
    have hdesc : s.classes.classes[c]? = some s.classes.classes[c] := Array.getElem?_eq_getElem hw
    obtain ⟨build, k, hnew, ha⟩ := Kernel.newObject_allocates hinfo'
      (Registry.getElem?_of_prefix h.carries.precedes.classes hdesc) (hs.ids c _ hdesc) site
    rw [horigin] at ha
    refine ⟨_, bind_eq_ok.mpr ⟨_, hnew, rfl⟩, ?_⟩
    dsimp only [Estate.after]
    rw [hdesc]
    exact h.allocate hs.distinctThreads ht (hthread site) ha hroom
  | newArray elem length site =>
    obtain ⟨build, k, hnew, ha⟩ := Kernel.newArray_allocates hinfo' elem length site
    rw [horigin] at ha
    exact ⟨_, bind_eq_ok.mpr ⟨_, hnew, rfl⟩,
      h.allocate hs.distinctThreads ht (hthread site) ha hroom⟩
  | setField j name v =>
    obtain ⟨hknown, ⟨slot, kind⟩, hp, hv⟩ := hw
    obtain ⟨item, hitem, hfield⟩ := Estate.item_of_shape hp
    rw [Estate.length_shapes] at hknown
    obtain ⟨k, hk, hshows⟩ :=
      h.writeSlot hitem (Shape.getElem?_marks_of_field? hfield) hv hknown
    refine ⟨_, bind_eq_ok.mpr ⟨k, Kernel.perform_writeField (h.instanceSlot hitem hfield) hk, rfl⟩, ?_⟩
    dsimp only [Estate.after]
    rw [hp]
    exact hshows
  | setElement j i v =>
    obtain ⟨hknown, elem, hp, hv⟩ := hw
    obtain ⟨item, hitem, helement⟩ := Estate.item_of_shape hp
    rw [Estate.length_shapes] at hknown
    obtain ⟨k, hk, hshows⟩ :=
      h.writeSlot hitem (Shape.getElem?_marks_of_element? helement) hv hknown
    rw [← hv.length] at hk hshows
    exact ⟨_, bind_eq_ok.mpr ⟨k, hk, rfl⟩, hshows⟩
  | setLocal i c =>
    obtain ⟨hknown, f, hf, hi⟩ := hw
    rw [Estate.length_shapes] at hknown
    apply h.onTop ht (htop f hf)
    · exact fun f₀ hf₀ => hf₀.setLocal c hi
    · intro c' hc'
      rcases List.mem_or_eq_of_mem_set hc' with hc' | rfl
      · exact (h.sound t).stack c' hc'
      · exact hknown
  | push c =>
    obtain ⟨hknown, hsome⟩ := hw
    rw [Estate.length_shapes] at hknown
    obtain ⟨f, hf⟩ := Option.isSome_iff_exists.mp hsome
    apply h.onTop ht (htop f hf)
    · exact fun f₀ hf₀ => ⟨_, rfl, hf₀.push c⟩
    · intro c' hc'
      rcases List.mem_append.mp hc' with hc' | hc'
      · exact (h.sound t).stack c' hc'
      · rw [List.mem_singleton.mp hc']
        exact hknown

theorem run (hs : s.Named) {I : List (ThreadId × Work)} (h : b.Shows s est n)
    (hthreads : ∀ p ∈ I, (s.threads.get? p.1).isSome)
    (hfit : ∀ t, Work.AllFit s t (est t).shapes (worksOf t I))
    (hroom : s.heap.size + n + I.countP (·.2.allocates) ≤ Heap.maxSize) :
    ∃ b', b.run I = .ok b' ∧
      b'.Shows s (fun t => (worksOf t I).foldl (Estate.after s t) (est t))
        (n + I.countP (·.2.allocates)) := by
  induction I generalizing b est n with
  | nil => exact ⟨b, rfl, h⟩
  | cons p I ih =>
    obtain ⟨t, w⟩ := p
    rw [List.countP_cons] at hroom ⊢
    dsimp only at hroom ⊢
    obtain ⟨info, ht⟩ := Option.isSome_iff_exists.mp (hthreads (t, w) List.mem_cons_self)
    have hself : worksOf t ((t, w) :: I) = w :: worksOf t I := worksOf_cons_self ..
    have hother : ∀ u, u ≠ t → worksOf u ((t, w) :: I) = worksOf u I :=
      fun u hu => worksOf_cons_of_ne hu ..
    have hfit' := hfit t
    rw [hself] at hfit'
    obtain ⟨b₁, hwork, h₁⟩ := work hs h ht hfit'.1 (by omega)
    obtain ⟨b', hrun, h'⟩ := ih h₁ (fun p hp => hthreads p (List.mem_cons_of_mem _ hp)) (by
      intro u
      by_cases hu : u = t
      · subst hu
        rw [Function.update_self, Estate.shapes_after]
        exact hfit'.2
      · rw [Function.update_of_ne hu, ← hother u hu]
        exact hfit u) (by omega)
    refine ⟨b', bind_eq_ok.mpr ⟨b₁, hwork, hrun⟩, ?_⟩
    have hest : (fun u => (worksOf u I).foldl (Estate.after s u)
          (Function.update est t ((est t).after s t w) u)) =
        fun u => (worksOf u ((t, w) :: I)).foldl (Estate.after s u) (est u) := by
      funext u
      by_cases hu : u = t
      · subst hu
        rw [Function.update_self, hself, List.foldl_cons]
      · rw [Function.update_of_ne hu, hother u hu]
    rw [hest] at h'
    rwa [Nat.add_comm (I.countP _), ← Nat.add_assoc]

end Bench.Shows

open Relator

theorem Heap.slot?_of_get? {h : Heap} {r : Ref} {e : Element} (he : h.get? r = some e) {i : Nat}
    (hi : r.index? = some i) : h.slot? r = some i := by
  rw [Heap.slot?_eq_some_iff]
  obtain ⟨j, hj, hget⟩ := Heap.get?_eq_some.mp he
  rw [hi] at hj
  cases hj
  exact ⟨hi, Arena.contains_of_get? hget⟩

theorem Item.Describes.corresponds {item : Item} {k₁ k₂ : Kernel} {own₁ own₂ : List Ref}
    {e₁ e₂ : Element} {P : Nat → Nat → Prop} (h₁ : item.Describes k₁ own₁ e₁)
    (h₂ : item.Describes k₂ own₂ e₂) (hle : k₁.Precedes k₂) (hnodup : k₂.pool.keys.toList.Nodup)
    (hcells : ∀ c ∈ item.contents,
      Cell.Corresponds k₁.heap k₂.heap P (c.cell own₁) (c.cell own₂)) :
    e₁.Corresponds k₁.heap k₂.heap P e₂ where
  gid := IdPool.key?_inj hnodup (h₁.mono hle).key h₂.key
  classId := by
    have hshape₁ := (h₁.mono hle).shape
    have hshape₂ := h₂.shape
    generalize item.shape = sh at hshape₁ hshape₂
    cases sh with
    | object desc => exact hshape₁.2.1.trans hshape₂.2.1.symm
    | array elem length => exact Option.some.inj (hshape₁.2.symm.trans hshape₂.2)
  length := by
    have hshape₁ := h₁.shape
    have hshape₂ := h₂.shape
    unfold Element.length?
    generalize item.shape = sh at hshape₁ hshape₂
    cases sh with
    | object desc => rw [hshape₁.1, hshape₂.1]
    | array elem length => rw [hshape₁.1, hshape₂.1]
  cells := by
    rw [h₁.cells, h₂.cells, List.forall₂_map_left_iff, List.forall₂_map_right_iff]
    exact List.forall₂_same.mpr hcells

namespace Bench

def Matches (s : Kernel) (est : ThreadId → Estate) (b₁ b₂ : Bench) (i j : Nat) : Prop :=
  (i = j ∧ s.heap.arena.contains i = true) ∨ ∃ t l, l < (est t).items.length ∧
    (b₁.object t l).index? = some i ∧ (b₂.object t l).index? = some j

namespace Shows

variable {s : Kernel} {est : ThreadId → Estate} {n : Nat} {b₁ b₂ : Bench}

theorem index_fresh {b : Bench} (h : b.Shows s est n) {t : ThreadId} {l i : Nat}
    (hl : l < (est t).items.length) (hi : (b.object t l).index? = some i) :
    s.heap.arena.contains i = false := by
  have hfresh := h.fresh t l hl
  rw [Heap.get?, hi, Option.bind_some] at hfresh
  rw [Arena.contains_eq, hfresh]
  rfl

variable (h₁ : b₁.Shows s est n) (h₂ : b₂.Shows s est n)

include h₁ h₂

theorem matches_unique : BiUnique (Matches s est b₁ b₂) := by
  constructor
  · rintro i i' j (⟨rfl, hi⟩ | ⟨t, l, hl, hi, hj⟩) (⟨rfl, hi'⟩ | ⟨t', l', hl', hi', hj'⟩)
    · rfl
    · rw [h₂.index_fresh hl' hj'] at hi
      cases hi
    · rw [h₂.index_fresh hl hj] at hi'
      cases hi'
    · obtain ⟨rfl, rfl⟩ := h₂.distinct t l t' l' hl hl' (Ref.eq_of_index? hj hj')
      exact Option.some.inj (hi.symm.trans hi')
  · rintro i j j' (⟨rfl, hi⟩ | ⟨t, l, hl, hi, hj⟩) (⟨rfl, hi'⟩ | ⟨t', l', hl', hi', hj'⟩)
    · rfl
    · rw [h₁.index_fresh hl' hi'] at hi
      cases hi
    · rw [h₁.index_fresh hl hi] at hi'
      cases hi'
    · obtain ⟨rfl, rfl⟩ := h₁.distinct t l t' l' hl hl' (Ref.eq_of_index? hi hi')
      exact Option.some.inj (hj.symm.trans hj')

theorem ref_corresponds {r : Ref} (hr : s.heap.IsSafe r) :
    r.Corresponds b₁.kernel.heap b₂.kernel.heap (Matches s est b₁ b₂) r := by
  unfold Ref.Corresponds
  rcases hr with hnull | hlive
  · rw [Heap.slot?_eq_none_of_isNull hnull, Heap.slot?_eq_none_of_isNull hnull]
    exact .none
  · obtain ⟨e, he⟩ := Option.isSome_iff_exists.mp hlive
    obtain ⟨i, hi, hget⟩ := Heap.get?_eq_some.mp he
    rw [Heap.slot?_of_get? (h₁.carries.get? he) hi, Heap.slot?_of_get? (h₂.carries.get? he) hi]
    exact .some (.inl ⟨rfl, Arena.contains_of_get? hget⟩)

theorem nameOf?_eq {r : Ref} (hr : s.heap.IsSafe r) :
    b₁.kernel.heap.nameOf? r = b₂.kernel.heap.nameOf? r := by
  unfold Heap.nameOf?
  rcases hr with hnull | hlive
  · unfold Heap.get?
    rw [(Ref.index?_eq_none_iff r).mpr hnull]
    rfl
  · obtain ⟨e, he⟩ := Option.isSome_iff_exists.mp hlive
    rw [h₁.carries.get? he, h₂.carries.get? he]

theorem cell_corresponds {c : Cell} (hc : c.IsSafe s.heap) :
    c.Corresponds b₁.kernel.heap b₂.kernel.heap (Matches s est b₁ b₂) c :=
  ⟨rfl, fun _ => rfl, fun htag => ref_corresponds h₁ h₂ (hc htag)⟩

theorem content_corresponds {t : ThreadId} {c : Content} (hc : c.IsKnown s (est t).items.length) :
    Cell.Corresponds b₁.kernel.heap b₂.kernel.heap (Matches s est b₁ b₂) (c.cell (b₁.own t))
      (c.cell (b₂.own t)) := by
  cases c with
  | word v => exact ⟨rfl, fun _ => rfl, nofun⟩
  | link x =>
    refine ⟨rfl, nofun, fun _ => ?_⟩
    cases x with
    | given r => exact ref_corresponds h₁ h₂ hc
    | own l =>
      obtain ⟨e₁, he₁⟩ := h₁.object_live hc
      obtain ⟨e₂, he₂⟩ := h₂.object_live hc
      obtain ⟨i, hi, -⟩ := Heap.get?_eq_some.mp he₁
      obtain ⟨j, hj, -⟩ := Heap.get?_eq_some.mp he₂
      have hslot₁ := Heap.slot?_of_get? he₁ hi
      have hslot₂ := Heap.slot?_of_get? he₂ hj
      have hmatches : Matches s est b₁ b₂ i j := .inr ⟨t, l, hc, hi, hj⟩
      show Option.Rel _ (b₁.kernel.heap.slot? (b₁.object t l)) (b₂.kernel.heap.slot? (b₂.object t l))
      rw [hslot₁, hslot₂]
      exact .some hmatches

theorem frame_corresponds {t : ThreadId} {f f₁ f₂ : Frame} (hf₁ : f.Shows (b₁.own t) (est t).stack f₁)
    (hf₂ : f.Shows (b₂.own t) (est t).stack f₂) :
    f₁.Corresponds b₁.kernel.heap b₂.kernel.heap (Matches s est b₁ b₂) f₂ where
  method := hf₁.method.trans hf₂.method.symm
  pc := hf₁.pc.trans hf₂.pc.symm
  cells := by
    rw [hf₁.cells, hf₂.cells, List.forall₂_map_left_iff, List.forall₂_map_right_iff]
    exact List.forall₂_same.mpr fun c hc => content_corresponds h₁ h₂ ((h₁.sound t).stack c hc)

variable (hs : s.Closed)

include hs

theorem thread_alike {t : ThreadId} {info info₁ info₂ : Thread} (ht : info ∈ s.threads.toList)
    (hinfo₁ : info.Shows (b₁.own t) (est t).stack info₁)
    (hinfo₂ : info.Shows (b₂.own t) (est t).stack info₂) :
    info₁.Alike b₁.kernel.heap b₂.kernel.heap (Matches s est b₁ b₂) info₂ := by
  have hobject := ref_corresponds h₁ h₂ (hs.thread ht (r := info.object) (by simp))
  have hlock : info.lockObject.bind b₁.kernel.heap.nameOf? =
      info.lockObject.bind b₂.kernel.heap.nameOf? := by
    cases hl : info.lockObject with
    | none => rfl
    | some r => exact nameOf?_eq h₁ h₂ (hs.thread ht (by simp [hl]))
  have hlocked : info.lockedObjects.map b₁.kernel.heap.nameOf? =
      info.lockedObjects.map b₂.kernel.heap.nameOf? :=
    List.map_congr_left fun r hr => nameOf?_eq h₁ h₂ (hs.thread ht (by simp [hr]))
  have hold : ∀ f ∈ info.frames,
      f.Corresponds b₁.kernel.heap b₂.kernel.heap (Matches s est b₁ b₂) f := by
    intro f hf
    exact ⟨rfl, rfl, List.forall₂_same.mpr fun c hc => cell_corresponds h₁ h₂ (hs.frame ht hf c hc)⟩
  cases hinfo₁ with
  | idle hnone =>
    cases hinfo₂ with
    | idle =>
      refine ⟨hobject, ?_, rfl, rfl, rfl, rfl, hlock, hlocked ▸ List.Perm.refl _⟩
      exact List.forall₂_same.mpr fun f hf => hold f (Array.mem_toList_iff.mp hf)
    | top hf =>
      rw [hnone] at hf
      cases hf
  | top hf hf₁ =>
    cases hinfo₂ with
    | idle hnone =>
      rw [hnone] at hf
      cases hf
    | top hf' hf₂ =>
      rw [hf] at hf'
      cases hf'
      refine ⟨hobject, ?_, rfl, rfl, rfl, rfl, hlock, hlocked ▸ List.Perm.refl _⟩
      -- only the top frames differ
      dsimp only [Thread.setTopFrame]
      rw [Array.toList_push, Array.toList_push]
      apply List.rel_append
      · exact List.forall₂_same.mpr fun f hf =>
          hold f (Kernel.mem_of_mem_pop (Array.mem_toList_iff.mp hf))
      · exact .cons (frame_corresponds h₁ h₂ hf₁ hf₂) .nil

theorem static_corresponds {e : Element} (he : e ∈ s.statics.elements) :
    e.StaticCorresponds b₁.kernel.heap b₂.kernel.heap (Matches s est b₁ b₂) e where
  classId := rfl
  code := rfl
  classRef := by
    cases hr : e.classRef? with
    | none => exact .none
    | some r => exact .some (ref_corresponds h₁ h₂ (hs.classRef he hr))
  cells := List.forall₂_same.mpr fun c hc => cell_corresponds h₁ h₂ (hs.static he c hc)

theorem object_corresponds (hle : b₁.kernel.Precedes b₂.kernel) {i j : Nat}
    (hij : Matches s est b₁ b₂ i j) : ∃ e₁ e₂, b₁.kernel.heap.arena.get? i = some e₁ ∧
      b₂.kernel.heap.arena.get? j = some e₂ ∧
      e₁.Corresponds b₁.kernel.heap b₂.kernel.heap (Matches s est b₁ b₂) e₂ := by
  rcases hij with ⟨rfl, hi⟩ | ⟨t, l, hl, hi, hj⟩
  · obtain ⟨e, he⟩ := (Arena.contains_iff _ _).mp hi
    refine ⟨e, e, h₁.carries.kept i e he, h₂.carries.kept i e he, rfl, rfl, rfl, ?_⟩
    exact List.forall₂_same.mpr fun c hc => cell_corresponds h₁ h₂ (hs.object he c hc)
  · have hitem := List.getElem?_eq_getElem hl
    obtain ⟨e₁, he₁, hdescribes₁⟩ := h₁.items t l _ hitem
    obtain ⟨e₂, he₂, hdescribes₂⟩ := h₂.items t l _ hitem
    have hget : ∀ {h : Heap} {r : Ref} {e : Element} {i : Nat}, h.get? r = some e → r.index? = some i →
        h.arena.get? i = some e := by
      intro h r e i he hi
      rwa [Heap.get?, hi] at he
    refine ⟨e₁, e₂, hget he₁ hi, hget he₂ hj, ?_⟩
    have hsound := (h₁.sound t).items _ (List.mem_of_getElem? hitem)
    apply hdescribes₁.corresponds hdescribes₂ hle h₂.carries.nodup
    exact fun c hc => content_corresponds h₁ h₂ (hsound.known c hc)

theorem threads_alike : List.Forall₂ (fun info₁ info₂ =>
    info₁.Alike b₁.kernel.heap b₂.kernel.heap (Matches s est b₁ b₂) info₂ ∧ info₁.state = info₂.state)
    b₁.kernel.threads.toList b₂.kernel.threads.toList := by
  have hlength : ∀ {b : Bench}, b.Shows s est n → b.kernel.threads.toList.length = s.threads.size :=
    fun h => h.threads
  refine List.forall₂_iff_get.mpr ⟨(hlength h₁).trans (hlength h₂).symm, ?_⟩
  intro t ht₁ ht₂
  have hlt : t < s.threads.size := hlength h₁ ▸ ht₁
  have ht : s.threads.get? t = some s.threads.threads[t] := Array.getElem?_eq_getElem hlt
  have hget : ∀ {b : Bench} {info : Thread} (htb : t < b.kernel.threads.toList.length),
      b.kernel.threads.get? t = some info → b.kernel.threads.toList.get ⟨t, htb⟩ = info :=
    fun _ hinfo => (Array.getElem?_eq_some_iff.mp hinfo).2
  obtain ⟨info₁, hinfo₁, hshows₁⟩ := h₁.frames t _ ht
  obtain ⟨info₂, hinfo₂, hshows₂⟩ := h₂.frames t _ ht
  rw [hget ht₁ hinfo₁, hget ht₂ hinfo₂]
  refine ⟨thread_alike h₁ h₂ hs (Roster.mem_toList_of_get? ht) hshows₁ hshows₂, ?_⟩
  rw [hshows₁.state, hshows₂.state]

theorem encode_eq (hle : b₁.kernel.Precedes b₂.kernel) : b₁.kernel.encode = b₂.kernel.encode := by
  have hstatics : ∀ {b : Bench}, b.Shows s est n → b.kernel.statics.elements = s.statics.elements :=
    fun h => Arena.elements_of_capture h.carries.statics
  have hthreads := threads_alike h₁ h₂ hs
  apply Kernel.Corresponds.encode_eq (P := Matches s est b₁ b₂)
  refine ⟨⟨matches_unique h₁ h₂, ?_, hthreads.imp fun _ _ h => h.1, ?_, ?_, ?_, ?_⟩, ?_⟩
  · exact fun i j => object_corresponds h₁ h₂ hs hle
  · exact congrArg (·.live) (h₁.carries.statics.trans h₂.carries.statics.symm)
  · rw [hstatics h₁, hstatics h₂]
    exact List.forall₂_same.mpr fun e he => static_corresponds h₁ h₂ hs he
  · rw [h₁.carries.outOfMemory, h₂.carries.outOfMemory]
  · apply Kernel.atomicOwnerName_congr
    · rw [h₁.carries.atomic, h₂.carries.atomic]
    · exact hthreads.imp fun _ _ h => h.1.gid
  · exact map_eq_iff_forall₂.mpr (hthreads.imp fun _ _ h => h.2)

omit h₁ h₂ in
theorem start {k : Kernel} (hk : s.Mirrors k) (ht : s.heap.arena.Tallied)
    (hnodup : k.pool.keys.toList.Nodup)
    (hproper : ∀ t info, s.threads.get? t = some info → ∀ f ∈ info.frames, f.Proper) :
    Bench.Shows s (Estate.start s) 0 { kernel := k } where
  carries := .mirrors hk ht hnodup
  sound := .start hs
  length := fun _ => rfl
  items := nofun
  fresh := nofun
  distinct := nofun
  threads := congrArg Array.size hk.threads
  frames := by
    intro t info hinfo
    refine ⟨info, (hk.getThread? t).trans hinfo, ?_⟩
    cases hf : info.topFrame? with
    | none => exact .idle hf
    | some f =>
      have hself : info.setTopFrame f = info := by
        obtain ⟨frames, hframes⟩ := Array.back?_eq_some_iff.mp hf
        unfold Thread.setTopFrame
        rw [hframes, Array.pop_push, ← hframes]
      have hstack : (Estate.start s t).stack = f.cells.map Cell.content := by
        unfold Estate.start
        rw [hinfo, Option.bind_some, hf]
        rfl
      have hshows : f.Shows [] (Estate.start s t).stack f := by
        refine ⟨rfl, rfl, rfl, hproper t info hinfo f (Array.mem_of_back? hf), ?_⟩
        rw [hstack, List.map_map]
        exact (List.map_id'' (fun c => c.cell_content []) f.cells).symm
      have htop := Thread.Shows.top hf hshows
      rwa [hself] at htop
  counts := by
    intro t info _ o _
    unfold Tally.count
    rw [hk.counts]
    rfl

end Shows

end Bench

namespace Interleaves

variable {t u : ThreadId} {A B : List Work} {I : List (ThreadId × Work)} (h : Interleaves t u A B I)

include h

theorem thread_eq : ∀ p ∈ I, p.1 = t ∨ p.1 = u := by
  induction h with
  | nil => nofun
  | left w _ ih => exact List.forall_mem_cons.mpr ⟨.inl rfl, ih⟩
  | right w _ ih => exact List.forall_mem_cons.mpr ⟨.inr rfl, ih⟩

theorem countP_eq (p : Work → Bool) : I.countP (p ·.2) = A.countP p + B.countP p := by
  induction h with
  | nil => rfl
  | left w _ ih =>
    simp only [List.countP_cons, ih]
    omega
  | right w _ ih =>
    simp only [List.countP_cons, ih]
    omega

theorem worksOf_eq (htu : t ≠ u) (v : ThreadId) :
    worksOf v I = if v = t then A else if v = u then B else [] := by
  induction h with
  | nil => simp [worksOf]
  | left w _ ih =>
    by_cases hv : v = t
    · subst hv
      rw [worksOf_cons_self, ih, if_pos rfl, if_pos rfl]
    · rw [worksOf_cons_of_ne hv, ih, if_neg hv, if_neg hv]
  | right w _ ih =>
    by_cases hv : v = u
    · subst hv
      rw [worksOf_cons_self, ih, if_neg htu.symm, if_neg htu.symm, if_pos rfl, if_pos rfl]
    · rw [worksOf_cons_of_ne hv, ih, if_neg hv, if_neg hv]

end Interleaves

namespace Kernel

/-- Two threads make objects and arrays, fill them, and write to their top frames, in one order or
another. Everything goes through, and when the state from which they started is put back and they do the
same in another order, then the state is encoded as it was the first time. -/
theorem encode_interleaved {s : Kernel} {t u : ThreadId} {A B : List Work} {I J : List (ThreadId × Work)}
    (hs : Built (fun _ op => ∀ f ∈ op.frames, f.Proper) s) (hclosed : s.Closed) (htu : t ≠ u)
    (ht : (s.threads.get? t).isSome) (hu : (s.threads.get? u).isSome)
    (hA : Work.AllFit s t [] A) (hB : Work.AllFit s u [] B)
    (hroom : s.heap.size + (A.countP Work.allocates + B.countP Work.allocates) ≤ Heap.maxSize)
    (hI : Interleaves t u A B I) (hJ : Interleaves t u A B J) :
    ∃ b₁ b₂, Bench.run { kernel := s.snapshot.2 } I = .ok b₁ ∧
      Bench.run { kernel := b₁.kernel.restore s.snapshot.1 } J = .ok b₂ ∧
      b₂.kernel.encode = b₁.kernel.encode := by
  have hsited := hs.sited
  have hnamed := Named.built hs
  have hproper := hs.proper fun _ _ => id
  have hrun : ∀ {K : List (ThreadId × Work)} {k : Kernel}, Interleaves t u A B K → s.Mirrors k →
      k.pool.keys.toList.Nodup → ∃ b, Bench.run { kernel := k } K = .ok b ∧
        b.Shows s (fun v => (if v = t then A else if v = u then B else []).foldl (Estate.after s v)
          (Estate.start s v)) (A.countP Work.allocates + B.countP Work.allocates) := by
    intro K k hK hmirrors hnodup
    have hstart := Bench.Shows.start hclosed hmirrors hsited.orderly.heap.tallied hnodup hproper
    have hthreads : ∀ p ∈ K, (s.threads.get? p.1).isSome := by
      intro p hp
      rcases hK.thread_eq p hp with hp | hp
      · rwa [hp]
      · rwa [hp]
    have hfit : ∀ v, Work.AllFit s v [] (worksOf v K) := by
      intro v
      rw [hK.worksOf_eq htu]
      split
      · next hv => exact hv ▸ hA
      · split
        · next hv => exact hv ▸ hB
        · trivial
    obtain ⟨b, hb, hshows⟩ := hstart.run hnamed hthreads hfit (by rwa [hK.countP_eq])
    rw [Nat.zero_add, hK.countP_eq] at hshows
    refine ⟨b, hb, ?_⟩
    simpa only [hK.worksOf_eq htu] using hshows
  have hcapture : s.Mirrors s.snapshot.2 :=
    ⟨⟨rfl, rfl, hsited.packed, hsited.packed⟩, rfl, rfl, rfl, rfl, ⟨List.prefix_rfl, List.prefix_rfl⟩⟩
  obtain ⟨b₁, hb₁, hshows₁⟩ := hrun hI hcapture hs.nodup
  have hlasts : s.Lasts b₁.kernel :=
    ⟨hshows₁.carries.precedes, hshows₁.carries.limit, fun _ => hshows₁.carries.packed⟩
  obtain ⟨b₂, hb₂, hshows₂⟩ := hrun hJ (mirrors_restore hsited.packed hlasts) hshows₁.carries.nodup
  have hle := (Bench.lasts_run hb₂).precedes
  exact ⟨b₁, b₂, hb₁, hb₂, (hshows₁.encode_eq hshows₂ hclosed ⟨hle.classes, hle.pool⟩).symm⟩

def workshop : Kernel :=
  (withLimit (some 6)).performAll
    [.register { name := "Node"
                 instances := ⟨[⟨"next", .reference⟩, ⟨"value", .long⟩, ⟨"count", .int⟩]⟩ },
      .newArray .int 1 none none, .createThread "left" none none, .createThread "right" none none,
      .start 0 (.fresh 0 2), .start 1 (.fresh 0 1)]

def leftWork : List Work :=
  [.newObject 3 (some ⟨0, 4⟩), .newArray .reference 2 (some ⟨0, 5⟩), .setField 0 "next" (.ref (.own 1)),
    .setElement 1 1 (.ref (.own 0)), .setField 0 "value" (.long 5000000000), .setLocal 1 (.link (.own 0)),
    .push (.word 7)]

def rightWork : List Work :=
  [.newArray .long 2 (some ⟨0, 4⟩), .setElement 0 1 (.long (-1)), .newObject 3 (some ⟨0, 4⟩),
    .setField 1 "next" (.ref (.given ⟨0⟩)), .setField 1 "count" (.int 3), .push (.link (.own 1)),
    .setLocal 0 (.link (.own 0))]

def leftFirst : List (ThreadId × Work) := leftWork.map (0, ·) ++ rightWork.map (1, ·)

def alternating : List (ThreadId × Work) :=
  (rightWork.zip leftWork).flatMap fun (v, w) => [(1, v), (0, w)]

theorem encode_interleaved_workshop :
    Built (fun _ op => ∀ f ∈ op.frames, f.Proper) workshop ∧ workshop.Closed ∧
      Work.AllFit workshop 0 [] leftWork ∧ Work.AllFit workshop 1 [] rightWork ∧
      Interleaves 0 1 leftWork rightWork leftFirst ∧ Interleaves 0 1 leftWork rightWork alternating ∧
      ∃ b₁ b₂, Bench.run { kernel := workshop.snapshot.2 } leftFirst = .ok b₁ ∧
        Bench.run { kernel := b₁.kernel.restore workshop.snapshot.1 } alternating = .ok b₂ ∧
        b₂.kernel.encode = b₁.kernel.encode ∧
        b₁.own 0 = [⟨3⟩, ⟨4⟩] ∧ b₁.own 1 = [⟨5⟩, ⟨6⟩] ∧
        b₂.own 0 = [⟨4⟩, ⟨5⟩] ∧ b₂.own 1 = [⟨3⟩, ⟨6⟩] := by
  have hbuilt : Built (fun _ op => ∀ f ∈ op.frames, f.Proper) workshop := by
    apply (Built.start (some 6) {}).performAll
    simp [Op.frames, Frame.proper_fresh]
  have hclosed : workshop.Closed := by
    decide +kernel
  have hleft : Work.AllFit workshop 0 [] leftWork := by
    decide +kernel
  have hright : Work.AllFit workshop 1 [] rightWork := by
    decide +kernel
  have hfirst : Interleaves 0 1 leftWork rightWork leftFirst :=
    .left _ <| .left _ <| .left _ <| .left _ <| .left _ <| .left _ <| .left _ <|
      .right _ <| .right _ <| .right _ <| .right _ <| .right _ <| .right _ <| .right _ .nil
  have halternating : Interleaves 0 1 leftWork rightWork alternating :=
    .right _ <| .left _ <| .right _ <| .left _ <| .right _ <| .left _ <| .right _ <| .left _ <|
      .right _ <| .left _ <| .right _ <| .left _ <| .right _ <| .left _ .nil
  obtain ⟨b₁, b₂, hb₁, hb₂, hencode⟩ := encode_interleaved hbuilt hclosed (by decide) (by decide +kernel)
    (by decide +kernel) hleft hright (by decide +kernel) hfirst halternating
  refine ⟨hbuilt, hclosed, hleft, hright, hfirst, halternating, b₁, b₂, hb₁, hb₂, hencode, ?_⟩
  have hown₁ : (Bench.run { kernel := workshop.snapshot.2 } leftFirst).toOption.map
      (fun b => (b.own 0, b.own 1)) = some ([⟨3⟩, ⟨4⟩], [⟨5⟩, ⟨6⟩]) := by
    decide +kernel
  have hown₂ : (Bench.run { kernel := workshop.snapshot.2 } leftFirst >>= fun b =>
      Bench.run { kernel := b.kernel.restore workshop.snapshot.1 } alternating).toOption.map
      (fun b => (b.own 0, b.own 1)) = some ([⟨4⟩, ⟨5⟩], [⟨3⟩, ⟨6⟩]) := by
    decide +kernel
  rw [hb₁] at hown₁ hown₂
  rw [ok_bind, hb₂] at hown₂
  simp only [Except.toOption, Option.map_some, Option.some.injEq, Prod.mk.injEq] at hown₁ hown₂
  exact ⟨hown₁.1, hown₁.2, hown₂.1, hown₂.2⟩

end Kernel

end Interleave
