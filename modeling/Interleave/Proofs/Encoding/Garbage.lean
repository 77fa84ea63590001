import Interleave.Proofs.Encoding.Correspondence
import Interleave.Proofs.Heap.Upkeep
import Interleave.Proofs.Kernel.Collection

/-!
Collection does not show in encodings. All that an encoding names or follows survives a collection and is
as it was, if there are no weak holders and threads that have ended leave nothing behind.
-/

namespace Interleave

theorem Heap.isNull_eq_false_of_slot? {h : Heap} {r : Ref} {i : Nat} (hi : h.slot? r = some i) :
    r.isNull = false := by
  cases hr : r.isNull with
  | false => rfl
  | true =>
    rw [slot?_eq_none_of_isNull hr] at hi
    cases hi

namespace Kernel

def NoWeakHolders (k : Kernel) : Prop := ∀ e ∈ k.heap.elements ++ k.statics.elements, e.weak = false

/-- The thread holds nothing any more, and its object is gone or alive for other reasons. -/
structure LeavesNothing (k : Kernel) (t : Thread) : Prop where
  frames : t.frames = #[]
  lockObject : t.lockObject = none
  lockedObjects : t.lockedObjects = []
  object : t.object.isNull = true ∨ k.heap.get? t.object = none ∨
    ∃ i, k.heap.slot? t.object = some i ∧ k.Alive i

variable {k : Kernel}

namespace NoWeakHolders

variable (hk : k.NoWeakHolders)

include hk

theorem object {i : Nat} {e : Element} (he : k.heap.arena.get? i = some e) : e.weak = false :=
  hk e (List.mem_append_left _ ((Arena.mem_elements _ _).mpr ⟨i, he⟩))

theorem static (c : ClassId) (e : Element) (he : k.statics.get? c = some e) : e.weak = false :=
  hk e (List.mem_append_right _ ((Arena.mem_elements _ _).mpr ⟨c, he⟩))

theorem hasReferents : k.heap.HasReferents := by
  intro e he hweak
  rw [hk e (List.mem_append_left _ he)] at hweak
  cases hweak

end NoWeakHolders

theorem alive_of_holds {t : Thread} (ht : t ∈ k.threads.toList)
    (hended : t.state = .terminated → k.LeavesNothing t) {r : Ref} (hr : t.Holds r) {i : Nat}
    (hi : k.heap.slot? r = some i) : k.Alive i := by
  by_cases hstate : t.state = .terminated
  · have hleaves := hended hstate
    obtain ⟨hnull, rfl | hlock | hlocked | ⟨f, hf, -⟩⟩ := hr
    · rcases hleaves.object with hobject | hfree | ⟨j, hj, halive⟩
      · rw [hnull] at hobject
        cases hobject
      · obtain ⟨e, he⟩ := (Arena.contains_iff _ _).mp (Heap.slot?_eq_some_iff.mp hi).2
        rw [Heap.get?_eq_bind_slot?, hi, Option.bind_some, he] at hfree
        cases hfree
      · rw [hi] at hj
        cases hj
        exact halive
    · rw [hleaves.lockObject] at hlock
      cases hlock
    · rw [hleaves.lockedObjects] at hlocked
      cases hlocked
    · rw [hleaves.frames] at hf
      exact absurd hf (by simp)
  · exact .thread ht hstate hr hi

def Stays (k : Kernel) (i j : Nat) : Prop := k.Alive i ∧ i = j

section

variable {c : Collection} (hk : k.NoWeakHolders) (hc : k.heap.collect k.roots = .ok c)

include hk hc

theorem alive_survives {i : Nat} (hi : k.Alive i) :
    ∃ e e', k.heap.arena.get? i = some e ∧ c.heap.arena.get? i = some e' ∧ e.Endures e' := by
  obtain ⟨e, he⟩ := (Arena.contains_iff _ _).mp hi.contains
  have hlive : c.heap.arena.contains i = true := by
    rw [(Heap.collect_spec hc).2, hi.contains, (alive_iff_masked hk.static).mp hi]
    rfl
  obtain ⟨e', he', hendures⟩ := Heap.collect_endures hc he (hk.object he) hlive
  exact ⟨e, e', he, he', hendures⟩

theorem slot?_collect {r : Ref} (hr : ∀ i, k.heap.slot? r = some i → k.Alive i) :
    c.heap.slot? r = k.heap.slot? r := by
  unfold Heap.slot? at hr ⊢
  cases hindex : r.index? with
  | none => rfl
  | some i =>
    rw [hindex, Option.filter_some] at hr
    rw [Option.filter_some, Option.filter_some, (Heap.collect_spec hc).2]
    cases hlive : k.heap.arena.contains i with
    | false => rfl
    | true => rw [(alive_iff_masked hk.static).mp (hr i (by simp [hlive])), Bool.and_true]

theorem ref_stays {r : Ref} (hr : ∀ i, k.heap.slot? r = some i → k.Alive i) :
    r.Corresponds k.heap c.heap k.Stays r := by
  unfold Ref.Corresponds
  rw [slot?_collect hk hc hr]
  cases hs : k.heap.slot? r with
  | none => exact .none
  | some i => exact .some ⟨hr i hs, rfl⟩

theorem name_stays {r : Ref} (hr : ∀ i, k.heap.slot? r = some i → k.Alive i) :
    c.heap.nameOf? r = k.heap.nameOf? r := by
  unfold Heap.nameOf?
  rw [Heap.get?_eq_bind_slot?, Heap.get?_eq_bind_slot?, slot?_collect hk hc hr]
  cases hs : k.heap.slot? r with
  | none => rfl
  | some i =>
    obtain ⟨e, e', he, he', hendures⟩ := alive_survives hk hc (hr i hs)
    rw [Option.bind_some, Option.bind_some, he, he', Option.map_some, Option.map_some, hendures.gid]

theorem cells_stay {l : List Cell} (hl : ∀ v, (v, true) ∈ l → ∀ i, k.heap.slot? ⟨v⟩ = some i → k.Alive i) :
    List.Forall₂ (Cell.Corresponds k.heap c.heap k.Stays) l l := by
  rw [List.forall₂_same]
  rintro ⟨v, isRef⟩ hv
  refine ⟨rfl, fun _ => rfl, ?_⟩
  rintro rfl
  exact ref_stays hk hc (hl v hv)

theorem thread_stays {t : Thread} (ht : t ∈ k.threads.toList)
    (hended : t.state = .terminated → k.LeavesNothing t) : t.Alike k.heap c.heap k.Stays t := by
  have hname : ∀ r, t.lockObject = some r ∨ r ∈ t.lockedObjects →
      c.heap.nameOf? r = k.heap.nameOf? r := by
    intro r hr
    apply name_stays hk hc
    intro i hi
    exact alive_of_holds ht hended ⟨Heap.isNull_eq_false_of_slot? hi, .inr (hr.imp_right .inl)⟩ hi
  constructor
  case object =>
    apply ref_stays hk hc
    intro i hi
    exact alive_of_holds ht hended ⟨Heap.isNull_eq_false_of_slot? hi, .inl rfl⟩ hi
  case frames =>
    rw [List.forall₂_same]
    intro f hf
    refine ⟨rfl, rfl, cells_stay hk hc ?_⟩
    intro v hv i hi
    obtain ⟨n, hn⟩ := List.mem_iff_getElem?.mp hv
    exact alive_of_holds ht hended ⟨Heap.isNull_eq_false_of_slot? hi,
      .inr (.inr (.inr ⟨f, Array.mem_toList_iff.mp hf, n, hn⟩))⟩ hi
  case lockObject =>
    cases hl : t.lockObject with
    | none => rfl
    | some r => exact (hname r (.inl hl)).symm
  case locked =>
    rw [List.map_congr_left fun r hr => hname r (.inr hr)]
  all_goals rfl

theorem static_stays {e : Element} (he : e ∈ k.statics.elements) :
    e.StaticCorresponds k.heap c.heap k.Stays e := by
  have halive : ∀ r, (∃ n, e.fields.Holds n r) ∨ e.HasClassObject r →
      ∀ i, k.heap.slot? r = some i → k.Alive i := by
    intro r hr i hi
    exact .static he ⟨Heap.isNull_eq_false_of_slot? hi, hr⟩ hi
  refine ⟨rfl, rfl, ?_, ?_⟩
  · cases hr : e.classRef? with
    | none => exact .none
    | some r =>
      refine .some (ref_stays hk hc (halive r (.inr ?_)))
      unfold Element.classRef? at hr
      split at hr
      · next status classObject hkind =>
        cases hr
        exact ⟨status, hkind⟩
      · cases hr
  · apply cells_stay hk hc
    intro v hv
    obtain ⟨n, hn⟩ := List.mem_iff_getElem?.mp hv
    exact halive ⟨v⟩ (.inl ⟨n, hn⟩)

theorem object_stays {i : Nat} (hi : k.Alive i) :
    ∃ e e', k.heap.arena.get? i = some e ∧ c.heap.arena.get? i = some e' ∧
      e.Corresponds k.heap c.heap k.Stays e' := by
  obtain ⟨e, e', he, he', hendures⟩ := alive_survives hk hc hi
  refine ⟨e, e', he, he', hendures.gid.symm, hendures.classId.symm, ?_, ?_⟩
  · unfold Element.length?
    rw [hendures.kind]
  · rw [hendures.fields]
    apply cells_stay hk hc
    intro v hv j hj
    obtain ⟨n, hn⟩ := List.mem_iff_getElem?.mp hv
    refine .trace hi he ⟨Heap.isNull_eq_false_of_slot? hj, .inl ⟨n, hn, ?_⟩⟩ hj
    intro hweak
    rw [hk.object he] at hweak
    cases hweak

theorem corresponds_collect
    (hended : ∀ t ∈ k.threads.toList, t.state = .terminated → k.LeavesNothing t) :
    k.Corresponds { k with heap := c.heap } k.Stays where
  unique := by
    constructor
    · intro i j i' hi hj
      exact hi.2.trans hj.2.symm
    · intro i j j' hj hj'
      exact hj.2.symm.trans hj'.2
  objects := by
    rintro i _ ⟨hi, rfl⟩
    exact object_stays hk hc hi
  threads := by
    rw [List.forall₂_same]
    intro t ht
    exact thread_stays hk hc ht (hended t ht)
  loaded := rfl
  statics := by
    rw [List.forall₂_same]
    intro e he
    exact static_stays hk hc he
  outOfMemory := (Heap.collect_spec hc).1.outOfMemory.symm
  owner := rfl
  states := rfl

end

/-- The states before and after a collection have the same encoding. -/
theorem encode_collect {k : Kernel} (hk : k.NoWeakHolders)
    (hended : ∀ t ∈ k.threads.toList, t.state = .terminated → k.LeavesNothing t) :
    ∃ stats k', k.collect = .ok (stats, k') ∧ k'.encode = k.encode := by
  obtain ⟨c, hc, -⟩ := Heap.collect_ok hk.hasReferents k.roots
  have hsame := (corresponds_collect hk hc hended).encode_eq
  exact ⟨c.stats, _, bind_eq_ok.mpr ⟨c, hc, rfl⟩, hsame.symm⟩

def strewn : Kernel :=
  (withLimit none).performAll
    [.register
        { name := "Node"
          instances := ⟨[⟨"next", .reference⟩]⟩
          statics := ⟨[⟨"first", .reference⟩]⟩ },
      .load 3, .createThread "main" none none, .createThread "helper" none none, .newObject 3 none none,
      .newObject 3 none none, .newObject 3 none none, .writeField ⟨4⟩ "next" (.ref ⟨5⟩),
      .writeField ⟨5⟩ "next" (.ref ⟨4⟩), .start 0 (.fresh 0 1), .lock 0 ⟨3⟩, .start 1 (.fresh 0 1),
      .terminate 1, .writeStatic 3 "first" (.ref ⟨2⟩)]

theorem encode_collect_strewn :
    strewn.NoWeakHolders ∧
      (∀ t ∈ strewn.threads.toList, t.state = .terminated → strewn.LeavesNothing t) ∧
      ∃ stats k', stats.reclaimed = 2 ∧ strewn.collect = .ok (stats, k') ∧ k'.encode = strewn.encode := by
  have hweak : strewn.NoWeakHolders := by
    unfold NoWeakHolders
    decide +kernel
  have halive : strewn.Alive 2 := by
    have hfirst : ∃ e ∈ strewn.statics.elements, e.fields.cells[0]? = some (2, true) := by decide +kernel
    obtain ⟨e, he, hfield⟩ := hfirst
    exact .static he (r := ⟨2⟩) ⟨rfl, .inl ⟨0, hfield⟩⟩ (by decide +kernel)
  have hended : ∀ t ∈ strewn.threads.toList, t.state = .terminated → strewn.LeavesNothing t := by
    have hhelper : ∀ t ∈ strewn.threads.toList, t.state = .terminated →
        t.frames = #[] ∧ t.lockObject = none ∧ t.lockedObjects = [] ∧
          strewn.heap.slot? t.object = some 2 := by
      decide +kernel
    intro t ht hstate
    obtain ⟨hframes, hlock, hlocked, hobject⟩ := hhelper t ht hstate
    exact ⟨hframes, hlock, hlocked, .inr (.inr ⟨2, hobject, halive⟩)⟩
  obtain ⟨stats, k', hcollect, hsame⟩ := encode_collect hweak hended
  have hstats : strewn.collect.toOption.map (·.1.reclaimed) = some 2 := by decide +kernel
  rw [hcollect] at hstats
  exact ⟨hweak, hended, stats, k', Option.some.inj hstats, hcollect, hsame⟩

end Kernel

end Interleave
