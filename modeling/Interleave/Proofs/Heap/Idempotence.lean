import Interleave.Proofs.Heap.Sharing
import Interleave.Proofs.Heap.Survivors

/-!
A second collection from the same roots finds nothing to do. What survives the first one is reached by
the same threads as before, along the same references, and upkeep has left nothing to tend.
-/

namespace Interleave

namespace ThreadMask

theorem additive_testBit (b : Nat) : Additive fun m => m.bits.toNat.testBit b where
  empty := Nat.zero_testBit b
  union := by
    intro x y
    unfold union
    rw [UInt64.toNat_or, Nat.testBit_or]

theorem eq_of_testBit_eq {m m' : ThreadMask}
    (h : ∀ b, m.bits.toNat.testBit b = m'.bits.toNat.testBit b) : m = m' := by
  cases m
  cases m'
  congr
  exact UInt64.toNat_inj.mp (Nat.eq_of_testBit_eq h)

theorem Additive.isEmpty_eq_false {p : ThreadMask → Bool} (hp : Additive p) {m : ThreadMask}
    (hm : p m = true) : m.isEmpty = false := by
  rw [Bool.eq_false_iff]
  intro hempty
  cases m with
  | mk bits =>
    have hzero : bits = 0 := eq_of_beq hempty
    subst hzero
    rw [show p ⟨0⟩ = false from hp.empty] at hm
    cases hm

end ThreadMask

namespace Element

variable {e e' : Element} {mask : ThreadMask} {live : Ref → Bool}

theorem Tended.holds_iff (h : e.Tended live e') {i : Nat} (hi : e.weak = true → i ≠ 0) {r : Ref} :
    e'.fields.Holds i r ↔ e.fields.Holds i r := by
  have hkept : ¬ (i = 0 ∧ e.losesReferent live = true) := by
    rintro ⟨hzero, hloses⟩
    unfold losesReferent at hloses
    rw [Bool.and_eq_true] at hloses
    exact hi hloses.1 hzero
  unfold Fields.Holds
  rw [Fields.getElem?_cells, Fields.getElem?_cells, Fields.isReference_congr h.size h.refs, h.values i,
    if_neg hkept]

theorem Tended.traces_iff (h : e.Tended live e') {r : Ref} : e'.Traces r ↔ e.Traces r := by
  unfold Traces HasClassObject
  rw [h.weak, h.kind]
  apply and_congr_right
  intro _
  apply or_congr_left
  apply exists_congr
  intro i
  apply and_congr_left
  intro hi
  exact h.holds_iff hi

theorem sharednessFor_of_eq (h : e'.sharedness = e.sharednessFor mask) :
    e'.sharednessFor mask = e'.sharedness := by
  rcases e'.sharednessFor_cases mask with hshared | hsame
  · rcases (e'.sharednessFor_eq_shared_iff mask).mp hshared with hbefore | ⟨owner, howner, hothers⟩
    · rw [hshared, hbefore]
    · -- an object that is local for good would have been shared before
      have hlocal : e.sharednessFor mask = .threadLocal owner := h.symm.trans howner
      rcases e.sharednessFor_cases mask with hfirst | hfirst
      · rw [hlocal] at hfirst
        cases hfirst
      · have hfirst' := (e.sharednessFor_eq_shared_iff mask).mpr
          (.inr ⟨owner, hfirst.symm.trans hlocal, hothers⟩)
        rw [hlocal] at hfirst'
        cases hfirst'
  · exact hsame

theorem Tended.needs_eq_false (h : e.Tended live e') (hshared : e'.sharedness = e.sharednessFor mask)
    {u : Upkeep} (hu : e'.upkeep mask live = .ok u) : e'.needs u = false := by
  rw [upkeep_eq_ok hu, needs_eq_false_iff]
  refine ⟨sharednessFor_of_eq hshared, h.losesReferent_eq_false, ?_⟩
  rw [List.filter_eq_nil_iff]
  intro r hr
  rw [h.live_of_mem_cached hr]
  simp

end Element

namespace Heap

variable {h : Heap} {roots : Roots} {c : Collection}

theorem sweep_eq_self {masks : Array ThreadMask}
    (h' : ∀ i, h.arena.contains i = true → (masks.getD i .empty).isEmpty = false) :
    h.sweep masks = ([], h) := by
  have hdead : h.arena.indices.filter (fun i => (masks.getD i .empty).isEmpty) = [] := by
    rw [List.filter_eq_nil_iff]
    intro i hi
    rw [h' i (Arena.mem_indices.mp hi)]
    simp
  unfold sweep
  rw [hdead]
  rfl

theorem maintainAt_eq_self {masks : Array ThreadMask} {i : Nat}
    (h' : ∀ e, c.heap.arena.get? i = some e →
      ∃ u, e.upkeep (masks.getD i .empty) c.heap.contains = .ok u ∧ e.needs u = false) :
    maintainAt masks c i = .ok c := by
  unfold maintainAt
  cases he : c.heap.arena.get? i with
  | none => rfl
  | some e =>
    obtain ⟨u, hu, hneeds⟩ := h' e he
    dsimp only
    rw [hu, ok_bind, hneeds]
    rfl

section

variable (hc : h.collect roots = .ok c)

include hc

theorem contains_collect_iff {i : Nat} :
    c.heap.arena.contains i = true ↔
      h.arena.contains i = true ∧ ((h.reach roots).getD i .empty).isEmpty = false := by
  rw [(collect_spec hc).2, Bool.and_eq_true, Bool.not_eq_true']
  rfl

theorem survivor {i : Nat} {e' : Element} (he' : c.heap.arena.get? i = some e') :
    ∃ e, h.arena.get? i = some e ∧ e.Tended c.heap.contains e' ∧
      e'.sharedness = e.sharednessFor ((h.reach roots).getD i .empty) := by
  obtain ⟨e, he, hrefreshed⟩ := collect_refreshed hc he'
  exact ⟨e, he, hrefreshed.tended, hrefreshed.sharedness⟩

theorem mem_seeds_collect {i : Nat} {m : ThreadMask} (hi : c.heap.arena.contains i = true) :
    (i, m) ∈ c.heap.seeds roots ↔ (i, m) ∈ h.seeds roots := by
  obtain ⟨e', he'⟩ := (Arena.contains_iff _ _).mp hi
  obtain ⟨e, he, htended, -⟩ := survivor hc he'
  rw [mem_seeds, mem_seeds, he, he']
  simp only [Option.some.injEq, exists_eq_left', htended.pins]

theorem survives_iff {j : Nat} :
    c.heap.arena.contains j = true ↔ h.arena.contains j = true ∧ ∃ i m, (i, m) ∈ h.seeds roots ∧
      m.isEmpty = false ∧ h.arena.contains i = true ∧ Relation.ReflTransGen h.arena.Leads i j := by
  rw [contains_collect_iff hc, ← Bool.not_eq_true']
  unfold reach
  rw [Reach.masks_iff (p := fun m => !m.isEmpty) ThreadMask.additive_not_isEmpty]
  simp only [Bool.not_eq_true']

theorem contains_of_leads {i j : Nat} (hi : c.heap.arena.contains i = true)
    (hij : h.arena.Leads i j) : c.heap.arena.contains j = true := by
  obtain ⟨-, i₀, m, hseed, hm, hlive, hpath⟩ := (survives_iff hc).mp hi
  apply (survives_iff hc).mpr
  refine ⟨?_, i₀, m, hseed, hm, hlive, hpath.tail hij⟩
  obtain ⟨_, _, _, hj⟩ := hij
  exact hj

theorem leads_collect {i j : Nat} (hi : c.heap.arena.contains i = true) :
    c.heap.arena.Leads i j ↔ h.arena.Leads i j := by
  obtain ⟨e', he'⟩ := (Arena.contains_iff _ _).mp hi
  obtain ⟨e, he, htended, -⟩ := survivor hc he'
  constructor
  · intro hij
    obtain ⟨_, r, hget, hr, hslot⟩ := leads_iff.mp hij
    rw [he'] at hget
    cases hget
    obtain ⟨hindex, hj⟩ := slot?_eq_some_iff.mp hslot
    apply leads_iff.mpr
    exact ⟨e, r, he, htended.traces_iff.mp hr,
      slot?_eq_some_iff.mpr ⟨hindex, ((contains_collect_iff hc).mp hj).1⟩⟩
  · intro hij
    have hj := contains_of_leads hc hi hij
    obtain ⟨_, r, hget, hr, hslot⟩ := leads_iff.mp hij
    rw [he] at hget
    cases hget
    obtain ⟨hindex, -⟩ := slot?_eq_some_iff.mp hslot
    apply leads_iff.mpr
    exact ⟨e', r, he', htended.traces_iff.mpr hr, slot?_eq_some_iff.mpr ⟨hindex, hj⟩⟩

theorem leads_of_leads_collect {i j : Nat} (hij : c.heap.arena.Leads i j) : h.arena.Leads i j := by
  have hleads := hij
  obtain ⟨_, he, _, _⟩ := hleads
  exact (leads_collect hc (Arena.contains_of_get? he)).mp hij

theorem path_collect {i j : Nat} (hi : c.heap.arena.contains i = true)
    (hpath : Relation.ReflTransGen h.arena.Leads i j) :
    c.heap.arena.contains j = true ∧ Relation.ReflTransGen c.heap.arena.Leads i j := by
  induction hpath with
  | refl => exact ⟨hi, .refl⟩
  | tail _ hleads ih =>
    obtain ⟨hlive, hpath⟩ := ih
    exact ⟨contains_of_leads hc hlive hleads, hpath.tail ((leads_collect hc hlive).mpr hleads)⟩

theorem reach_collect (j : Nat) :
    (c.heap.reach roots).getD j .empty = (h.reach roots).getD j .empty := by
  apply ThreadMask.eq_of_testBit_eq
  intro b
  have hp := ThreadMask.additive_testBit b
  unfold reach
  rw [Bool.eq_iff_iff, Reach.masks_iff hp, Reach.masks_iff hp]
  constructor
  · rintro ⟨i, m, hseed, hm, hi, hpath⟩
    refine ⟨i, m, (mem_seeds_collect hc hi).mp hseed, hm, ((contains_collect_iff hc).mp hi).1, ?_⟩
    exact Relation.ReflTransGen.mono (fun _ _ => leads_of_leads_collect hc) _ _ hpath
  · rintro ⟨i, m, hseed, hm, hi, hpath⟩
    have hlive := (survives_iff hc).mpr ⟨hi, i, m, hseed, hp.isEmpty_eq_false hm, hi, .refl⟩
    refine ⟨i, m, (mem_seeds_collect hc hlive).mpr hseed, hm, hlive, ?_⟩
    exact (path_collect hc hlive hpath).2

theorem hasReferents_collect (hw : h.HasReferents) : c.heap.HasReferents := by
  intro e' he' hweak
  obtain ⟨i, he'⟩ := (Arena.mem_elements _ _).mp he'
  obtain ⟨e, he, htended, -⟩ := survivor hc he'
  rw [htended.size]
  exact hw.at he (htended.weak ▸ hweak)

theorem afterSweep_collect :
    c.heap.afterSweep roots =
      { heap := c.heap, stats := ⟨c.heap.size, c.heap.arena.indices.length, 0, 0, 0⟩, released := [] } := by
  have hsweep : c.heap.sweep (c.heap.reach roots) = ([], c.heap) := by
    apply sweep_eq_self
    intro i hi
    rw [reach_collect hc]
    exact ((contains_collect_iff hc).mp hi).2
  unfold afterSweep
  rw [hsweep]
  rfl

end

theorem collect_again (hw : h.HasReferents) (roots : Roots) :
    ∃ c, h.collect roots = .ok c ∧
      c.heap.collect roots = .ok {
        heap := c.heap
        stats := {
          liveBefore := c.heap.size
          marked := c.stats.marked
          reclaimed := 0
          weakCleared := 0
          scrubbed := 0
        }
        released := []
      } := by
  obtain ⟨c, hc, -, -, hmarked, -⟩ := collect_ok hw roots
  have hmarked : c.stats.marked = c.heap.arena.indices.length := by
    rw [indices_collect hc]
    exact hmarked
  refine ⟨c, hc, ?_⟩
  rw [collect_eq, afterSweep_collect hc, hmarked]
  apply foldlM_eq_self
  intro i hi
  apply maintainAt_eq_self
  intro e' he'
  obtain ⟨e, -, htended, hshared⟩ := survivor hc he'
  rw [reach_collect hc]
  obtain ⟨u, hu, -⟩ := Element.upkeep_ok ((hasReferents_collect hc hw).at he')
    ((h.reach roots).getD i .empty) c.heap.contains
  exact ⟨u, hu, htended.needs_eq_false hshared hu⟩

theorem collect_again_worn :
    ∃ c, worn.collect {} = .ok c ∧ c.stats = ⟨4, 3, 1, 1, 1⟩ ∧
      c.heap.collect {} = .ok ⟨c.heap, ⟨3, 3, 0, 0, 0⟩, []⟩ := by
  obtain ⟨c, hc, hagain⟩ := collect_again hasReferents_worn {}
  have hstats : (worn.collect {}).toOption.map (fun c => (c.heap.size, c.stats)) =
      some (3, ⟨4, 3, 1, 1, 1⟩) := by decide +kernel
  rw [hc] at hstats
  obtain ⟨hsize, hstats⟩ := Prod.mk.inj (Option.some.inj hstats)
  rw [hsize, hstats] at hagain
  exact ⟨c, hc, hstats, hagain⟩

end Heap

end Interleave
