import Interleave.Proofs.Heap.Upkeep
import Interleave.Proofs.Kernel.Collection
import Mathlib.Data.List.Sort

/-!
Survivors. Apart from its sharedness, an element that survives a collection changes only where something
is gone: slot 0 of a weak holder becomes null with its referent, and cached references are dropped with
theirs. The statistics count both.
-/

namespace Interleave

namespace Element

def losesReferent (e : Element) (live : Ref → Bool) : Bool :=
  e.weak && e.fields.values[0]?.any fun v => !(Ref.mk v).isNull && !live ⟨v⟩

/-- `e'` is `e` up to its sharedness and to references that are not live. -/
structure Tended (e : Element) (live : Ref → Bool) (e' : Element) : Prop where
  ref : e'.ref = e.ref
  gid : e'.gid = e.gid
  classId : e'.classId = e.classId
  kind : e'.kind = e.kind
  monitor : e'.monitor = e.monitor
  pins : e'.pins = e.pins
  weak : e'.weak = e.weak
  interned : e'.interned = e.interned
  refs : e'.fields.refs = e.fields.refs
  size : e'.fields.size = e.fields.size
  values : ∀ i, e'.fields.values[i]? =
    if i = 0 ∧ e.losesReferent live = true then some Ref.null.slot else e.fields.values[i]?
  cached : e'.cached = e.cached.filter live

variable {e e' : Element} {mask : ThreadMask} {live : Ref → Bool}

theorem hasStaleReferent_eq_ok {b : Bool} (h : e.hasStaleReferent live = .ok b) :
    b = e.losesReferent live := by
  unfold hasStaleReferent at h
  unfold losesReferent
  cases hweak : e.weak with
  | false =>
    rw [hweak] at h
    cases h
    rfl
  | true =>
    rw [hweak, if_pos rfl] at h
    obtain ⟨r, hr, h⟩ := bind_eq_ok.mp h
    obtain ⟨v, hv, hr⟩ := bind_eq_ok.mp hr
    cases hr
    cases h
    unfold Fields.getInt at hv
    split at hv
    · next hslot =>
      cases hv
      rw [hslot]
      rfl
    · cases hv

theorem upkeep_eq_ok {u : Upkeep} (h : e.upkeep mask live = .ok u) :
    u = ⟨e.sharednessFor mask, e.losesReferent live, e.cached.filter (!live ·)⟩ := by
  obtain ⟨b, hb, h⟩ := bind_eq_ok.mp h
  cases h
  rw [hasStaleReferent_eq_ok hb]

theorem filter_not_stale (l : List Ref) (live : Ref → Bool) :
    l.filter (fun r => !(l.filter (!live ·)).contains r) = l.filter live := by
  apply List.filter_congr
  intro r hr
  rw [Bool.eq_iff_iff]
  simp [hr]

theorem Refreshed.tended (h : e.Refreshed mask live e') : e.Tended live e' := by
  obtain ⟨u, hu, he'⟩ := h
  rw [upkeep_eq_ok hu] at he'
  unfold maintain at he'
  dsimp only at he'
  rw [filter_not_stale] at he'
  cases hloses : e.losesReferent live with
  | false =>
    rw [hloses] at he'
    cases he'
    refine ⟨rfl, rfl, rfl, rfl, rfl, rfl, rfl, rfl, rfl, rfl, ?_, rfl⟩
    intro i
    rw [hloses, if_neg (by simp)]
  | true =>
    rw [hloses, if_pos rfl] at he'
    obtain ⟨fields, hfields, he'⟩ := bind_eq_ok.mp he'
    cases he'
    unfold Fields.setRef Fields.setInt at hfields
    split at hfields
    · next hsize =>
      have hlt : 0 < e.fields.values.size := hsize
      cases hfields
      refine ⟨rfl, rfl, rfl, rfl, rfl, rfl, rfl, rfl, rfl, Array.size_setIfInBounds, ?_, rfl⟩
      intro i
      dsimp only
      rw [hloses, Array.getElem?_setIfInBounds]
      by_cases hi : i = 0
      · subst hi
        rw [if_pos rfl, if_pos hlt, if_pos ⟨rfl, rfl⟩]
      · rw [if_neg (Ne.symm hi), if_neg (fun h => hi h.1)]
    · cases hfields

namespace Tended

variable (h : e.Tended live e')

include h

theorem losesReferent_eq_false : e'.losesReferent live = false := by
  cases hloses : e.losesReferent live with
  | true =>
    have hnull : (Ref.mk Ref.null.slot).isNull = true := rfl
    unfold losesReferent
    rw [h.values 0, if_pos ⟨rfl, hloses⟩, Option.any_some, hnull]
    exact Bool.and_false _
  | false =>
    rw [← hloses]
    unfold losesReferent
    rw [h.values 0, if_neg (by simp [hloses]), h.weak]

theorem live_of_mem_cached {r : Ref} (hr : r ∈ e'.cached) : live r = true := by
  rw [h.cached] at hr
  exact (List.mem_filter.mp hr).2

theorem live_referent (hweak : e'.weak = true) {r : Ref} (hr : e'.fields.getRef 0 = .ok r) :
    r.isNull = true ∨ live r = true := by
  have hloses := h.losesReferent_eq_false
  obtain ⟨v, hv, hr⟩ := bind_eq_ok.mp hr
  cases hr
  unfold Fields.getInt at hv
  split at hv
  · next hslot =>
    cases hv
    unfold losesReferent at hloses
    rw [hweak, hslot, Option.any_some, Bool.true_and] at hloses
    cases hnull : (Ref.mk v).isNull with
    | true => exact .inl rfl
    | false =>
      rw [hnull] at hloses
      exact .inr (by simpa using hloses)
  · cases hv

end Tended

end Element

namespace Heap

def reach (h : Heap) (roots : Roots) : Array ThreadMask := Reach.masks h.arena (h.seeds roots)

def afterSweep (h : Heap) (roots : Roots) : Collection where
  heap := (h.sweep (h.reach roots)).2
  stats := {
    liveBefore := h.size
    marked := (h.sweep (h.reach roots)).2.arena.indices.length
    reclaimed := (h.sweep (h.reach roots)).1.length
    weakCleared := 0
    scrubbed := 0
  }
  released := (h.sweep (h.reach roots)).1

theorem collect_eq (h : Heap) (roots : Roots) :
    h.collect roots =
      (h.afterSweep roots).heap.arena.indices.foldlM (maintainAt (h.reach roots)) (h.afterSweep roots) :=
  rfl

/-- What a collection of `h` from `roots` with the outcome `c` does to what survives it. -/
structure Tended (h : Heap) (roots : Roots) (c : Collection) : Prop where
  live : ∀ i, c.heap.arena.contains i = (h.afterSweep roots).heap.arena.contains i
  survivors : ∀ i e', c.heap.arena.get? i = some e' →
    ∃ e, h.arena.get? i = some e ∧ e.Tended c.heap.contains e'
  weakCleared : c.stats.weakCleared =
    c.heap.arena.indices.countP fun i => (h.arena.get? i).any (·.losesReferent c.heap.contains)
  scrubbed : c.stats.scrubbed = (c.heap.arena.indices.map fun i =>
    ((h.arena.get? i).elim [] (·.cached)).countP (!c.heap.contains ·)).sum
  referents : ∀ i e', c.heap.arena.get? i = some e' → e'.weak = true →
    ∀ r, e'.fields.getRef 0 = .ok r → r.isNull = true ∨ c.heap.contains r = true
  cached : ∀ i e', c.heap.arena.get? i = some e' → ∀ r ∈ e'.cached, c.heap.contains r = true

variable {h : Heap} {roots : Roots}

theorem maintainAt_counts {masks : Array ThreadMask} {c c' : Collection} {i : Nat} {e : Element}
    (he : c.heap.arena.get? i = some e) (h : maintainAt masks c i = .ok c') :
    c'.stats.weakCleared =
        c.stats.weakCleared + (if e.losesReferent c.heap.contains then 1 else 0) ∧
      c'.stats.scrubbed = c.stats.scrubbed + e.cached.countP (!c.heap.contains ·) := by
  unfold maintainAt at h
  rw [he] at h
  obtain ⟨u, hu, h⟩ := bind_eq_ok.mp h
  obtain rfl := Element.upkeep_eq_ok hu
  rw [List.countP_eq_length_filter]
  split at h
  · obtain ⟨e', -, h⟩ := bind_eq_ok.mp h
    cases h
    exact ⟨rfl, rfl⟩
  · next hneeds =>
    cases h
    obtain ⟨-, hclear, hstale⟩ := Element.needs_eq_false_iff.mp (Bool.eq_false_iff.mpr hneeds)
    dsimp only at hclear hstale
    rw [hclear, hstale]
    exact ⟨rfl, rfl⟩

theorem foldlM_maintainAt_counts {masks : Array ThreadMask} {l : List Nat} (hl : l.Nodup)
    {c c' : Collection} (hlive : ∀ i ∈ l, c.heap.arena.contains i = true)
    (h : l.foldlM (maintainAt masks) c = .ok c') :
    c'.stats.weakCleared = c.stats.weakCleared +
        l.countP (fun i => (c.heap.arena.get? i).any (·.losesReferent c.heap.contains)) ∧
      c'.stats.scrubbed = c.stats.scrubbed + (l.map fun i =>
        ((c.heap.arena.get? i).elim [] (·.cached)).countP (!c.heap.contains ·)).sum := by
  induction l generalizing c with
  | nil =>
    cases h
    exact ⟨rfl, rfl⟩
  | cons i l ih =>
    rw [List.foldlM_cons] at h
    obtain ⟨c₁, h₁, h⟩ := bind_eq_ok.mp h
    obtain ⟨hi, hl⟩ := List.nodup_cons.mp hl
    obtain ⟨e, he⟩ := (Arena.contains_iff _ _).mp (hlive i List.mem_cons_self)
    obtain ⟨hcleared₁, hscrubbed₁⟩ := maintainAt_counts he h₁
    obtain ⟨hcontains, hsame, -⟩ := maintainAt_refreshed h₁
    -- the rest of the list is as it was when upkeep began
    have hrest : ∀ j ∈ l, c₁.heap.arena.get? j = c.heap.arena.get? j := by
      intro j hj
      apply hsame
      rintro rfl
      exact hi hj
    have hlive₁ : ∀ j ∈ l, c₁.heap.arena.contains j = true := by
      intro j hj
      rw [Arena.contains_congr (hrest j hj)]
      exact hlive j (List.mem_cons_of_mem _ hj)
    obtain ⟨hcleared, hscrubbed⟩ := ih hl hlive₁ h
    rw [hcontains] at hcleared hscrubbed
    constructor
    · rw [hcleared, hcleared₁, List.countP_cons, he, Option.any_some,
        List.countP_congr (fun j hj => by rw [hrest j hj])]
      omega
    · rw [hscrubbed, hscrubbed₁, List.map_cons, List.sum_cons, he, Option.elim_some,
        List.map_congr_left (fun j hj => by rw [hrest j hj])]
      omega

theorem contains_collect_eq {c : Collection} (hc : h.collect roots = .ok c) (i : Nat) :
    c.heap.arena.contains i = (h.afterSweep roots).heap.arena.contains i := by
  rw [(collect_spec hc).2]
  unfold afterSweep
  rw [Arena.contains_eq, Arena.contains_eq]
  dsimp only
  rw [get?_sweep]
  unfold reach
  cases ((Reach.masks h.arena (h.seeds roots)).getD i .empty).isEmpty <;> simp

theorem get?_afterSweep {i : Nat} (hi : (h.afterSweep roots).heap.arena.contains i = true) :
    (h.afterSweep roots).heap.arena.get? i = h.arena.get? i := by
  obtain ⟨e, he⟩ := (Arena.contains_iff _ _).mp hi
  unfold afterSweep at he ⊢
  rw [get?_sweep] at he ⊢
  split at he
  · cases he
  · next hmask => rw [if_neg hmask]

theorem indices_collect {c : Collection} (hc : h.collect roots = .ok c) :
    c.heap.arena.indices = (h.afterSweep roots).heap.arena.indices := by
  apply (Arena.pairwise_indices _).eq_of_mem_iff (Arena.pairwise_indices _)
  intro i
  rw [Arena.mem_indices, Arena.mem_indices, contains_collect_eq hc]

/-- A collection touches what survives it only where it must, and counts what it does there. -/
theorem collect_tended (hw : h.HasReferents) (roots : Roots) :
    ∃ c, h.collect roots = .ok c ∧ h.Tended roots c := by
  obtain ⟨c, hc, -⟩ := collect_ok hw roots
  have hlive := contains_collect_eq hc
  have hcontains := contains_congr hlive
  have hindices := indices_collect hc
  have hsurvivors : ∀ i e', c.heap.arena.get? i = some e' →
      ∃ e, h.arena.get? i = some e ∧ e.Tended c.heap.contains e' := by
    intro i e' he'
    obtain ⟨e, he, hrefreshed⟩ := collect_refreshed hc he'
    exact ⟨e, he, hrefreshed.tended⟩
  rw [collect_eq] at hc
  obtain ⟨hcleared, hscrubbed⟩ := foldlM_maintainAt_counts
    ((Arena.pairwise_indices _).imp Nat.ne_of_lt) (fun i hi => Arena.mem_indices.mp hi) hc
  have hsame : ∀ i ∈ c.heap.arena.indices,
      (h.afterSweep roots).heap.arena.get? i = h.arena.get? i := by
    intro i hi
    apply get?_afterSweep
    rw [← hlive]
    exact Arena.mem_indices.mp hi
  rw [← hindices, ← hcontains] at hcleared hscrubbed
  refine ⟨c, hc, hlive, hsurvivors, ?_, ?_, ?_, ?_⟩
  · rw [hcleared, List.countP_congr fun i hi => by rw [hsame i hi]]
    exact Nat.zero_add _
  · rw [hscrubbed, List.map_congr_left fun i hi => by rw [hsame i hi]]
    exact Nat.zero_add _
  · intro i e' he' hweak r hr
    obtain ⟨e, -, htended⟩ := hsurvivors i e' he'
    exact htended.live_referent hweak hr
  · intro i e' he' r hr
    obtain ⟨e, -, htended⟩ := hsurvivors i e' he'
    exact htended.live_of_mem_cached hr

def holder (i : Nat) (refs : List Ref) : Element :=
  .fresh (.ofIndex i) i 0 .object ⟨(refs.map (·.slot)).toArray, .all⟩ none

def worn : Heap where
  arena := .ofCells #[some { holder 0 [⟨1⟩, ⟨2⟩] with weak := true, pins := 1 }, some (holder 1 []),
    some { holder 2 [] with cached := [⟨1⟩, ⟨0⟩] }, some { holder 3 [⟨2⟩] with weak := true, pins := 1 }]

theorem hasReferents_worn : worn.HasReferents := by
  unfold HasReferents
  decide +kernel

theorem collect_tended_worn :
    ∃ c, worn.collect {} = .ok c ∧ c.stats = ⟨4, 3, 1, 1, 1⟩ ∧ worn.Tended {} c := by
  obtain ⟨c, hc, htended⟩ := collect_tended hasReferents_worn {}
  have hstats : (worn.collect {}).toOption.map (·.stats) = some ⟨4, 3, 1, 1, 1⟩ := by decide +kernel
  rw [hc] at hstats
  exact ⟨c, hc, Option.some.inj hstats, htended⟩

end Heap

end Interleave
