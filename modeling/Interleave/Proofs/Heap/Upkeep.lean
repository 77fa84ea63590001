import Interleave.Proofs.Heap.Collect
import Interleave.Proofs.Heap.Update

/-!
Upkeep. Every survivor of a collection is what upkeep makes of the element that was in its slot before,
where the slots that are live after the sweep count as live. Weak holders apart, it keeps its slots.
-/

namespace Interleave

structure Element.Endures (e e' : Element) : Prop where
  gid : e'.gid = e.gid
  classId : e'.classId = e.classId
  kind : e'.kind = e.kind
  fields : e'.fields = e.fields
  weak : e'.weak = e.weak
  interned : e'.interned = e.interned
  pins : e.pins ≤ e'.pins

namespace Element.Endures

theorem refl (e : Element) : e.Endures e := ⟨rfl, rfl, rfl, rfl, rfl, rfl, Nat.le_refl _⟩

theorem trans {e₁ e₂ e₃ : Element} (h : e₁.Endures e₂) (h' : e₂.Endures e₃) : e₁.Endures e₃ where
  gid := h'.gid.trans h.gid
  classId := h'.classId.trans h.classId
  kind := h'.kind.trans h.kind
  fields := h'.fields.trans h.fields
  weak := h'.weak.trans h.weak
  interned := h'.interned.trans h.interned
  pins := Nat.le_trans h.pins h'.pins

theorem cacheRef (e : Element) (r : Ref) : e.Endures (e.cacheRef r) := by
  unfold Element.cacheRef
  split
  · exact refl e
  · exact ⟨rfl, rfl, rfl, rfl, rfl, rfl, Nat.le_refl _⟩

end Element.Endures

namespace Element

def Refreshed (e : Element) (mask : ThreadMask) (live : Ref → Bool) (e' : Element) : Prop :=
  ∃ u, e.upkeep mask live = .ok u ∧ e.maintain u = .ok e'

theorem needs_eq_false_iff {e : Element} {u : Upkeep} :
    e.needs u = false ↔ u.sharedness = e.sharedness ∧ u.clearWeak = false ∧ u.stale = [] := by
  unfold needs
  rw [Bool.or_eq_false_iff, Bool.or_eq_false_iff, bne_eq_false_iff_eq, Bool.not_eq_false',
    List.isEmpty_iff, and_assoc]

theorem maintain_of_needs_eq_false {e : Element} {u : Upkeep} (h : e.needs u = false) :
    e.maintain u = .ok e := by
  obtain ⟨hshared, hclear, hstale⟩ := needs_eq_false_iff.mp h
  have hcached : e.cached.filter (fun r => !u.stale.contains r) = e.cached := by
    rw [hstale, List.filter_eq_self]
    intro r _
    rfl
  unfold maintain
  rw [hclear, hshared, hcached]
  rfl

namespace Refreshed

variable {e e' : Element} {mask : ThreadMask} {live : Ref → Bool}

theorem sharedness (h : e.Refreshed mask live e') : e'.sharedness = e.sharednessFor mask := by
  obtain ⟨u, hu, he'⟩ := h
  obtain ⟨clear, -, hu⟩ := bind_eq_ok.mp hu
  cases hu
  unfold maintain at he'
  split at he'
  · obtain ⟨fields, -, he'⟩ := bind_eq_ok.mp he'
    cases he'
    rfl
  · cases he'
    rfl

theorem endures (h : e.Refreshed mask live e') (hweak : e.weak = false) : e.Endures e' := by
  obtain ⟨u, hu, he'⟩ := h
  unfold upkeep hasStaleReferent at hu
  rw [hweak] at hu
  cases hu
  cases he'
  exact ⟨rfl, rfl, rfl, rfl, rfl, rfl, Nat.le_refl _⟩

end Refreshed

end Element

namespace Heap

theorem contains_congr {h h' : Heap} (hlive : ∀ i, h'.arena.contains i = h.arena.contains i) :
    h'.contains = h.contains := by
  funext r
  rw [contains_eq, contains_eq, funext hlive]

theorem maintainAt_refreshed {masks : Array ThreadMask} {c c' : Collection} {i : Nat}
    (h : maintainAt masks c i = .ok c') :
    c'.heap.contains = c.heap.contains ∧
      (∀ j, i ≠ j → c'.heap.arena.get? j = c.heap.arena.get? j) ∧
      ∀ e', c'.heap.arena.get? i = some e' → ∃ e, c.heap.arena.get? i = some e ∧
        e.Refreshed (masks.getD i .empty) c.heap.contains e' := by
  unfold maintainAt at h
  split at h
  · next hfree =>
    cases h
    refine ⟨rfl, fun _ _ => rfl, ?_⟩
    intro e' he'
    rw [hfree] at he'
    cases he'
  · next e he =>
    obtain ⟨u, hu, h⟩ := bind_eq_ok.mp h
    split at h
    · obtain ⟨e₁, he₁, h⟩ := bind_eq_ok.mp h
      cases h
      refine ⟨contains_congr fun j => c.heap.arena.contains_replace i j e₁, ?_, ?_⟩
      · intro j hij
        rw [Arena.get?_replace, if_neg hij]
      · intro e' he'
        rw [Arena.get?_replace, if_pos rfl, he] at he'
        cases he'
        exact ⟨e, he, u, hu, he₁⟩
    · next hneeds =>
      cases h
      refine ⟨rfl, fun _ _ => rfl, ?_⟩
      intro e' he'
      rw [he] at he'
      cases he'
      exact ⟨e, he, u, hu, Element.maintain_of_needs_eq_false (Bool.eq_false_iff.mpr hneeds)⟩

theorem foldlM_maintainAt {masks : Array ThreadMask} {l : List Nat} (hl : l.Nodup) {c c' : Collection}
    (h : l.foldlM (maintainAt masks) c = .ok c') :
    c'.heap.contains = c.heap.contains ∧
      (∀ j, j ∉ l → c'.heap.arena.get? j = c.heap.arena.get? j) ∧
      ∀ i ∈ l, ∀ e', c'.heap.arena.get? i = some e' → ∃ e, c.heap.arena.get? i = some e ∧
        e.Refreshed (masks.getD i .empty) c.heap.contains e' := by
  -- the slots are all different, so that upkeep does not see what it has done at the others
  induction l generalizing c with
  | nil =>
    cases h
    exact ⟨rfl, fun _ _ => rfl, fun _ hi => absurd hi (List.not_mem_nil)⟩
  | cons i l ih =>
    rw [List.foldlM_cons] at h
    obtain ⟨c₁, h₁, h⟩ := bind_eq_ok.mp h
    obtain ⟨hi, hl⟩ := List.nodup_cons.mp hl
    obtain ⟨hlive₁, hsame₁, hhere⟩ := maintainAt_refreshed h₁
    obtain ⟨hlive, hsame, hrest⟩ := ih hl h
    refine ⟨hlive.trans hlive₁, ?_, ?_⟩
    · intro j hj
      rw [List.mem_cons, not_or] at hj
      rw [hsame j hj.2, hsame₁ j (Ne.symm hj.1)]
    · intro j hj e' he'
      rcases List.mem_cons.mp hj with rfl | hj
      · rw [hsame j hi] at he'
        exact hhere e' he'
      · obtain ⟨e, he, hrefreshed⟩ := hrest j hj e' he'
        have hij : i ≠ j := by
          rintro rfl
          exact hi hj
        rw [hsame₁ j hij] at he
        rw [hlive₁] at hrefreshed
        exact ⟨e, he, hrefreshed⟩

theorem collect_refreshed {h : Heap} {roots : Roots} {c : Collection} (hc : h.collect roots = .ok c)
    {i : Nat} {e' : Element} (he' : c.heap.arena.get? i = some e') :
    ∃ e, h.arena.get? i = some e ∧
      e.Refreshed ((Reach.masks h.arena (h.seeds roots)).getD i .empty) c.heap.contains e' := by
  have hswept := h.get?_sweep (Reach.masks h.arena (h.seeds roots))
  obtain ⟨hlive, hsame, hkept⟩ :=
    foldlM_maintainAt ((Arena.pairwise_indices _).imp Nat.ne_of_lt) hc
  by_cases hi : i ∈ (h.sweep (Reach.masks h.arena (h.seeds roots))).2.arena.indices
  · obtain ⟨e, he, hrefreshed⟩ := hkept i hi e' he'
    replace he := (hswept i).symm.trans he
    split at he
    · cases he
    · rw [hlive]
      exact ⟨e, he, hrefreshed⟩
  · -- nothing is live in the end that the sweep has freed
    rw [hsame i hi] at he'
    exact absurd (Arena.mem_indices.mpr (Arena.contains_of_get? he')) hi

theorem collect_endures {h : Heap} {roots : Roots} {c : Collection} (hc : h.collect roots = .ok c) {i : Nat}
    {e : Element} (he : h.arena.get? i = some e) (hweak : e.weak = false)
    (hlive : c.heap.arena.contains i = true) : ∃ e', c.heap.arena.get? i = some e' ∧ e.Endures e' := by
  obtain ⟨e', he'⟩ := (Arena.contains_iff _ _).mp hlive
  obtain ⟨e₀, he₀, hrefreshed⟩ := collect_refreshed hc he'
  rw [he] at he₀
  cases he₀
  exact ⟨e', he', hrefreshed.endures hweak⟩

end Heap

end Interleave
