import Interleave.Proofs.Kernel.Orderly

/-!
Collection is exact. An object survives if and only if a pin, a thread that has not terminated or a
static slot leads to it, and every object that does not survive is announced once.
-/

namespace Interleave

def Fields.Holds (f : Fields) (i : Nat) (r : Ref) : Prop := f.cells[i]? = some (r.slot, true)

def Frame.Holds (f : Frame) (i : Nat) (r : Ref) : Prop := f.cells[i]? = some (r.slot, true)

namespace Element

def HasClassObject (e : Element) (r : Ref) : Prop := ∃ status, e.kind = .static status r

def Traces (e : Element) (r : Ref) : Prop :=
  r.isNull = false ∧ ((∃ i, e.fields.Holds i r ∧ (e.weak = true → i ≠ 0)) ∨ e.HasClassObject r)

def Refers (e : Element) (r : Ref) : Prop :=
  r.isNull = false ∧ ((∃ i, e.fields.Holds i r) ∨ e.HasClassObject r)

end Element

def Thread.Holds (t : Thread) (r : Ref) : Prop :=
  r.isNull = false ∧
    (r = t.object ∨ t.lockObject = some r ∨ r ∈ t.lockedObjects ∨ ∃ f ∈ t.frames, ∃ i, f.Holds i r)

inductive Kernel.Alive (k : Kernel) : Nat → Prop where
  | pinned {i : Nat} {e : Element} (he : k.heap.arena.get? i = some e) (hpin : 0 < e.pins) : Alive k i
  | thread {t : Thread} {r : Ref} {i : Nat} (ht : t ∈ k.threads.toList) (hrun : t.state ≠ .terminated)
    (hr : t.Holds r) (hi : k.heap.slot? r = some i) : Alive k i
  | static {e : Element} {r : Ref} {i : Nat} (he : e ∈ k.statics.elements) (hr : e.Refers r)
    (hi : k.heap.slot? r = some i) : Alive k i
  | trace {i j : Nat} {e : Element} {r : Ref} (hi : Alive k i) (he : k.heap.arena.get? i = some e)
    (hr : e.Traces r) (hj : k.heap.slot? r = some j) : Alive k j

theorem Fields.mem_referencesFrom {f : Fields} {start : Nat} {r : Ref} :
    r ∈ f.referencesFrom start ↔ r.isNull = false ∧ ∃ i, start ≤ i ∧ f.Holds i r := by
  rw [referencesFrom_eq, Cell.mem_references, List.mem_iff_getElem?]
  constructor
  · rintro ⟨hnull, n, hn⟩
    rw [List.getElem?_drop] at hn
    exact ⟨hnull, start + n, by omega, hn⟩
  · rintro ⟨hnull, i, hi, hr⟩
    refine ⟨hnull, i - start, ?_⟩
    rw [List.getElem?_drop, Nat.add_sub_cancel' hi]
    exact hr

theorem Frame.mem_references {f : Frame} {r : Ref} :
    r ∈ f.references ↔ r.isNull = false ∧ ∃ i, f.Holds i r := by
  rw [references_eq, Cell.mem_references, List.mem_iff_getElem?]
  rfl

namespace Element

theorem mem_classObject? {e : Element} {r : Ref} :
    r ∈ e.classObject?.toList ↔ r.isNull = false ∧ e.HasClassObject r := by
  unfold classObject? HasClassObject
  rw [Option.mem_toList]
  cases e.kind with
  | object => simp
  | array elem length => simp
  | static status classObject =>
    cases hnull : classObject.isNull with
    | true =>
      simp only [hnull, if_true, reduceCtorEq, false_iff]
      rintro ⟨hr, status', heq⟩
      cases heq
      rw [hnull] at hr
      cases hr
    | false =>
      simp only [hnull, Bool.false_eq_true, if_false, Option.some.injEq]
      constructor
      · rintro rfl
        exact ⟨hnull, status, rfl⟩
      · rintro ⟨_, status', heq⟩
        cases heq
        rfl

theorem mem_traced {e : Element} {r : Ref} : r ∈ e.traced ↔ e.Traces r := by
  unfold traced Traces
  rw [List.mem_append, Fields.mem_referencesFrom, mem_classObject?, ← and_or_left]
  have hskip : ∀ i, (if e.weak then 1 else 0) ≤ i ↔ (e.weak = true → i ≠ 0) := by
    intro i
    cases e.weak with
    | true => simp [Nat.one_le_iff_ne_zero]
    | false => simp
  simp only [hskip, and_comm]

theorem traces_iff_refers {e : Element} (h : e.weak = false) {r : Ref} : e.Traces r ↔ e.Refers r := by
  unfold Traces Refers
  simp [h]

end Element

theorem Thread.mem_references {t : Thread} {r : Ref} : r ∈ t.references ↔ t.Holds r := by
  unfold references Holds
  rw [List.mem_filter, Bool.not_eq_true', and_comm]
  apply and_congr_right
  intro hnull
  simp only [List.cons_append, List.mem_cons, List.mem_append, Option.mem_toList, List.mem_flatMap,
    Frame.mem_references, hnull, true_and, Array.mem_toList_iff, or_assoc]

theorem Heap.leads_iff {h : Heap} {i j : Nat} :
    h.arena.Leads i j ↔
      ∃ e r, h.arena.get? i = some e ∧ e.Traces r ∧ h.slot? r = some j := by
  unfold Arena.Leads Element.tracedSlots
  constructor
  · rintro ⟨e, he, hj, hlive⟩
    obtain ⟨r, hr, hindex⟩ := List.mem_filterMap.mp hj
    exact ⟨e, r, he, Element.mem_traced.mp hr, slot?_eq_some_iff.mpr ⟨hindex, hlive⟩⟩
  · rintro ⟨e, r, he, hr, hslot⟩
    obtain ⟨hindex, hlive⟩ := slot?_eq_some_iff.mp hslot
    exact ⟨e, he, List.mem_filterMap.mpr ⟨r, Element.mem_traced.mpr hr, hindex⟩, hlive⟩

namespace Kernel

variable {k : Kernel}

def roots (k : Kernel) : Roots := { threads := k.threads.roots, statics := k.statics.roots }

theorem mem_threadRoots {t : ThreadId} {r : Ref} :
    (t, r) ∈ k.threads.roots ↔
      ∃ info ∈ k.threads.toList, info.state ≠ .terminated ∧ info.id = t ∧ info.Holds r := by
  unfold Roster.roots
  simp only [List.mem_flatMap, List.mem_filter, List.mem_map, Thread.mem_references,
    Thread.isTerminated, Bool.not_eq_true', beq_eq_false_iff_ne, Prod.mk.injEq]
  constructor
  · rintro ⟨info, ⟨hinfo, hrun⟩, r', hr, rfl, rfl⟩
    exact ⟨info, hinfo, hrun, rfl, hr⟩
  · rintro ⟨info, hinfo, hrun, rfl, hr⟩
    exact ⟨info, ⟨hinfo, hrun⟩, r, hr, rfl, rfl⟩

section

variable (hk : ∀ c e, k.statics.get? c = some e → e.weak = false)

include hk

theorem mem_staticRoots {r : Ref} :
    r ∈ k.statics.roots ↔ ∃ e ∈ k.statics.elements, e.Refers r := by
  unfold Statics.roots
  rw [List.mem_flatMap]
  apply exists_congr
  intro e
  apply and_congr_right
  intro he
  obtain ⟨c, hc⟩ := (Arena.mem_elements _ _).mp he
  rw [Element.mem_traced, Element.traces_iff_refers (hk c e hc)]

theorem mem_seeds_iff {i : Nat} (hi : k.heap.arena.contains i = true) :
    (∃ m, (i, m) ∈ k.heap.seeds k.roots ∧ (!m.isEmpty) = true) ↔
      (∃ e, k.heap.arena.get? i = some e ∧ 0 < e.pins) ∨
        (∃ info ∈ k.threads.toList, info.state ≠ .terminated ∧
          ∃ r, info.Holds r ∧ k.heap.slot? r = some i) ∨
        ∃ e ∈ k.statics.elements, ∃ r, e.Refers r ∧ k.heap.slot? r = some i := by
  simp only [Heap.mem_seeds]
  constructor
  · rintro ⟨m, ⟨e, he, hpin, -⟩ | ⟨t, r, hr, hindex, -⟩ | ⟨r, hr, hindex, -⟩, -⟩
    · exact .inl ⟨e, he, hpin⟩
    · obtain ⟨info, hinfo, hrun, -, hr⟩ := mem_threadRoots.mp hr
      exact .inr (.inl ⟨info, hinfo, hrun, r, hr, Heap.slot?_eq_some_iff.mpr ⟨hindex, hi⟩⟩)
    · obtain ⟨e, he, hr⟩ := (mem_staticRoots hk).mp hr
      exact .inr (.inr ⟨e, he, r, hr, Heap.slot?_eq_some_iff.mpr ⟨hindex, hi⟩⟩)
  · rintro (⟨e, he, hpin⟩ | ⟨info, hinfo, hrun, r, hr, hslot⟩ | ⟨e, he, r, hr, hslot⟩)
    · exact ⟨.pinned, .inl ⟨e, he, hpin, rfl⟩, rfl⟩
    · refine ⟨.thread info.id, .inr (.inl ⟨info.id, r, ?_, ?_, rfl⟩), ?_⟩
      · exact mem_threadRoots.mpr ⟨info, hinfo, hrun, rfl, hr⟩
      · exact (Heap.slot?_eq_some_iff.mp hslot).1
      · rw [ThreadMask.isEmpty_thread]
        rfl
    · refine ⟨.static, .inr (.inr ⟨r, ?_, (Heap.slot?_eq_some_iff.mp hslot).1, rfl⟩), rfl⟩
      exact (mem_staticRoots hk).mpr ⟨e, he, hr⟩

theorem alive_iff_masked {j : Nat} :
    k.Alive j ↔ (!((Reach.masks k.heap.arena (k.heap.seeds k.roots)).getD j .empty).isEmpty) = true := by
  rw [Reach.masks_iff (p := fun m => !m.isEmpty) ThreadMask.additive_not_isEmpty]
  constructor
  · intro h
    have hseed : ∀ {i}, k.heap.arena.contains i = true →
        (∃ m, (i, m) ∈ k.heap.seeds k.roots ∧ (!m.isEmpty) = true) →
        ∃ i' m, (i', m) ∈ k.heap.seeds k.roots ∧ (!m.isEmpty) = true ∧
          k.heap.arena.contains i' = true ∧ Relation.ReflTransGen k.heap.arena.Leads i' i := by
      rintro i hi ⟨m, hmem, hm⟩
      exact ⟨i, m, hmem, hm, hi, .refl⟩
    induction h with
    | pinned he hpin =>
      have hi := Arena.contains_of_get? he
      exact hseed hi ((mem_seeds_iff hk hi).mpr (.inl ⟨_, he, hpin⟩))
    | thread ht hrun hr hslot =>
      have hi := (Heap.slot?_eq_some_iff.mp hslot).2
      exact hseed hi ((mem_seeds_iff hk hi).mpr (.inr (.inl ⟨_, ht, hrun, _, hr, hslot⟩)))
    | static he hr hslot =>
      have hi := (Heap.slot?_eq_some_iff.mp hslot).2
      exact hseed hi ((mem_seeds_iff hk hi).mpr (.inr (.inr ⟨_, he, _, hr, hslot⟩)))
    | trace _ he hr hslot ih =>
      obtain ⟨i', m, hmem, hm, hi', hpath⟩ := ih
      exact ⟨i', m, hmem, hm, hi', hpath.tail (Heap.leads_iff.mpr ⟨_, _, he, hr, hslot⟩)⟩
  · rintro ⟨i, m, hmem, hm, hi, hpath⟩
    induction hpath with
    | refl =>
      rcases (mem_seeds_iff hk hi).mp ⟨m, hmem, hm⟩ with ⟨e, he, hpin⟩ |
        ⟨info, hinfo, hrun, r, hr, hslot⟩ | ⟨e, he, r, hr, hslot⟩
      · exact .pinned he hpin
      · exact .thread hinfo hrun hr hslot
      · exact .static he hr hslot
    | tail _ hleads ih =>
      obtain ⟨e, r, he, hr, hslot⟩ := Heap.leads_iff.mp hleads
      exact .trace ih he hr hslot

end

theorem alive_iff (hk : k.Orderly) {j : Nat} :
    k.Alive j ↔ (!((Reach.masks k.heap.arena (k.heap.seeds k.roots)).getD j .empty).isEmpty) = true :=
  alive_iff_masked hk.statics

theorem Alive.contains {i : Nat} (hi : k.Alive i) : k.heap.arena.contains i = true := by
  cases hi with
  | pinned he => exact Arena.contains_of_get? he
  | thread _ _ _ hi => exact (Heap.slot?_eq_some_iff.mp hi).2
  | static _ _ hi => exact (Heap.slot?_eq_some_iff.mp hi).2
  | trace _ _ _ hj => exact (Heap.slot?_eq_some_iff.mp hj).2

end Kernel

theorem Fields.getRef_ok {f : Fields} {i : Nat} (h : i < f.size) : ∃ r, f.getRef i = .ok r := by
  have hlt : i < f.values.size := h
  refine ⟨⟨f.values[i]⟩, ?_⟩
  unfold getRef getInt
  rw [Array.getElem?_eq_getElem hlt]
  rfl

namespace Element

theorem upkeep_ok {e : Element} (h : e.weak = true → 0 < e.fields.size) (mask : ThreadMask)
    (live : Ref → Bool) : ∃ u, e.upkeep mask live = .ok u ∧ (u.clearWeak = true → e.weak = true) := by
  have hstale : ∃ b, e.hasStaleReferent live = .ok b ∧ (b = true → e.weak = true) := by
    unfold hasStaleReferent
    cases hw : e.weak with
    | false => exact ⟨false, rfl, id⟩
    | true =>
      obtain ⟨r, hr⟩ := Fields.getRef_ok (h hw)
      refine ⟨!r.isNull && !live r, ?_, fun _ => rfl⟩
      rw [if_pos rfl, hr]
      rfl
  obtain ⟨b, hb, hweak⟩ := hstale
  exact ⟨_, bind_eq_ok.mpr ⟨b, hb, rfl⟩, hweak⟩

theorem maintain_ok {e : Element} {u : Upkeep} (h : u.clearWeak = true → 0 < e.fields.size) :
    ∃ e', e.maintain u = .ok e' ∧ e'.weak = e.weak ∧ e'.fields.size = e.fields.size := by
  unfold maintain
  cases hc : u.clearWeak with
  | false => exact ⟨_, rfl, rfl, rfl⟩
  | true =>
    simp only [if_true, Fields.setRef, Fields.setInt, if_pos (h hc)]
    exact ⟨_, rfl, rfl, by simp [Fields.size]⟩

end Element

namespace Heap

def HasReferents (h : Heap) : Prop := ∀ e ∈ h.elements, e.weak = true → 0 < e.fields.size

theorem HasReferents.at {h : Heap} (hw : h.HasReferents) {i : Nat} {e : Element}
    (he : h.arena.get? i = some e) (hweak : e.weak = true) : 0 < e.fields.size :=
  hw e ((Arena.mem_elements _ _).mpr ⟨i, he⟩) hweak

theorem maintainAt_ok (masks : Array ThreadMask) {c : Collection} (hc : c.heap.HasReferents) (i : Nat) :
    ∃ c', maintainAt masks c i = .ok c' ∧ c'.heap.HasReferents := by
  unfold maintainAt
  split
  · exact ⟨c, rfl, hc⟩
  · next e he =>
    obtain ⟨u, hu, hclear⟩ := Element.upkeep_ok (hc.at he) (masks.getD i .empty) c.heap.contains
    rw [hu, ok_bind]
    split
    · obtain ⟨e', he', hweak, hsize⟩ := Element.maintain_ok fun hcw => hc.at he (hclear hcw)
      rw [he', ok_bind]
      refine ⟨_, rfl, ?_⟩
      intro x hx hxw
      obtain ⟨j, hx⟩ := (Arena.mem_elements _ _).mp hx
      rw [Arena.get?_replace] at hx
      split at hx
      · next hij =>
        subst hij
        rw [he] at hx
        cases hx
        rw [hsize]
        exact hc.at he (hweak ▸ hxw)
      · exact hc.at hx hxw
    · exact ⟨c, rfl, hc⟩

theorem counts_of_collect {h : Heap} {roots : Roots} {c : Collection} (hc : h.collect roots = .ok c) :
    c.released = (h.sweep (Reach.masks h.arena (h.seeds roots))).1 ∧
      c.stats.liveBefore = h.size ∧
      c.stats.marked = (h.sweep (Reach.masks h.arena (h.seeds roots))).2.arena.indices.length ∧
      c.stats.reclaimed = c.released.length := by
  apply foldlM_induction hc
  · exact ⟨rfl, rfl, rfl, rfl⟩
  · intro i _ c₁ c₂ h₁ h₂
    obtain rfl | ⟨_, _, _, _, _, -, -, rfl⟩ := maintainAt_cases h₂
    · exact h₁
    · exact h₁

theorem collect_ok {h : Heap} (hw : h.HasReferents) (roots : Roots) :
    ∃ c, h.collect roots = .ok c ∧
      c.released = (h.sweep (Reach.masks h.arena (h.seeds roots))).1 ∧
      c.stats.liveBefore = h.size ∧
      c.stats.marked = (h.sweep (Reach.masks h.arena (h.seeds roots))).2.arena.indices.length ∧
      c.stats.reclaimed = c.released.length := by
  have hswept : (h.sweep (Reach.masks h.arena (h.seeds roots))).2.HasReferents := by
    intro e he
    obtain ⟨i, he⟩ := (Arena.mem_elements _ _).mp he
    rw [get?_sweep] at he
    split at he
    · cases he
    · exact hw.at he
  obtain ⟨c, hc⟩ := foldlM_ok (f := maintainAt _) (motive := fun c => c.heap.HasReferents)
    (b := ⟨_, ⟨h.size, _, _, 0, 0⟩, _⟩) hswept fun i c hc => maintainAt_ok _ hc i
  exact ⟨c, hc, counts_of_collect hc⟩

def swept (h : Heap) (masks : Array ThreadMask) : List (Nat × GlobalId) :=
  (h.arena.indices.filter fun i => (masks.getD i .empty).isEmpty).filterMap fun i =>
    (h.arena.get? i).map fun e => (i, e.gid)

theorem mem_swept {h : Heap} {masks : Array ThreadMask} {i : Nat} {gid : GlobalId} :
    (i, gid) ∈ h.swept masks ↔
      (∃ e, h.arena.get? i = some e ∧ e.gid = gid) ∧ (masks.getD i .empty).isEmpty = true := by
  unfold swept
  simp only [List.mem_filterMap, List.mem_filter, Option.map_eq_some_iff, Prod.mk.injEq]
  constructor
  · rintro ⟨_, ⟨-, hmask⟩, e, he, rfl, hgid⟩
    exact ⟨⟨e, he, hgid⟩, hmask⟩
  · rintro ⟨⟨e, he, hgid⟩, hmask⟩
    exact ⟨i, ⟨Arena.mem_indices.mpr (Arena.contains_of_get? he), hmask⟩, e, he, rfl, hgid⟩

theorem map_fst_swept (h : Heap) (masks : Array ThreadMask) :
    (h.swept masks).map Prod.fst = h.arena.indices.filter fun i => (masks.getD i .empty).isEmpty := by
  unfold swept
  rw [List.map_filterMap, List.filterMap_congr (g := some), List.filterMap_some]
  intro i hi
  have hlive := Arena.mem_indices.mp (List.mem_of_mem_filter hi)
  obtain ⟨e, he⟩ := (Arena.contains_iff _ _).mp hlive
  rw [he]
  rfl

theorem released_sweep {h : Heap} (ho : h.Orderly) (masks : Array ThreadMask) :
    (h.sweep masks).1 = (h.swept masks).map fun p => (Ref.ofIndex p.1, p.2) := by
  unfold sweep swept
  rw [List.map_filterMap]
  apply List.filterMap_congr
  intro i _
  cases he : h.arena.get? i with
  | none => rfl
  | some e =>
    rw [Option.map_some, Option.map_some, Option.map_some, ho.ref i e he]

end Heap

namespace Kernel

/-- An exact collection of `k`, which frees the slots `freed`, leads to `k'`. -/
structure CollectsTo (k : Kernel) (stats : CollectionStats) (freed : List (Nat × GlobalId))
    (k' : Kernel) : Prop where
  live : ∀ i, k'.heap.arena.contains i = true ↔ k.heap.arena.contains i = true ∧ k.Alive i
  kept : ∀ i e', k'.heap.arena.get? i = some e' → ∃ e, k.heap.arena.get? i = some e ∧ e.Kept e'
  liveBefore : stats.liveBefore = {i | k.heap.arena.contains i = true}.ncard
  marked : stats.marked = {i | k.heap.arena.contains i = true ∧ k.Alive i}.ncard
  reclaimed : stats.reclaimed = {i | k.heap.arena.contains i = true ∧ ¬ k.Alive i}.ncard
  dead : ∀ i gid, (i, gid) ∈ freed ↔
    (∃ e, k.heap.arena.get? i = some e ∧ e.gid = gid) ∧ ¬ k.Alive i
  ascending : (freed.map Prod.fst).Pairwise (· < ·)
  told : k'.observers = k.observers.tellAll
    (.gcBegin :: freed.map (fun p => .released (.ofIndex p.1) p.2) ++ [.gcEnd])

/-- A collection comes to an end and keeps exactly what is alive, if every weak holder has a slot for its
referent. -/
theorem collect_exact {k : Kernel} (hk : k.Reachable) (hw : k.heap.HasReferents) :
    ∃ stats freed k', k.collect = .ok (stats, k') ∧ k.CollectsTo stats freed k' := by
  have ho := hk.orderly
  obtain ⟨c, hc, hreleased, hbefore, hmarked, hreclaimed⟩ := Heap.collect_ok hw k.roots
  obtain ⟨masks, hmasks⟩ : ∃ masks, masks = Reach.masks k.heap.arena (k.heap.seeds k.roots) :=
    ⟨_, rfl⟩
  have halive : ∀ i, k.Alive i ↔ (masks.getD i .empty).isEmpty = false := by
    intro i
    rw [alive_iff ho, hmasks, Bool.not_eq_true']
  have hdead : ∀ i, ¬ k.Alive i ↔ (masks.getD i .empty).isEmpty = true := by
    intro i
    rw [halive, Bool.not_eq_false]
  rw [← hmasks] at hreleased hmarked
  obtain ⟨hcollected, hlive⟩ := Heap.collect_spec hc
  refine ⟨c.stats, k.heap.swept masks, _, bind_eq_ok.mpr ⟨c, hc, rfl⟩, ?_⟩
  constructor
  case live =>
    intro i
    rw [halive, hmasks, ← Bool.not_eq_true', ← Bool.and_eq_true, ← hlive]
    rfl
  case kept => exact hcollected.kept
  case liveBefore =>
    rw [hbefore]
    exact ho.heap.tallied.live_eq_ncard
  case marked =>
    rw [hmarked]
    apply length_eq_ncard (Arena.pairwise_indices _)
    intro i
    rw [Arena.mem_indices, Set.mem_ofPred_eq, halive]
    rw [Arena.contains_eq, Arena.contains_eq, Heap.get?_sweep]
    cases (masks.getD i .empty).isEmpty <;> simp
  case reclaimed =>
    rw [hreclaimed, hreleased, Heap.released_sweep ho.heap, List.length_map, ← List.length_map Prod.fst,
      Heap.map_fst_swept]
    apply length_eq_ncard ((Arena.pairwise_indices _).filter _)
    intro i
    rw [List.mem_filter, Arena.mem_indices, Set.mem_ofPred_eq, hdead]
  case dead =>
    intro i gid
    rw [Heap.mem_swept, hdead]
  case ascending =>
    rw [Heap.map_fst_swept]
    exact (Arena.pairwise_indices _).filter _
  case told =>
    dsimp only [tell, tellAll]
    rw [hreleased, Heap.released_sweep ho.heap, List.map_map]
    unfold Observers.tellAll
    rw [List.foldl_append, List.foldl_cons]
    rfl

def littered : Kernel :=
  { Kernel.withLimit none with observers := { count := 1 } }.performAll
    [.register
        { name := "Node"
          instances := ⟨[⟨"next", .reference⟩]⟩
          statics := ⟨[⟨"first", .reference⟩]⟩ },
      .load 3, .newObject 3 none none, .newObject 3 none none, .newObject 3 none none,
      .newObject 3 none none, .newObject 3 none none, .writeField ⟨1⟩ "next" (.ref ⟨2⟩),
      .writeField ⟨2⟩ "next" (.ref ⟨1⟩), .writeStatic 3 "first" (.ref ⟨3⟩),
      .writeField ⟨3⟩ "next" (.ref ⟨4⟩), .makeWeak ⟨3⟩, .pin ⟨5⟩, .createThread "main" none none,
      .start 0 (.fresh 0 1), .terminate 0]

theorem collect_exact_littered :
    littered.Reachable ∧ littered.heap.HasReferents ∧ ∃ stats freed k',
      stats = ⟨7, 3, 4, 1, 0⟩ ∧ littered.collect = .ok (stats, k') ∧
        littered.CollectsTo stats freed k' := by
  have hreachable : littered.Reachable := (Reachable.start .core {} none { count := 1 }).performAll _
  have hreferents : littered.heap.HasReferents := by
    unfold Heap.HasReferents
    decide +kernel
  obtain ⟨stats, freed, k', hcollect, hexact⟩ := collect_exact hreachable hreferents
  have hstats : littered.collect.toOption.map Prod.fst = some ⟨7, 3, 4, 1, 0⟩ := by decide +kernel
  rw [hcollect] at hstats
  exact ⟨hreachable, hreferents, stats, freed, k', Option.some.inj hstats, hcollect, hexact⟩

end Kernel

end Interleave
