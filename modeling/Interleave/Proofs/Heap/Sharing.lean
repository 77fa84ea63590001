import Interleave.Proofs.Heap.Upkeep
import Interleave.Proofs.Kernel.Collection

/-!
Sharedness. A collection makes an object shared if and only if somebody other than its owner reaches it,
where threads that have no bit of their own in a mask count as others.
-/

namespace Interleave

namespace ThreadMask

theorem toNat_one_shiftLeft {n : Nat} (hn : n < 64) : (1 <<< n.toUInt64 : UInt64).toNat = 2 ^ n := by
  have hpow : 2 ^ n < 2 ^ 64 := Nat.pow_lt_pow_right (by decide) hn
  have hamount : n.toUInt64.toNat % 64 = n := by
    rw [Nat.toUInt64_eq, UInt64.toNat_ofNat']
    omega
  rw [UInt64.toNat_shiftLeft, hamount, UInt64.toNat_one, Nat.one_shiftLeft, Nat.mod_eq_of_lt hpow]

theorem additive_hasStatic : Additive hasStatic where
  empty := rfl
  union := by
    intro a b
    have hzero : ∀ m : ThreadMask, m.hasStatic = false ↔ m.bits &&& static.bits = 0 := by
      intro m
      exact bne_eq_false_iff_eq
    have hunion : (a.union b).bits &&& static.bits = a.bits &&& static.bits ||| b.bits &&& static.bits :=
      UInt64.toBitVec_inj.mp BitVec.and_or_distrib_right
    rw [Bool.eq_iff_iff, ← not_iff_not, Bool.not_eq_true, Bool.not_eq_true, Bool.or_eq_false_iff, hzero,
      hzero, hzero, hunion]
    exact UInt64.or_eq_zero_iff

theorem additive_containsThread (t : ThreadId) : Additive (containsThread · t) where
  empty := by simp [containsThread, empty]
  union := by
    intro a b
    simp only [containsThread, union, UInt64.toNat_or, Nat.testBit_or, Bool.and_or_distrib_left]

theorem hasStatic_thread (t : ThreadId) : (thread t).hasStatic = decide (threadBits ≤ t) := by
  have hsmall : ∀ t < threadBits, (ThreadMask.mk (1 <<< t.toUInt64)).hasStatic = false := by decide
  unfold thread
  split
  · next ht => rw [hsmall t ht, decide_eq_false (Nat.not_le.mpr ht)]
  · next ht =>
    rw [decide_eq_true (Nat.not_lt.mp ht)]
    rfl

theorem containsThread_static (t : ThreadId) : static.containsThread t = false := by
  have hsmall : ∀ t < threadBits, static.containsThread t = false := by decide
  by_cases ht : t < threadBits
  · exact hsmall t ht
  · simp [containsThread, ht]

theorem containsThread_pinned (t : ThreadId) : pinned.containsThread t = false := by
  have hsmall : ∀ t < threadBits, pinned.containsThread t = false := by decide
  by_cases ht : t < threadBits
  · exact hsmall t ht
  · simp [containsThread, ht]

theorem containsThread_thread (t u : ThreadId) :
    (thread t).containsThread u = decide (t = u ∧ u < threadBits) := by
  unfold thread
  split
  · next ht =>
    unfold containsThread
    rw [toNat_one_shiftLeft (Nat.lt_trans ht (by decide)), Nat.testBit_two_pow, Bool.and_comm, Bool.decide_and]
  · next ht =>
    rw [containsThread_static, eq_comm, decide_eq_false_iff_not]
    rintro ⟨rfl, hu⟩
    exact ht hu

theorem mem_threads {m : ThreadMask} {t : ThreadId} : t ∈ m.threads ↔ m.containsThread t = true := by
  unfold threads
  rw [List.mem_filter, List.mem_range, and_iff_right_iff_imp]
  intro ht
  unfold containsThread at ht
  rw [Bool.and_eq_true, decide_eq_true_eq] at ht
  exact ht.1

theorem nodup_threads (m : ThreadMask) : m.threads.Nodup := List.nodup_range.filter _

end ThreadMask

namespace Element

theorem sharednessFor_cases (e : Element) (mask : ThreadMask) :
    e.sharednessFor mask = .shared ∨ e.sharednessFor mask = e.sharedness := by
  unfold sharednessFor
  split
  · exact .inl rfl
  · next hlocal =>
    rw [hlocal]
    split
    · exact .inl rfl
    · split
      · split
        · exact .inr rfl
        · exact .inl rfl
      · exact .inr rfl

theorem sharednessFor_eq_shared_iff (e : Element) (mask : ThreadMask) :
    e.sharednessFor mask = .shared ↔ e.sharedness = .shared ∨
      ∃ owner, e.sharedness = .threadLocal owner ∧
        (mask.hasStatic = true ∨ ∃ t, t ≠ owner ∧ mask.containsThread t = true) := by
  unfold sharednessFor ThreadMask.threadCount ThreadMask.singleThread?
  simp only [← ThreadMask.mem_threads]
  have hnodup := mask.nodup_threads
  cases hshared : e.sharedness with
  | shared => simp
  | threadLocal owner =>
    cases hstatic : mask.hasStatic with
    | true => simp
    | false =>
      match hthreads : mask.threads with
      | [] => simp
      | [t] => by_cases ht : t = owner <;> simp [ht]
      | t :: u :: rest =>
        -- two threads are not both the owner
        rw [hthreads] at hnodup
        have htu : t ≠ u := by
          rintro rfl
          simp at hnodup
        have hother : ∃ v, v ≠ owner ∧ v ∈ t :: u :: rest := by
          by_cases ht : t = owner
          · exact ⟨u, fun hu => htu (ht.trans hu.symm), by simp⟩
          · exact ⟨t, ht, by simp⟩
        simpa using hother

end Element

namespace Heap

variable {h : Heap} {roots : Roots}

inductive LeadsTo (h : Heap) (r : Ref) : Nat → Prop where
  | root {i : Nat} (hi : h.slot? r = some i) : LeadsTo h r i
  | step {i j : Nat} {e : Element} {r' : Ref} (hi : LeadsTo h r i) (he : h.arena.get? i = some e)
    (hr : e.Traces r') (hj : h.slot? r' = some j) : LeadsTo h r j

/-- A static slot reaches slot `i`, or a thread other than `owner`, or a thread whose number is too large
for a mask. -/
def ReachedByOthers (h : Heap) (roots : Roots) (owner : ThreadId) (i : Nat) : Prop :=
  (∃ r ∈ roots.statics, h.LeadsTo r i) ∨
    ∃ t r, (t, r) ∈ roots.threads ∧ (t ≠ owner ∨ 62 ≤ t) ∧ h.LeadsTo r i

theorem leadsTo_iff {r : Ref} {j : Nat} :
    h.LeadsTo r j ↔ ∃ i, h.slot? r = some i ∧ Relation.ReflTransGen h.arena.Leads i j := by
  constructor
  · intro hj
    induction hj with
    | root hi => exact ⟨_, hi, .refl⟩
    | step _ he hr hj ih =>
      obtain ⟨i, hi, hpath⟩ := ih
      exact ⟨i, hi, hpath.tail (leads_iff.mpr ⟨_, _, he, hr, hj⟩)⟩
  · rintro ⟨i, hi, hpath⟩
    induction hpath with
    | refl => exact .root hi
    | tail _ hleads ih =>
      obtain ⟨e, r', he, hr, hj⟩ := leads_iff.mp hleads
      exact .step ih he hr hj

theorem masks_iff_leadsTo {p : ThreadMask → Bool} (hp : ThreadMask.Additive p) (hpin : p .pinned = false)
    {j : Nat} :
    p ((Reach.masks h.arena (h.seeds roots)).getD j .empty) = true ↔
      (p .static = true ∧ ∃ r ∈ roots.statics, h.LeadsTo r j) ∨
        ∃ t r, (t, r) ∈ roots.threads ∧ p (.thread t) = true ∧ h.LeadsTo r j := by
  rw [Reach.masks_iff hp]
  constructor
  · rintro ⟨i, m, hseed, hm, hlive, hpath⟩
    have hleads : ∀ {r : Ref}, r.index? = some i → h.LeadsTo r j := fun hi =>
      leadsTo_iff.mpr ⟨i, slot?_eq_some_iff.mpr ⟨hi, hlive⟩, hpath⟩
    rcases mem_seeds.mp hseed with ⟨-, -, -, rfl⟩ | ⟨t, r, hr, hi, rfl⟩ | ⟨r, hr, hi, rfl⟩
    · rw [hpin] at hm
      cases hm
    · exact .inr ⟨t, r, hr, hm, hleads hi⟩
    · exact .inl ⟨hm, r, hr, hleads hi⟩
  · rintro (⟨hm, r, hr, hj⟩ | ⟨t, r, hr, hm, hj⟩)
    · obtain ⟨i, hi, hpath⟩ := leadsTo_iff.mp hj
      obtain ⟨hindex, hlive⟩ := slot?_eq_some_iff.mp hi
      exact ⟨i, .static, mem_seeds.mpr (.inr (.inr ⟨r, hr, hindex, rfl⟩)), hm, hlive, hpath⟩
    · obtain ⟨i, hi, hpath⟩ := leadsTo_iff.mp hj
      obtain ⟨hindex, hlive⟩ := slot?_eq_some_iff.mp hi
      exact ⟨i, .thread t, mem_seeds.mpr (.inr (.inl ⟨t, r, hr, hindex, rfl⟩)), hm, hlive, hpath⟩

theorem hasStatic_iff {j : Nat} :
    ((Reach.masks h.arena (h.seeds roots)).getD j .empty).hasStatic = true ↔
      (∃ r ∈ roots.statics, h.LeadsTo r j) ∨
        ∃ t r, (t, r) ∈ roots.threads ∧ ThreadMask.threadBits ≤ t ∧ h.LeadsTo r j := by
  rw [masks_iff_leadsTo ThreadMask.additive_hasStatic rfl]
  simp only [ThreadMask.hasStatic_thread, decide_eq_true_eq]
  have hstatic : ThreadMask.static.hasStatic = true := rfl
  rw [hstatic, eq_self, true_and]

theorem containsThread_iff {j : Nat} {t : ThreadId} :
    ((Reach.masks h.arena (h.seeds roots)).getD j .empty).containsThread t = true ↔
      t < ThreadMask.threadBits ∧ ∃ r, (t, r) ∈ roots.threads ∧ h.LeadsTo r j := by
  rw [masks_iff_leadsTo (ThreadMask.additive_containsThread t) (ThreadMask.containsThread_pinned t)]
  simp only [ThreadMask.containsThread_static, ThreadMask.containsThread_thread, decide_eq_true_eq]
  constructor
  · rintro (⟨⟨⟩, -⟩ | ⟨_, r, hr, ⟨rfl, ht⟩, hj⟩)
    exact ⟨ht, r, hr, hj⟩
  · rintro ⟨ht, r, hr, hj⟩
    exact .inr ⟨t, r, hr, ⟨rfl, ht⟩, hj⟩

theorem reachedByOthers_iff {owner : ThreadId} {i : Nat} :
    h.ReachedByOthers roots owner i ↔
      ((Reach.masks h.arena (h.seeds roots)).getD i .empty).hasStatic = true ∨
        ∃ t, t ≠ owner ∧
          ((Reach.masks h.arena (h.seeds roots)).getD i .empty).containsThread t = true := by
  rw [hasStatic_iff]
  simp only [containsThread_iff]
  unfold ReachedByOthers ThreadMask.threadBits
  constructor
  · rintro (hstatic | ⟨t, r, hr, ht, hi⟩)
    · exact .inl (.inl hstatic)
    · by_cases hlarge : 62 ≤ t
      · exact .inl (.inr ⟨t, r, hr, hlarge, hi⟩)
      · exact .inr ⟨t, ht.resolve_right hlarge, Nat.not_le.mp hlarge, r, hr, hi⟩
  · rintro ((hstatic | ⟨t, r, hr, ht, hi⟩) | ⟨t, ht, -, r, hr, hi⟩)
    · exact .inl hstatic
    · exact .inr ⟨t, r, hr, .inr ht, hi⟩
    · exact .inr ⟨t, r, hr, .inl ht, hi⟩

/-- A collection makes exactly those objects shared that others than their owners reach. All other objects
are as shared as they were, in particular those that only pins keep alive. -/
theorem collect_sharedness (h : Heap) (roots : Roots) :
    (h.HasReferents → ∃ c, h.collect roots = .ok c) ∧
      ∀ c, h.collect roots = .ok c → ∀ i e', c.heap.arena.get? i = some e' →
        ∃ e, h.arena.get? i = some e ∧
          (e'.sharedness = .shared ↔ e.sharedness = .shared ∨
            ∃ owner, e.sharedness = .threadLocal owner ∧ h.ReachedByOthers roots owner i) ∧
          (e'.sharedness = .shared ∨ e'.sharedness = e.sharedness) ∧
          ((∀ r, r ∈ roots.statics ∨ (∃ t, (t, r) ∈ roots.threads) → ¬ h.LeadsTo r i) →
            e'.sharedness = e.sharedness) := by
  refine ⟨?_, ?_⟩
  · intro hw
    obtain ⟨c, hc, -⟩ := collect_ok hw roots
    exact ⟨c, hc⟩
  · intro c hc i e' he'
    obtain ⟨e, he, hrefreshed⟩ := collect_refreshed hc he'
    have hiff := e.sharednessFor_eq_shared_iff ((Reach.masks h.arena (h.seeds roots)).getD i .empty)
    simp only [← reachedByOthers_iff, ← hrefreshed.sharedness] at hiff
    have hcases := e.sharednessFor_cases ((Reach.masks h.arena (h.seeds roots)).getD i .empty)
    rw [← hrefreshed.sharedness] at hcases
    refine ⟨e, he, hiff, hcases, ?_⟩
    intro hpins
    rcases hcases with hshared | hsame
    · rcases hiff.mp hshared with hbefore | ⟨owner, -, hothers⟩
      · rw [hshared, hbefore]
      · -- nobody reaches the object
        rcases hothers with ⟨r, hr, hi⟩ | ⟨t, r, hr, -, hi⟩
        · exact absurd hi (hpins r (.inl hr))
        · exact absurd hi (hpins r (.inr ⟨t, hr⟩))
    · exact hsame

def owned (owner : ThreadId) (i : Nat) (refs : List Ref) : Element :=
  .fresh (.ofIndex i) i 0 .object ⟨(refs.map (·.slot)).toArray, .all⟩ (some owner)

def divided : Heap where
  arena := .ofCells #[some (owned 0 0 []), some (owned 0 1 []), some (owned 1 2 [⟨1⟩]),
    some (owned 70 3 []), some (owned 0 4 []).pin, some (owned 0 5 [⟨0⟩])]

def dividedRoots : Roots where
  threads := [(0, ⟨0⟩), (1, ⟨2⟩), (70, ⟨3⟩)]

def sharednessAt (h : Heap) (i : Nat) : Option Sharedness := (h.arena.get? i).map (·.sharedness)

theorem collect_sharedness_divided :
    ∃ c, divided.collect dividedRoots = .ok c ∧
      (c.heap.sharednessAt 1 = some .shared ∧ divided.ReachedByOthers dividedRoots 0 1) ∧
      (c.heap.sharednessAt 3 = some .shared ∧ divided.ReachedByOthers dividedRoots 70 3) ∧
      (c.heap.sharednessAt 0 = some (.threadLocal 0) ∧ ¬ divided.ReachedByOthers dividedRoots 0 0) ∧
      (c.heap.sharednessAt 4 = some (.threadLocal 0) ∧ ¬ divided.ReachedByOthers dividedRoots 0 4) := by
  have hreferents : divided.HasReferents := by
    unfold HasReferents
    decide +kernel
  obtain ⟨hends, hspec⟩ := collect_sharedness divided dividedRoots
  obtain ⟨c, hc⟩ := hends hreferents
  have hafter : ∀ i, (divided.collect dividedRoots).toOption.bind (·.heap.sharednessAt i) =
      c.heap.sharednessAt i := by
    intro i
    rw [hc]
    rfl
  have hothers : ∀ i s owner, c.heap.sharednessAt i = some s →
      divided.sharednessAt i = some (.threadLocal owner) →
        (s = .shared ↔ divided.ReachedByOthers dividedRoots owner i) := by
    intro i s owner hs howner
    obtain ⟨e', he', rfl⟩ := Option.map_eq_some_iff.mp hs
    obtain ⟨e, he, hiff, -⟩ := hspec c hc i e' he'
    have hlocal : e.sharedness = .threadLocal owner := by
      unfold sharednessAt at howner
      rw [he] at howner
      exact Option.some.inj howner
    rw [hiff, hlocal]
    simp
  have h₀ := (hafter 0).symm.trans (show _ = some (.threadLocal 0) by decide +kernel)
  have h₁ := (hafter 1).symm.trans (show _ = some .shared by decide +kernel)
  have h₃ := (hafter 3).symm.trans (show _ = some .shared by decide +kernel)
  have h₄ := (hafter 4).symm.trans (show _ = some (.threadLocal 0) by decide +kernel)
  refine ⟨c, hc, ⟨h₁, ?_⟩, ⟨h₃, ?_⟩, ⟨h₀, ?_⟩, h₄, ?_⟩
  · exact (hothers 1 _ 0 h₁ (by decide +kernel)).mp rfl
  · exact (hothers 3 _ 70 h₃ (by decide +kernel)).mp rfl
  · exact mt (hothers 0 _ 0 h₀ (by decide +kernel)).mpr nofun
  · exact mt (hothers 4 _ 0 h₄ (by decide +kernel)).mpr nofun

end Heap

end Interleave
