import Interleave.Proofs.Schedule.Suppression

/-!
Decisions that are due to accesses to shared arrays. As long as a thread goes on with the same array, there is
one of them for the reads and one for the writes. Anything else that happens in between starts all over.
-/

namespace Interleave

def Generator.concerns (creator : Option ThreadId) (array : Ref) (g : Generator) : Bool :=
  g.creator == creator && g.access.map (·.array) == some array

/-- The block at the top of a path, which is empty if it belongs to another thread or to another array. -/
def Path.topBlock (p : Path) (t : ThreadId) (array : Ref) : List Generator :=
  p.newestFirst.takeWhile (·.concerns (some t) array)

/-- The paths that lead from the empty one to others by decisions and by going back. The decisions due to
accesses to arrays are those that some scheduler takes in some state. Those due to anything else are arbitrary. -/
inductive Path.Grown : Path → Prop where
  | empty : Grown {}
  | push {p : Path} {g : Generator} (hp : Grown p) (hg : g.access = none) : Grown (p.push g)
  | pushArray {p : Path} {s : Scheduler} {k : Kernel} {d : Dice} {t : ThreadId} {access : ArrayAccess}
    {g : Generator} {after : Kernel × Dice} (hp : Grown p)
    (hg : s.decide k d p t (.sharedArray access) = .ok (some g, after)) : Grown (p.push g)
  | advance {p : Path} {g : Generator} (hp : Grown p) (hg : p.top? = some g) : Grown (p.setTop g.advance.2)
  | pop {p : Path} (hp : Grown p) : Grown p.pop

theorem Generator.concerns_iff {g : Generator} {creator : Option ThreadId} {array : Ref} :
    g.concerns creator array = true ↔
      g.creator = creator ∧ ∃ access, g.access = some access ∧ access.array = array := by
  simp [concerns]

section Covers

variable {t : ThreadId} {access : ArrayAccess} {g : Generator}

theorem coversAccess_cons_of_concerns (h : g.concerns (some t) access.array = true) (rest : List Generator) :
    coversAccess t access (g :: rest) = (g.access == some access || coversAccess t access rest) := by
  obtain ⟨hcreator, earlier, hearlier, harray⟩ := Generator.concerns_iff.mp h
  have hsame : (earlier == access) = (earlier.isRead == access.isRead) := by
    cases earlier
    cases access
    cases harray
    rw [Bool.eq_iff_iff]
    simp
  rw [coversAccess, hearlier]
  dsimp only
  rw [if_pos ⟨hcreator, harray⟩, Option.some_beq_some, hsame]

theorem coversAccess_cons_of_not_concerns (h : ¬ g.concerns (some t) access.array = true)
    (rest : List Generator) : coversAccess t access (g :: rest) = false := by
  rw [coversAccess]
  split
  · rfl
  · next earlier hearlier =>
    rw [if_neg]
    rintro ⟨hcreator, harray⟩
    exact h (Generator.concerns_iff.mpr ⟨hcreator, earlier, hearlier, harray⟩)

theorem coversAccess_eq_any (t : ThreadId) (access : ArrayAccess) (p : Path) :
    coversAccess t access p.newestFirst = (p.topBlock t access.array).any (·.access == some access) := by
  unfold Path.topBlock
  induction p.newestFirst with
  | nil => rfl
  | cons g rest ih =>
    by_cases hg : g.concerns (some t) access.array = true
    · rw [coversAccess_cons_of_concerns hg, List.takeWhile_cons_of_pos hg, List.any_cons, ih]
    · rw [coversAccess_cons_of_not_concerns hg, List.takeWhile_cons_of_neg hg]
      rfl

theorem coversAccess_iff {p : Path} :
    coversAccess t access p.newestFirst = true ↔ ∃ g ∈ p.topBlock t access.array, g.access = some access := by
  rw [coversAccess_eq_any, List.any_eq_true]
  simp only [beq_iff_eq]

theorem coversAccess_of_mem {block : List Generator}
    (hblock : ∀ g ∈ block, g.concerns (some t) access.array = true) (hg : g ∈ block)
    (haccess : g.access = some access) (rest : List Generator) :
    coversAccess t access (block ++ rest) = true := by
  refine coversAccess_iff (p := ⟨block ++ rest⟩).mpr ⟨g, ?_, haccess⟩
  unfold Path.topBlock
  rw [List.takeWhile_append_of_pos hblock]
  exact List.mem_append_left _ hg

end Covers

def Unrepeated : List Generator → Prop
  | [] => True
  | g :: rest =>
    (∀ access ∈ g.access, ∃ t, g.creator = some t ∧ coversAccess t access rest = false) ∧ Unrepeated rest

theorem Unrepeated.tail {l : List Generator} (h : Unrepeated l) : Unrepeated l.tail := by
  cases l with
  | nil => trivial
  | cons g rest => exact h.2

theorem Unrepeated.of_append {l rest : List Generator} (h : Unrepeated (l ++ rest)) : Unrepeated rest := by
  induction l with
  | nil => exact h
  | cons g l ih => exact ih h.2

theorem Unrepeated.countP_le_one {block rest : List Generator} {creator : Option ThreadId} {array : Ref}
    (h : Unrepeated (block ++ rest)) (hblock : ∀ g ∈ block, g.concerns creator array = true) (isRead : Bool) :
    block.countP (·.access == some ⟨array, isRead⟩) ≤ 1 := by
  induction block with
  | nil => exact Nat.zero_le 1
  | cons g block ih =>
    obtain ⟨hg, hblock⟩ := List.forall_mem_cons.mp hblock
    rw [List.cons_append] at h
    rw [List.countP_cons]
    split
    · next haccess =>
      rw [beq_iff_eq] at haccess
      obtain ⟨t, ht, hfree⟩ := h.1 _ haccess
      have hcreator : creator = some t := (Generator.concerns_iff.mp hg).1.symm.trans ht
      have hnone : block.countP (·.access == some ⟨array, isRead⟩) = 0 := by
        rw [List.countP_eq_zero]
        intro g' hg' haccess'
        rw [coversAccess_of_mem (hcreator ▸ hblock) hg' (beq_iff_eq.mp haccess')] at hfree
        cases hfree
      rw [hnone]
    · exact ih h.2 hblock

namespace Scheduler

variable {s : Scheduler} {k : Kernel} {d : Dice} {p : Path} {t : ThreadId} {access : ArrayAccess} {g : Generator}

theorem yields_access (kind : ChoiceKind) (access : Option ArrayAccess) :
    Yields (fun g => g.creator = some t ∧ g.access = access) (s.unlessAtomic k d kind t access) :=
  Ensures.ite yields_none
    (Ensures.ite (Ensures.after fun _ _ => yields_announce fun _ => ⟨rfl, rfl⟩) yields_none)

theorem decide_sharedArray_eq_some {after : Kernel × Dice}
    (h : s.decide k d p t (.sharedArray access) = .ok (some g, after)) :
    g.creator = some t ∧ g.access = some access ∧ coversAccess t access p.newestFirst = false := by
  unfold decide at h
  dsimp only at h
  split at h
  · next hasks =>
    rw [Bool.and_eq_true, Bool.not_eq_true'] at hasks
    obtain ⟨hcreator, haccess⟩ := (yields_access _ _).of_eq h
    exact ⟨hcreator, haccess, hasks.2⟩
  · cases h

theorem decide_of_covers (h : coversAccess t access p.newestFirst = true) :
    s.decide k d p t (.sharedArray access) = .ok (none, k, d) := by
  unfold decide
  dsimp only
  rw [h, Bool.not_true, Bool.and_false]
  rfl

theorem decide_of_not_covers (hk : k.threads.Numbered) (hout : k.isAtomicFor t = false)
    (hbreak : s.breaks.arrayAccess = true) (hworth : s.worthDeciding k.threads.runnableCount = true)
    (h : coversAccess t access p.newestFirst = false) :
    ∃ g d', g.creator = some t ∧ g.access = some access ∧
      s.decide k d p t (.sharedArray access) = .ok (some g, k.tell (.registered g), d') := by
  obtain ⟨l, d', hl, -⟩ := s.candidates_eq_ok hk d (some t)
  have hdecide : s.decide k d p t (.sharedArray access) = s.optional k d .sharedArray t (some access) := by
    unfold decide
    dsimp only
    rw [hbreak, h, ← unlessAtomic_of_outside hout]
    rfl
  rw [hdecide, optional_eq hk hl, if_pos hworth]
  exact ⟨_, d', rfl, rfl, rfl⟩

end Scheduler

namespace Path

variable {p : Path}

theorem Grown.unrepeated (hp : p.Grown) : Unrepeated p.newestFirst := by
  induction hp with
  | empty => trivial
  | push _ hg ih =>
    refine ⟨fun access haccess => ?_, ih⟩
    rw [hg] at haccess
    cases haccess
  | pushArray _ hg ih =>
    obtain ⟨hcreator, haccess, hfree⟩ := Scheduler.decide_sharedArray_eq_some hg
    refine ⟨fun access' haccess' => ?_, ih⟩
    rw [haccess] at haccess'
    cases haccess'
    exact ⟨_, hcreator, hfree⟩
  | @advance p g _ hg ih =>
    obtain ⟨rest, hrest⟩ := List.head?_eq_some_iff.mp hg
    rw [hrest] at ih
    have hsame : g.advance.2.creator = g.creator ∧ g.advance.2.access = g.access := by
      unfold Generator.advance
      split <;> exact ⟨rfl, rfl⟩
    unfold setTop
    rw [hrest]
    unfold Unrepeated
    rwa [hsame.1, hsame.2]
  | pop _ ih => exact ih.tail

end Path

namespace Scheduler

/-- Within a block of one thread and one array there is at most one decision for each direction, however the
path has come about. Outside of atomic sections, an access for which it is worth deciding goes without a decision
only if the block at the top of the path has one for it, and then it does. -/
theorem array_decided_once :
    (∀ p : Path, p.Grown → ∀ block, block <:+: p.newestFirst →
      ∀ creator array, (∀ g ∈ block, g.concerns creator array = true) →
        ∀ isRead, block.countP (·.access == some ⟨array, isRead⟩) ≤ 1) ∧
    ∀ (s : Scheduler) (k : Kernel) (d : Dice) (p : Path) (t : ThreadId) (access : ArrayAccess),
      k.threads.Numbered → k.isAtomicFor t = false → s.breaks.arrayAccess = true →
      s.worthDeciding k.threads.runnableCount = true →
        ((∃ after, s.decide k d p t (.sharedArray access) = .ok (none, after)) ↔
          ∃ g ∈ p.topBlock t access.array, g.access = some access) ∧
        ((∀ g ∈ p.topBlock t access.array, g.access ≠ some access) →
          ∃ g d', g.creator = some t ∧ g.access = some access ∧
            s.decide k d p t (.sharedArray access) = .ok (some g, k.tell (.registered g), d')) := by
  constructor
  · rintro p hp block ⟨newer, older, hpath⟩ creator array hblock isRead
    have hunrepeated := hp.unrepeated
    rw [← hpath, List.append_assoc] at hunrepeated
    exact hunrepeated.of_append.countP_le_one hblock isRead
  · intro s k d p t access hk hout hbreak hworth
    have htaken : coversAccess t access p.newestFirst = false → _ :=
      decide_of_not_covers (d := d) hk hout hbreak hworth
    constructor
    · rw [← coversAccess_iff]
      constructor
      · rintro ⟨after, hnone⟩
        by_contra hfree
        obtain ⟨g, d', -, -, hsome⟩ := htaken (Bool.eq_false_iff.mpr hfree)
        cases hnone.symm.trans hsome
      · intro hcovers
        exact ⟨(k, d), decide_of_covers hcovers⟩
    · intro hfree
      apply htaken
      rw [← Bool.not_eq_true, coversAccess_iff]
      rintro ⟨g, hg, haccess⟩
      exact hfree g hg haccess

def watchful : Scheduler := { breaks := { arrayAccess := true } }

def accessed (isRead : Bool) : Generator :=
  { kind := .sharedArray, choices := [0, 1], creator := some 0, access := some ⟨⟨5⟩, isRead⟩ }

def mixed : Path := ({} : Path).push (accessed true) |>.push (accessed false)

theorem mixed_grown : mixed.Grown := by
  have hdecided : ∀ p isRead,
      (watchful.decide paired reversing p 0 (.sharedArray ⟨⟨5⟩, isRead⟩)).toOption.map (·.1) =
          some (some (accessed isRead)) →
        p.Grown → (p.push (accessed isRead)).Grown := by
    intro p isRead hfst hp
    obtain ⟨⟨_, after⟩, hdecide, rfl⟩ := Option.map_eq_some_iff.mp hfst
    exact hp.pushArray (toOption_eq_some.mp hdecide)
  exact hdecided _ _ (by decide +kernel) (hdecided _ _ (by decide +kernel) .empty)

theorem array_decided_once_mixed :
    mixed.Grown ∧ mixed.newestFirst.countP (·.access == some ⟨⟨5⟩, true⟩) ≤ 1 ∧
      (∃ after, watchful.decide paired reversing mixed 0 (.sharedArray ⟨⟨5⟩, true⟩) = .ok (none, after)) ∧
      ∃ g after, watchful.decide paired reversing mixed 1 (.sharedArray ⟨⟨5⟩, true⟩) = .ok (some g, after) := by
  obtain ⟨honce, hdecides⟩ := array_decided_once
  have hfirst := hdecides watchful paired reversing mixed 0 ⟨⟨5⟩, true⟩ paired_built.listed.threads
    (by decide +kernel) rfl (by decide +kernel)
  have hsecond := hdecides watchful paired reversing mixed 1 ⟨⟨5⟩, true⟩ paired_built.listed.threads
    (by decide +kernel) rfl (by decide +kernel)
  refine ⟨mixed_grown, honce mixed mixed_grown _ (List.infix_refl _) (some 0) ⟨5⟩ (by decide) true,
    hfirst.1.mpr (by decide), ?_⟩
  obtain ⟨g, d', -, -, hg⟩ := hsecond.2 (by decide)
  exact ⟨g, _, hg⟩

end Scheduler

end Interleave
