import Interleave.Proofs.Encoding.Tracking
import Interleave.Proofs.Search.Run

/-!
The executions of a program and the transitions that a search takes among them, and what it means that the
behaviour of a program shows in the encodings of its states. All transitions of a short search can be
listed, so there this can be checked by running the program.
-/

namespace Interleave

def Transition.Alike : Transition → Transition → Prop
  | .halt, .halt => True
  | .branch g₁, .branch g₂ => g₁.cursor = none ∧ g₂.cursor = none ∧ g₁.choices = g₂.choices ∧
    g₁.creator = g₂.creator ∧ g₁.schedules = g₂.schedules
  | _, _ => False

def Transition.choices : Transition → List ThreadId
  | .halt => []
  | .branch g => g.choices

def Standing.SameEncoding (st₁ st₂ : Standing) : Prop :=
  ∃ w, st₁.kernel.encode = .ok w ∧ st₂.kernel.encode = .ok w

/-- Every change that a transition makes to the state shows in the epochs, as it does if the program goes
by the operations of the kernel. -/
def Program.IsTracked (p : Program) : Prop :=
  ∀ cx t k d r k' d', p.step cx t k d = .ok (r, k', d') → k.Tracks k'

def Program.Passes (p : Program) (st : Standing) : Prop :=
  st.path.isEmpty = true ∨ p.check st.kernel = none

namespace Explorer

variable (x : Explorer) (p : Program) (k₀ : Kernel)

/-- The kernel holds the initial state, whatever has become of the registry, the id pool and the epochs. -/
def HoldsInitial : Prop := ∃ k, x.initialKernel p = .ok (.ok k) ∧ k₀.snapshot.1 = k.snapshot.1

inductive Reachable : Standing → Prop where
  | initial {st : Standing} (h : x.begin k₀ = .ok st) : Reachable st
  | step {st st' : Standing} {i : Nat} (h : Reachable st) (hst : p.Passes st)
    (htakes : x.Takes p st i st') : Reachable st'

def Searches (s : Search) : Prop := ∃ s₀, x.start p = .ok (.running s₀) ∧ s₀.Steps p s

def Tries (st : Standing) (i : Nat) (st' : Standing) : Prop :=
  ∃ s node g st'' serializer sig, x.Searches p s ∧ s.Arrival p node g st'' serializer sig ∧
    i = g.processed ∧ st = s.resumed node { g with cursor := some i } ∧
    st' = s.announced { g with cursor := some i } st'' sig

def BeginsWith (st : Standing) : Prop :=
  ∃ k, x.initialKernel p = .ok (.ok k) ∧ x.begin k.snapshot.2 = .ok st

def Reaches (st : Standing) : Prop :=
  x.Reachable p k₀ st ∨ x.BeginsWith p st ∨ ∃ i st', x.Tries p st i st' ∨ x.Tries p st' i st

def Moves (st : Standing) (i : Nat) (st' : Standing) : Prop :=
  (x.Reachable p k₀ st ∧ p.Passes st ∧ x.Takes p st i st') ∨ x.Tries p st i st'

/-- What the program does in a state that is reached shows in the encoding of the state. -/
structure DependsOnEncoding : Prop where
  check : ∀ st₁ st₂, x.Reaches p k₀ st₁ → x.Reaches p k₀ st₂ → st₁.SameEncoding st₂ →
    p.check st₁.kernel = p.check st₂.kernel
  next : ∀ st₁ st₂, x.Reaches p k₀ st₁ → x.Reaches p k₀ st₂ → st₁.SameEncoding st₂ →
    st₁.next.Alike st₂.next
  successors : ∀ st₁ st₂ i st₁' st₂', x.Moves p k₀ st₁ i st₁' → x.Moves p k₀ st₂ i st₂' →
    st₁.SameEncoding st₂ → st₁'.kernel.encode = st₂'.kernel.encode

/-- Executions from `k₀` can begin, and none of their transitions fails. -/
structure NeverFails : Prop where
  begins : ∃ st, x.begin k₀ = .ok st
  goesOn : ∀ st g i, x.Reachable p k₀ st → p.Passes st → st.next = .branch g → i < g.choices.length →
    ∃ st', x.Takes p st i st'

theorem holdsInitial_explore {x y : Explorer} {p : Program} {fuel : Nat} {o : SearchOutcome}
    (h : x.explore p fuel = .ok (some (.ok o, y))) : x.HoldsInitial p y.kernel := by
  obtain ⟨s, hend, rfl, rfl⟩ := explore_eq_ok h
  rcases hend with hstart | ⟨s₀, s₁, hstart, hsteps, hlast⟩
  · obtain ⟨k, k', d, serializer, sig, reclaimed, hinit, -, -, rfl⟩ := start_eq_finished hstart
    obtain ⟨endStates, deadlocks, heq⟩ := (x.opened k k' d serializer sig reclaimed).recordTerminal_eq sig
    rw [heq]
    exact ⟨k, hinit, rfl⟩
  · obtain ⟨k, k', d, g, serializer, sig, reclaimed, hinit, -, -, rfl⟩ := start_eq_running hstart
    exact ⟨k, hinit, (Search.initial_of_finished hlast).trans (Search.initial_of_steps hsteps)⟩

def first (x : Explorer) (p : Program) : List Search :=
  match x.start p with
  | .ok (.running s) => [s]
  | _ => []

def taken (x : Explorer) (p : Program) (st : Standing) : List (Nat × Standing) :=
  match st.next with
  | .halt => []
  | .branch g => g.choices.zipIdx.filterMap fun (c, i) =>
    match x.take p st g i c with
    | .ok (.ok st') => some (i, st')
    | _ => none

end Explorer

namespace Search

def following (p : Program) (s : Search) : List Search :=
  match s.step p with
  | .ok (.running s') => [s']
  | _ => []

def attempted? (p : Program) (s : Search) : Option (Standing × Nat × Standing) := do
  let node ← s.nodes.head?
  let g ← s.path.top?
  let c ← g.choices[g.processed]?
  let st := s.resumed node { g with cursor := some g.processed }
  let st' ← (← (s.toExplorer.take p st g.reset g.processed c).toOption).toOption
  let serializer := s.serializer.prime (s.kernel.restore node.snapshot) node.signature
  let (sig, _) ← (serializer.signature st'.kernel).toOption
  return (st, g.processed, s.announced { g with cursor := some g.processed } st' sig)

end Search

def closure? {α : Type} (next : α → List α) : Nat → List α → Option (List α)
  | _, [] => some []
  | 0, _ => none
  | n + 1, l => (closure? next n (l.flatMap next)).map (l ++ ·)

theorem closed_of_closure? {α : Type} {next : α → List α} {n : Nat} {l l' : List α}
    (h : closure? next n l = some l') :
    (∀ a ∈ l, a ∈ l') ∧ ∀ a ∈ l', ∀ b ∈ next a, b ∈ l' := by
  fun_induction closure? next n l generalizing l' with
  | case1 n =>
    cases h
    exact ⟨fun _ => id, nofun⟩
  | case2 l hl => cases h
  | case3 n l hl ih =>
    obtain ⟨rest, hrest, rfl⟩ := Option.map_eq_some_iff.mp h
    obtain ⟨hsub, hclosed⟩ := ih hrest
    refine ⟨fun a ha => List.mem_append_left _ ha, ?_⟩
    intro a ha b hb
    apply List.mem_append_right
    rcases List.mem_append.mp ha with ha | ha
    · exact hsub b (List.mem_flatMap.mpr ⟨a, ha, hb⟩)
    · exact hclosed a ha b hb

theorem closure?_induction {α : Type} {next : α → List α} {n : Nat} {l l' : List α} {P : α → Prop}
    (h : closure? next n l = some l') (hl : ∀ a ∈ l, P a) (hnext : ∀ a, P a → ∀ b ∈ next a, P b) :
    ∀ a ∈ l', P a := by
  fun_induction closure? next n l generalizing l' with
  | case1 n =>
    cases h
    exact nofun
  | case2 l hl => cases h
  | case3 n l _ ih =>
    obtain ⟨rest, hrest, rfl⟩ := Option.map_eq_some_iff.mp h
    intro a ha
    rcases List.mem_append.mp ha with ha | ha
    · exact hl a ha
    · refine ih hrest (fun b hb => ?_) a ha
      obtain ⟨c, hc, hb⟩ := List.mem_flatMap.mp hb
      exact hnext c (hl c hc) b hb

instance {st₁ st₂ : Standing} : Decidable (st₁.SameEncoding st₂) :=
  decidable_of_iff (st₁.kernel.encode.toOption.isSome ∧
      st₁.kernel.encode.toOption = st₂.kernel.encode.toOption) <| by
    unfold Standing.SameEncoding
    constructor
    · intro ⟨hsome, heq⟩
      obtain ⟨w, hw⟩ := Option.isSome_iff_exists.mp hsome
      exact ⟨w, toOption_eq_some.mp hw, toOption_eq_some.mp (heq ▸ hw)⟩
    · intro ⟨w, hw₁, hw₂⟩
      rw [hw₁, hw₂]
      exact ⟨rfl, rfl⟩

instance : {next₁ next₂ : Transition} → Decidable (next₁.Alike next₂)
  | .halt, .halt => .isTrue trivial
  | .branch _, .branch _ => inferInstanceAs (Decidable (_ ∧ _))
  | .halt, .branch _ => .isFalse id
  | .branch _, .halt => .isFalse id

instance {p : Program} {st : Standing} : Decidable (p.Passes st) := inferInstanceAs (Decidable (_ ∨ _))

structure Listing where
  standings : List Standing
  moves : List (Standing × Nat × Standing)

def Listing.Consistent (l : Listing) (p : Program) : Prop :=
  (∀ st₁ ∈ l.standings, ∀ st₂ ∈ l.standings,
    p.check st₁.kernel = p.check st₂.kernel ∧ st₁.next.Alike st₂.next ∨ ¬ st₁.SameEncoding st₂) ∧
  ∀ m₁ ∈ l.moves, ∀ m₂ ∈ l.moves, m₁.2.1 = m₂.2.1 → m₁.1.SameEncoding m₂.1 →
    m₁.2.2.kernel.encode = m₂.2.2.kernel.encode

instance {l : Listing} {p : Program} : Decidable (l.Consistent p) := inferInstanceAs (Decidable (_ ∧ _))

namespace Explorer

def executions? (x : Explorer) (p : Program) (k₀ : Kernel) (n : Nat) : Option (List Standing) :=
  closure? (fun st => if p.Passes st then (x.taken p st).map (·.2) else []) n (x.begin k₀).toOption.toList

def beginning (x : Explorer) (p : Program) : List Standing :=
  match x.initialKernel p with
  | .ok (.ok k) => (x.begin k.snapshot.2).toOption.toList
  | _ => []

def listing? (x : Explorer) (p : Program) (k₀ : Kernel) (n : Nat) : Option Listing := do
  let reachable ← x.executions? p k₀ n
  let searched ← closure? (Search.following p) n (x.first p)
  let tried := searched.filterMap (Search.attempted? p)
  let moves := (reachable.filter (p.Passes ·)).flatMap fun st => (x.taken p st).map fun m => (st, m.1, m.2)
  return ⟨reachable ++ x.beginning p ++ tried.flatMap fun m => [m.1, m.2.2], moves ++ tried⟩

variable {x : Explorer} {p : Program} {k₀ : Kernel} {st st' : Standing} {n i : Nat}

theorem mem_taken_iff : (i, st') ∈ x.taken p st ↔ x.Takes p st i st' := by
  unfold taken Takes
  cases st.next with
  | halt => simp
  | branch g =>
    simp only [List.mem_filterMap, Prod.exists, List.mk_mem_zipIdx_iff_getElem?, Transition.branch.injEq]
    constructor
    · intro ⟨c, j, hc, h⟩
      split at h
      · next htake =>
        cases h
        exact ⟨g, c, rfl, hc, htake⟩
      · cases h
    · intro ⟨g', c, hg, hc, htake⟩
      cases hg
      exact ⟨c, i, hc, by rw [htake]⟩

theorem Reachable.mem_executions {l : List Standing} (hl : x.executions? p k₀ n = some l)
    (h : x.Reachable p k₀ st) : st ∈ l := by
  obtain ⟨hsub, hclosed⟩ := closed_of_closure? hl
  induction h with
  | initial h =>
    apply hsub
    rw [h]
    exact List.mem_singleton_self _
  | step _ hpasses htakes ih =>
    apply hclosed _ ih
    rw [if_pos hpasses]
    exact List.mem_map_of_mem (f := (·.2)) (mem_taken_iff.mpr htakes)

theorem reachable_of_mem_executions {l : List Standing} (hl : x.executions? p k₀ n = some l) (h : st ∈ l) :
    x.Reachable p k₀ st := by
  refine closure?_induction hl (fun st hst => ?_) (fun st hst st' hst' => ?_) st h
  · rw [Option.mem_toList] at hst
    exact .initial (toOption_eq_some.mp hst)
  · split at hst'
    · next hpasses =>
      obtain ⟨⟨i, st''⟩, hmem, rfl⟩ := List.mem_map.mp hst'
      exact hst.step hpasses (mem_taken_iff.mp hmem)
    · cases hst'

theorem Searches.mem_closure {s : Search} {l : List Search}
    (hl : closure? (Search.following p) n (x.first p) = some l) (h : x.Searches p s) : s ∈ l := by
  obtain ⟨hsub, hclosed⟩ := closed_of_closure? hl
  obtain ⟨s₀, hstart, hsteps⟩ := h
  induction hsteps with
  | refl =>
    apply hsub
    unfold first
    rw [hstart]
    exact List.mem_singleton_self _
  | tail _ hstep ih =>
    apply hclosed _ ih
    unfold Search.following
    rw [hstep]
    exact List.mem_singleton_self _

theorem Tries.mem_filterMap {l : List Search}
    (hl : closure? (Search.following p) n (x.first p) = some l) (h : x.Tries p st i st') :
    (st, i, st') ∈ l.filterMap (Search.attempted? p) := by
  obtain ⟨s, node, g, st'', serializer, sig, hs, harrival, rfl, rfl, rfl⟩ := h
  obtain ⟨rest, hnodes⟩ := harrival.newest
  obtain ⟨c, hc, htake⟩ := harrival.take
  -- an arrival is all that `attempted?` looks for
  refine List.mem_filterMap.mpr ⟨s, hs.mem_closure hl, ?_⟩
  unfold Search.attempted?
  rw [hnodes, harrival.top]
  simp [hc, htake, harrival.signature, Except.toOption]

theorem dependsOnEncoding_of_listing (h : ∃ l ∈ x.listing? p k₀ n, l.Consistent p) :
    x.DependsOnEncoding p k₀ := by
  obtain ⟨l, hl, hstandings, hmoves⟩ := h
  obtain ⟨reachable, hreachable, hl⟩ := Option.bind_eq_some_iff.mp hl
  obtain ⟨searched, hsearched, hl⟩ := Option.bind_eq_some_iff.mp hl
  cases hl
  -- everything that is reached is listed, and so is every transition
  have hreaches : ∀ {st}, x.Reaches p k₀ st → st ∈ reachable ++ x.beginning p ++
      (searched.filterMap (Search.attempted? p)).flatMap fun m => [m.1, m.2.2] := by
    intro st hst
    rw [List.mem_append, List.mem_append]
    rcases hst with hst | ⟨k, hk, hst⟩ | ⟨i, st', hst | hst⟩
    · exact .inl (.inl (hst.mem_executions hreachable))
    · refine .inl (.inr ?_)
      unfold beginning
      rw [hk]
      dsimp only
      rw [hst]
      exact List.mem_singleton_self _
    · exact .inr (List.mem_flatMap.mpr ⟨_, hst.mem_filterMap hsearched, by simp⟩)
    · exact .inr (List.mem_flatMap.mpr ⟨_, hst.mem_filterMap hsearched, by simp⟩)
  have hmove : ∀ {st i st'}, x.Moves p k₀ st i st' → (st, i, st') ∈
      ((reachable.filter (p.Passes ·)).flatMap fun st => (x.taken p st).map fun m => (st, m.1, m.2)) ++
        searched.filterMap (Search.attempted? p) := by
    intro st i st' hmove
    rw [List.mem_append]
    rcases hmove with ⟨hst, hpasses, htakes⟩ | hmove
    · refine .inl (List.mem_flatMap.mpr ⟨st, ?_, ?_⟩)
      · exact List.mem_filter.mpr ⟨hst.mem_executions hreachable, by simpa using hpasses⟩
      · exact List.mem_map.mpr ⟨(i, st'), mem_taken_iff.mpr htakes, rfl⟩
    · exact .inr (hmove.mem_filterMap hsearched)
  constructor
  · intro st₁ st₂ h₁ h₂ hsame
    exact ((hstandings st₁ (hreaches h₁) st₂ (hreaches h₂)).resolve_right (· hsame)).1
  · intro st₁ st₂ h₁ h₂ hsame
    exact ((hstandings st₁ (hreaches h₁) st₂ (hreaches h₂)).resolve_right (· hsame)).2
  · intro st₁ st₂ i st₁' st₂' h₁ h₂ hsame
    exact hmoves _ (hmove h₁) _ (hmove h₂) rfl hsame

theorem neverFails_of_executions (h : ∃ l ∈ x.executions? p k₀ n, l ≠ [] ∧ ∀ st ∈ l, p.Passes st →
    ∀ i < st.next.choices.length, ∃ m ∈ x.taken p st, m.1 = i) : x.NeverFails p k₀ := by
  obtain ⟨l, hl, hne, hgoesOn⟩ := h
  constructor
  · cases hbegin : x.begin k₀ with
    | ok st => exact ⟨st, rfl⟩
    | error e =>
      -- then there would be no executions at all
      have hnil : x.executions? p k₀ n = some [] := by
        unfold executions?
        rw [hbegin]
        simp [closure?, Except.toOption]
      exact absurd (Option.some.inj (hl.symm.trans hnil)) hne
  · intro st g i hst hpasses hnext hi
    have hi' : i < st.next.choices.length := by
      rw [hnext]
      exact hi
    obtain ⟨⟨_, st'⟩, hmem, rfl⟩ := hgoesOn st (hst.mem_executions hl) hpasses i hi'
    exact ⟨st', mem_taken_iff.mp hmem⟩

end Explorer

end Interleave
