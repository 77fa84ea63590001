import Interleave.Proofs.Search.Discovery
import Mathlib.Data.List.Dedup

/-!
Tables of fingerprints and tables of encodings. If no two of the encodings that a search comes to have the
same fingerprint, then both tables answer every question of the search alike. So the search goes through the
same steps with either of them.
-/

namespace Interleave

def Signature.WellFormed (sig : Signature) : Prop := sig.hash = Fingerprint.ofWords sig.words

namespace Matching

theorem ofName?_name (m : Matching) : ofName? m.name = some m := by
  cases m <;> decide

theorem same_eq (m : Matching) {a b : Signature} (ha : a.WellFormed) (hb : b.WellFormed)
    (h : Fingerprint.ofWords a.words = Fingerprint.ofWords b.words → a.words = b.words) :
    m.same a b = (a.words == b.words) := by
  cases m with
  | exact => rfl
  | hashed =>
    rw [Bool.eq_iff_iff, beq_iff_eq]
    unfold same
    rw [beq_iff_eq, ha, hb]
    exact ⟨h, congrArg Fingerprint.ofWords⟩

end Matching

namespace StateTable

def withMatching (t : StateTable) (m : Matching) : StateTable := { t with matching := m }

def Agrees (t : StateTable) (m : Matching) (sig : Signature) : Prop :=
  ∀ s ∈ t.states, m.same sig s = t.matching.same sig s

theorem visit_withMatching {t : StateTable} {m : Matching} {sig : Signature} (h : t.Agrees m sig) :
    (t.withMatching m).visit sig = ((t.visit sig).1, (t.visit sig).2.withMatching m) := by
  have hfind : (t.withMatching m).find? sig = t.find? sig := by
    ext i
    unfold find?
    unfold Agrees at h
    simp only [Array.findIdx?_eq_some_iff_getElem, withMatching, h, Array.getElem_mem]
  unfold visit
  rw [hfind]
  cases t.find? sig with
  | none => rfl
  | some id => rfl

end StateTable

def Config.withMatching (c : Config) (m : Matching) : Config := { c with search.stateTable := m.name }

def Explorer.withMatching (x : Explorer) (m : Matching) : Explorer :=
  { x with table := x.table.withMatching m, limits.stateTable := m.name }

def Search.withMatching (s : Search) (m : Matching) : Search :=
  { s with toExplorer := s.toExplorer.withMatching m }

def Progress.withMatching (m : Matching) : Progress → Progress
  | .running s => .running (s.withMatching m)
  | .finished s => .finished (s.withMatching m)
  | .failed e x => .failed e (x.withMatching m)

theorem Progress.result?_withMatching (m : Matching) (last : Progress) :
    (last.withMatching m).result? = last.result?.map fun r => (r.1, r.2.withMatching m) := by
  cases last <;> rfl

namespace Explorer

variable {x : Explorer} {m : Matching}

theorem collectGarbage_withMatching (x : Explorer) (m : Matching) :
    (x.withMatching m).collectGarbage = x.collectGarbage.map fun r => (r.1, r.2.withMatching m) := by
  unfold collectGarbage
  have hgc : (x.withMatching m).limits.gcAfterTransition = x.limits.gcAfterTransition := rfl
  rw [hgc]
  split
  · have hkernel : (x.withMatching m).kernel = x.kernel := rfl
    rw [hkernel]
    cases x.kernel.collect <;> rfl
  · rfl

theorem visitState_withMatching
    (h : ∀ sig serializer, x.serializer.signature x.kernel = .ok (sig, serializer) → x.table.Agrees m sig) :
    (x.withMatching m).visitState = x.visitState.map fun r => (r.1, r.2.1, r.2.2.withMatching m) := by
  refine bind_eq_map (congrFun Except.map_id _).symm ?_
  rintro ⟨sig, serializer⟩ hsig
  have hvisit : (x.withMatching m).table.visit sig = _ := StateTable.visit_withMatching (h sig serializer hsig)
  dsimp only [id]
  rw [hvisit]
  rfl

end Explorer

namespace Search

variable {s : Search} {p : Program} {m : Matching}

theorem recordTerminal_withMatching (s : Search) (sig : Signature) (m : Matching) :
    (s.withMatching m).recordTerminal sig = (s.recordTerminal sig).withMatching m := by
  unfold recordTerminal
  rw [apply_ite (withMatching · m)]
  rfl

theorem enterNewState_withMatching (s : Search) (p : Program) (sig : Signature) (next : Transition)
    (parentBlocked : Bool) (m : Matching) :
    (s.withMatching m).enterNewState p sig next parentBlocked =
      (s.enterNewState p sig next parentBlocked).withMatching m := by
  rw [enterNewState_eq, enterNewState_eq]
  have hkernel : (s.withMatching m).kernel = s.kernel := rfl
  rw [hkernel]
  cases p.check s.kernel with
  | some message => rfl
  | none =>
    cases next with
    | halt => exact recordTerminal_withMatching (s.counted parentBlocked) sig m
    | branch g =>
      dsimp only
      rw [apply_ite (withMatching · m)]
      rfl

theorem tryChoice_withMatching {node : Node} {g : Generator} {i : Nat} {c : ThreadId}
    (hi : g.cursor = some i)
    (h : ∀ st serializer sig, s.toExplorer.take p (s.resumed node g) g.reset i c = .ok (.ok st) →
      (s.serializer.prime (s.kernel.restore node.snapshot) node.signature).signature st.kernel =
        .ok (sig, serializer) → s.table.Agrees m sig) :
    (s.withMatching m).tryChoice p node g c = (s.tryChoice p node g c).map (.withMatching m) := by
  refine bind_eq_map (congrFun Except.map_id _).symm ?_
  rintro ⟨result, k, d⟩ hstep
  cases result with
  | error e => rfl
  | ok next =>
    -- the thread has run alike, and only the visit looks at the table
    have hcollect := Explorer.collectGarbage_withMatching { s.toExplorer with
      kernel := k, dice := d,
      serializer := s.serializer.prime (s.kernel.restore node.snapshot) node.signature } m
    refine bind_eq_map hcollect ?_
    rintro ⟨reclaimed, x⟩ hgc
    obtain ⟨htidy, hx⟩ := Explorer.collectGarbage_eq_ok hgc
    refine bind_eq_map (Explorer.visitState_withMatching ?_) ?_
    · intro sig serializer hsig
      rw [hx] at hsig ⊢
      exact h _ _ _ (take_resumed hi hstep htidy) hsig
    · rintro ⟨sig, visit, y⟩ -
      dsimp only
      split
      · change _ = Except.ok (Progress.running (withMatching (enterNewState _ _ _ _ _) m))
        rw [← enterNewState_withMatching]
        rfl
      · rfl

theorem step_withMatching
    (h : ∀ node g st serializer sig, s.Arrival p node g st serializer sig → s.table.Agrees m sig) :
    (s.withMatching m).step p = (s.step p).map (.withMatching m) := by
  unfold step
  have hframe : (s.withMatching m).nodes = s.nodes ∧ (s.withMatching m).path = s.path ∧
      (s.withMatching m).budgetExhausted = s.budgetExhausted := ⟨rfl, rfl, rfl⟩
  rw [hframe.1, hframe.2.1, hframe.2.2]
  split
  · next node rest g hnodes htop =>
    split
    · rfl
    · split
      · rfl
      · next c g' hadvance =>
        obtain ⟨hc, rfl⟩ := Generator.advance_eq_some hadvance
        refine tryChoice_withMatching rfl fun st serializer sig htake hsig => ?_
        exact h node g st serializer sig ⟨⟨rest, hnodes⟩, htop, ⟨c, hc, htake⟩, hsig⟩
  · rfl

theorem run_withMatching {fuel : Nat}
    (h : ∀ s', s.Steps p s' → ∀ node g st serializer sig, s'.Arrival p node g st serializer sig →
      s'.table.Agrees m sig) :
    (s.withMatching m).run p fuel = (s.run p fuel).map (Option.map (.withMatching m)) := by
  induction fuel generalizing s with
  | zero => rfl
  | succ fuel ih =>
    refine bind_eq_map (step_withMatching (h s .refl)) ?_
    intro r hstep
    cases r with
    | running s₁ => exact ih fun s' hs' => h s' (.head hstep hs')
    | finished s₁ => rfl
    | failed e x => rfl

end Search

namespace Explorer

variable {x : Explorer} {p : Program} {m : Matching}

theorem start_withMatching (htable : x.table.states = #[]) (p : Program) (m : Matching) :
    (x.withMatching m).start p = (x.start p).map (.withMatching m) := by
  refine bind_eq_map (congrFun Except.map_id _).symm ?_
  rintro ⟨result, k⟩ hinit
  cases result with
  | error e => rfl
  | ok _ =>
    refine bind_eq_map (collectGarbage_withMatching { x with kernel := k } m) ?_
    rintro ⟨reclaimed, x₁⟩ hgc
    obtain ⟨-, hx₁⟩ := collectGarbage_eq_ok hgc
    have hempty : x₁.table.states = #[] := by
      rw [hx₁]
      exact htable
    have hvisit := visitState_withMatching (x := { x₁ with kernel := x₁.kernel.snapshot.2 }) (m := m) <| by
      intro sig serializer _ s hs
      exact absurd (hempty ▸ hs) (Array.not_mem_empty s)
    refine bind_eq_map hvisit ?_
    rintro ⟨sig, visit, x₂⟩ -
    refine bind_eq_map (congrFun Except.map_id _).symm ?_
    rintro ⟨g?, k', d⟩ -
    cases g? with
    | some g => rfl
    | none =>
      change _ = Except.ok (Progress.finished (Search.withMatching (Search.recordTerminal _ _) m))
      rw [← Search.recordTerminal_withMatching]
      rfl

theorem explore_withMatching (htable : x.table.states = #[]) {fuel : Nat}
    (h : ∀ s, x.Searches p s → ∀ node g st serializer sig, s.Arrival p node g st serializer sig →
      s.table.Agrees m sig) :
    (x.withMatching m).explore p fuel =
      (x.explore p fuel).map (Option.map fun r => (r.1, r.2.withMatching m)) := by
  rw [explore_eq, explore_eq]
  refine bind_eq_map (start_withMatching htable p m) ?_
  intro first hstart
  cases first with
  | failed e y => rfl
  | finished s => rfl
  | running s =>
    refine bind_eq_map (Search.run_withMatching fun s' hs' => h s' ⟨s, hstart, hs'⟩) ?_
    intro last? _
    cases last? with
    | none => rfl
    | some last => exact congrArg Except.ok (last.result?_withMatching m)

inductive Meets (x : Explorer) (p : Program) : Signature → Prop where
  | initial {k : Kernel} {serializer : Serializer} {sig : Signature}
    (hinit : x.initialKernel p = .ok (.ok k))
    (hsig : x.serializer.signature k.snapshot.2 = .ok (sig, serializer)) : Meets x p sig
  | arrival {s : Search} {node : Node} {g : Generator} {st : Standing} {serializer : Serializer}
    {sig : Signature} (hs : x.Searches p s) (h : s.Arrival p node g st serializer sig) : Meets x p sig

/-- Different encodings that the search comes to have different fingerprints. -/
def CollisionFree (x : Explorer) (p : Program) : Prop :=
  ∀ sig₁ sig₂, x.Meets p sig₁ → x.Meets p sig₂ →
    Fingerprint.ofWords sig₁.words = Fingerprint.ofWords sig₂.words → sig₁.words = sig₂.words

end Explorer

theorem Kernel.wellFormed_signature {k : Kernel} {sig : Signature} (h : k.signature = .ok sig) :
    sig.WellFormed := by
  obtain ⟨w, -, rfl⟩ := signature_eq_ok.mp h
  rfl

theorem Search.Arrival.wellFormed {s : Search} {p : Program} {node : Node} {g : Generator} {st : Standing}
    {serializer : Serializer} {sig : Signature} (h : s.Arrival p node g st serializer sig)
    (hnodes : ∀ node ∈ s.nodes, node.signature.WellFormed) : sig.WellFormed := by
  obtain ⟨rest, hnewest⟩ := h.newest
  rcases Serializer.signature_eq_ok h.signature with hsig | ⟨hcached, -⟩
  · exact Kernel.wellFormed_signature hsig
  · obtain rfl := Option.some.inj hcached
    exact hnodes node (hnewest ▸ List.mem_cons_self)

namespace Explorer

variable {x : Explorer} {p : Program} {s : Search} {sig : Signature} {k : Kernel}

theorem wellFormed_initial {serializer : Serializer} (hserializer : x.serializer = {})
    (hsig : x.serializer.signature k = .ok (sig, serializer)) : sig.WellFormed := by
  rcases Serializer.signature_eq_ok hsig with hsig | ⟨hcached, -⟩
  · exact Kernel.wellFormed_signature hsig
  · rw [hserializer] at hcached
    cases hcached

theorem Searches.wellFormed (hserializer : x.serializer = {}) (hs : x.Searches p s) :
    ∀ node ∈ s.nodes, node.signature.WellFormed := by
  refine hs.induction (fun s hstart => ?_) (fun s s' hidles ih => ?_) (fun s s' sig _ hdiscovers ih => ?_)
  · obtain ⟨k, k', d, g, serializer, sig, reclaimed, -, hsig, -, rfl⟩ := start_eq_running hstart
    intro node hnode
    obtain rfl := List.mem_singleton.mp hnode
    exact wellFormed_initial hserializer hsig
  · exact fun node hnode => ih node (hidles.nodes node hnode)
  · intro node hnode
    rcases hdiscovers.nodes node hnode with hnode | rfl
    · exact ih node hnode
    · obtain ⟨_, _, _, _, harrival⟩ := hdiscovers.arrival
      exact harrival.wellFormed ih

theorem Meets.wellFormed (hserializer : x.serializer = {}) (h : x.Meets p sig) : sig.WellFormed := by
  cases h with
  | initial _ hsig => exact wellFormed_initial hserializer hsig
  | arrival hs harrival => exact harrival.wellFormed (hs.wellFormed hserializer)

theorem Searches.meets {m : Matching} (htable : x.table = { matching := m }) (hs : x.Searches p s) :
    s.table.matching = m ∧ ∀ sig ∈ s.table.states, x.Meets p sig := by
  refine hs.induction (fun s hstart => ?_) (fun s s' hidles ih => ?_) (fun s s' sig hs hdiscovers ih => ?_)
  · obtain ⟨k, k', d, g, serializer, first, reclaimed, hinit, hsig, -, rfl⟩ := start_eq_running hstart
    have hopened : ((x.opened k k' d serializer first reclaimed).pushGenerator g first).table =
        { matching := m, states := #[first] } := states_opened k k' d serializer reclaimed htable
    rw [hopened]
    refine ⟨rfl, fun sig hmem => ?_⟩
    obtain rfl : sig = first := by simpa using hmem
    exact .initial hinit hsig
  · rw [hidles.table]
    exact ih
  · rw [hdiscovers.table]
    refine ⟨ih.1, fun sig' hmem => ?_⟩
    rcases Array.mem_push.mp hmem with hmem | rfl
    · exact ih.2 sig' hmem
    · obtain ⟨_, _, _, _, harrival⟩ := hdiscovers.arrival
      exact .arrival hs harrival

/-- If no two of the encodings that a search comes to have the same fingerprint, then a new explorer that
differs in nothing but its table returns the same result, the counts included. -/
theorem explore_eq_of_collisionFree {k : Kernel} {c : Config} {r : Shuffler} {m m' : Matching} {x : Explorer}
    {p : Program} (hx : withKernel k (c.withMatching m) r = .ok x) (hfree : x.CollisionFree p) :
    ∃ y, withKernel k (c.withMatching m') r = .ok y ∧ ∀ fuel,
      y.explore p fuel = (x.explore p fuel).map (Option.map fun r => (r.1, r.2.withMatching m')) := by
  obtain ⟨kernel, scheduler, matching, hattach, hscheduler, hname, rfl⟩ := withKernel_cases hx
  obtain rfl : m = matching := Option.some.inj (m.ofName?_name.symm.trans hname)
  refine ⟨withMatching _ m', ?_, fun fuel => explore_withMatching rfl ?_⟩
  · have hscheduler' : Scheduler.ofConfig (c.withMatching m') = .ok scheduler := hscheduler
    have hname' : Matching.ofName? (c.withMatching m').search.stateTable = some m' := m'.ofName?_name
    unfold withKernel
    simp only [hattach, hscheduler', hname']
    rfl
  · -- the search has come to all that is in the table, so none of it collides with `sig`
    intro s hs node g st serializer sig harrival s' hs'
    obtain ⟨hmatching, hmeets⟩ := hs.meets rfl
    have hsig := Meets.arrival hs harrival
    have hs' := hmeets s' hs'
    have hword := hfree sig s' hsig hs'
    rw [hmatching, m.same_eq (hsig.wellFormed rfl) (hs'.wellFormed rfl) hword,
      m'.same_eq (hsig.wellFormed rfl) (hs'.wellFormed rfl) hword]

end Explorer

def Search.ahead? (p : Program) (s : Search) : Option Signature := do
  let node ← s.nodes.head?
  let g ← s.path.top?
  let c ← g.choices[g.processed]?
  let st := s.resumed node { g with cursor := some g.processed }
  let st' ← (← (s.toExplorer.take p st g.reset g.processed c).toOption).toOption
  let serializer := s.serializer.prime (s.kernel.restore node.snapshot) node.signature
  let (sig, _) ← (serializer.signature st'.kernel).toOption
  return sig

namespace Explorer

def origin? (x : Explorer) (p : Program) : Option Signature := do
  let k ← (← (x.initialKernel p).toOption).toOption
  let (sig, _) ← (x.serializer.signature k.snapshot.2).toOption
  return sig

def signatures? (x : Explorer) (p : Program) (n : Nat) : Option (List Signature) := do
  let searched ← closure? (Search.following p) n (x.first p)
  return (x.origin? p).toList ++ searched.filterMap (Search.ahead? p)

variable {x : Explorer} {p : Program} {sig : Signature} {n : Nat}

theorem Meets.mem_signatures {l : List Signature} (hl : x.signatures? p n = some l) (h : x.Meets p sig) :
    sig ∈ l := by
  obtain ⟨searched, hsearched, hl⟩ := Option.bind_eq_some_iff.mp hl
  cases hl
  cases h with
  | initial hinit hsig =>
    refine List.mem_append_left _ (Option.mem_toList.mpr ?_)
    unfold origin?
    simp [hinit, hsig, Except.toOption]
  | @arrival s _ _ _ _ _ hs harrival =>
    obtain ⟨rest, hnodes⟩ := harrival.newest
    obtain ⟨c, hc, htake⟩ := harrival.take
    refine List.mem_append_right _ (List.mem_filterMap.mpr ⟨s, hs.mem_closure hsearched, ?_⟩)
    unfold Search.ahead?
    rw [hnodes, harrival.top]
    simp [hc, htake, harrival.signature, Except.toOption]

theorem collisionFree_of_signatures
    (h : ∃ l ∈ x.signatures? p n, ((l.map (·.words)).dedup.map Fingerprint.ofWords).Nodup) :
    x.CollisionFree p := by
  obtain ⟨l, hl, hnodup⟩ := h
  have hmem : ∀ sig, x.Meets p sig → sig.words ∈ (l.map (·.words)).dedup := fun sig hsig =>
    List.mem_dedup.mpr (List.mem_map_of_mem (hsig.mem_signatures hl))
  intro sig₁ sig₂ h₁ h₂ heq
  exact List.inj_on_of_nodup_map hnodup (hmem sig₁ h₁) (hmem sig₂ h₂) heq

def insistent : Script where
  fields := ["x"]
  threads := #[{ code := #[.store "x" 1, .jump 0] }, { code := #[.store "x" 1, .jump 0] }]

theorem explored_insistent : ∃ r ∈ explored? (exactConfig.withMatching .exact) insistent.program 30,
    r.2.1.stats.revisited = 3 ∧ r.2.2.table.size = 2 ∧
    ∃ l ∈ r.1.signatures? insistent.program 30,
      ((l.map (·.words)).dedup.map Fingerprint.ofWords).Nodup := by
  decide +kernel

theorem explore_eq_of_collisionFree_insistent : ∃ x o x',
    withKernel (.ofConfig exactConfig) (exactConfig.withMatching .exact) = .ok x ∧
    x.CollisionFree insistent.program ∧ x.explore insistent.program 30 = .ok (some (.ok o, x')) ∧
    o.stats.revisited = 3 ∧
    ∃ y, withKernel (.ofConfig exactConfig) (exactConfig.withMatching .hashed) = .ok y ∧
      y.explore insistent.program 30 = .ok (some (.ok o, x'.withMatching .hashed)) := by
  obtain ⟨⟨x, o, x'⟩, hr, hrevisited, -, hsignatures⟩ := explored_insistent
  obtain ⟨hx, hrun⟩ := explored?_eq_some hr
  have hfree := collisionFree_of_signatures hsignatures
  obtain ⟨y, hy, heq⟩ : ∃ y, withKernel (.ofConfig exactConfig) (exactConfig.withMatching .hashed) = .ok y ∧
    _ := explore_eq_of_collisionFree hx hfree
  refine ⟨x, o, x', hx, hfree, hrun, hrevisited, y, hy, ?_⟩
  rw [heq, hrun]
  rfl

end Explorer

end Interleave
