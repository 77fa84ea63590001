import Interleave.Proofs.Script.Tracking

/-!
Depth-first search is complete. If what a program does shows in the encodings of its states, then a search
that ends without having been cut off has found the encoding of every reachable state, however many ways
lead to a state and whatever cycles there are.
-/

namespace Interleave

theorem Kernel.signature_eq_ok {k : Kernel} {sig : Signature} :
    k.signature = .ok sig ↔ ∃ w, k.encode = .ok w ∧ sig = .ofWords w := by
  unfold signature
  rw [bind_eq_ok]
  constructor
  · intro ⟨w, hw, h⟩
    cases h
    exact ⟨w, hw, rfl⟩
  · intro ⟨w, hw, h⟩
    exact ⟨w, hw, by rw [h]; rfl⟩

namespace StateTable

variable {t : StateTable} {sig : Signature}

theorem visit_of_new (h : (t.visit sig).1.isNew = true) :
    t.contains sig = false ∧ (t.visit sig).2 = { t with states := t.states.push sig } := by
  unfold visit at h ⊢
  unfold contains
  split at h
  · cases h
  · next hnone => simp [hnone]

theorem visit_of_seen (h : (t.visit sig).1.isNew = false) :
    t.contains sig = true ∧ (t.visit sig).2 = t := by
  unfold visit at h ⊢
  unfold contains
  split at h
  · next hsome => simp [hsome]
  · cases h

theorem contains_iff : t.contains sig = true ↔ ∃ s ∈ t.states, t.matching.same sig s = true := by
  unfold contains find?
  rw [Array.findIdx?_isSome, Array.any_eq_true']

theorem contains_iff_of_exact (hexact : t.matching = .exact) :
    t.contains sig = true ↔ ∃ s ∈ t.states, s.words = sig.words := by
  rw [contains_iff, hexact]
  simp only [Matching.same, beq_iff_eq]
  exact exists_congr fun s => and_congr_right fun _ => eq_comm

theorem contains_of_mem (h : sig ∈ t.states) : t.contains sig = true := by
  refine contains_iff.mpr ⟨sig, h, ?_⟩
  cases t.matching with
  | hashed => exact beq_self_eq_true sig.hash
  | exact => exact beq_self_eq_true sig.words

end StateTable

namespace Explorer

variable (x : Explorer) (p : Program) (k₀ : Kernel)

def Covered (table : StateTable) (sig : Signature) (i : Nat) : Prop :=
  ∃ st st' sig', x.Tries p st i st' ∧ st.kernel.signature = .ok sig ∧
    st'.kernel.signature = .ok sig' ∧ table.contains sig' = true

def Settled (table : StateTable) (first sig : Signature) : Prop :=
  ∃ st, x.Reaches p k₀ st ∧ st.kernel.signature = .ok sig ∧
    (sig ≠ first ∧ p.check st.kernel ≠ none ∨ st.next = .halt ∨
      ∃ g, st.next = .branch g ∧ ∀ i < g.choices.length, x.Covered p table sig i)

structure Pending (table : StateTable) (first : Signature) (node : Node) (g : Generator)
    (st : Standing) : Prop where
  reaches : x.Reaches p k₀ st
  signature : st.kernel.signature = .ok node.signature
  snapshot : st.kernel.snapshot.1 = node.snapshot
  next : st.next = .branch g.reset
  passes : node.signature = first ∨ p.check st.kernel = none
  covered : ∀ i < g.processed, x.Covered p table node.signature i
  origin : x.NeverFails p k₀ →
    ∃ st', x.Reachable p k₀ st' ∧ p.Passes st' ∧ st'.kernel.signature = .ok node.signature

structure Invariant (first : Signature) (s : Search) : Prop where
  searches : x.Searches p s
  scheduler : s.scheduler = x.scheduler
  limits : s.limits = x.limits
  exact : s.table.matching = .exact
  hasFirst : first ∈ s.table.states
  stack : List.Forall₂ (fun node g => ∃ st, x.Pending p k₀ s.table first node g st) s.nodes
    s.path.newestFirst
  settled : s.outcome.stats.depthLimited = 0 → ∀ sig ∈ s.table.states,
    x.Settled p k₀ s.table first sig ∨ ∃ node ∈ s.nodes, node.signature = sig
  found : x.NeverFails p k₀ → ∀ sig ∈ s.table.states,
    ∃ st, x.Reachable p k₀ st ∧ st.kernel.signature = .ok sig

end Explorer

section

variable {x : Explorer} {p : Program} {k₀ : Kernel} {t t' : StateTable} {first sig : Signature}

theorem Kernel.encode_of_signature {k : Kernel} (h : k.signature = .ok sig) :
    k.encode = .ok sig.words := by
  obtain ⟨w, hw, rfl⟩ := signature_eq_ok.mp h
  exact hw

theorem Kernel.signature_congr {k k' : Kernel} (h : k.encode = k'.encode) :
    k.signature = k'.signature := by
  unfold signature
  rw [h]

theorem Standing.sameEncoding {st₁ st₂ : Standing} (h₁ : st₁.kernel.signature = .ok sig)
    (h₂ : st₂.kernel.signature = .ok sig) : st₁.SameEncoding st₂ :=
  ⟨sig.words, Kernel.encode_of_signature h₁, Kernel.encode_of_signature h₂⟩

theorem Explorer.Covered.mono {i : Nat} (h : x.Covered p t sig i)
    (ht : ∀ sig, t.contains sig = true → t'.contains sig = true) : x.Covered p t' sig i := by
  obtain ⟨st, st', sig', htries, hst, hst', hsig'⟩ := h
  exact ⟨st, st', sig', htries, hst, hst', ht sig' hsig'⟩

theorem Explorer.Settled.mono (h : x.Settled p k₀ t first sig)
    (ht : ∀ sig, t.contains sig = true → t'.contains sig = true) : x.Settled p k₀ t' first sig := by
  obtain ⟨st, hreaches, hst, hcase⟩ := h
  refine ⟨st, hreaches, hst, hcase.imp_right fun hcase => hcase.imp_right ?_⟩
  intro ⟨g, hg, hcovered⟩
  exact ⟨g, hg, fun i hi => (hcovered i hi).mono ht⟩

theorem Explorer.Pending.mono {node : Node} {g : Generator} {st : Standing}
    (h : x.Pending p k₀ t first node g st)
    (ht : ∀ sig, t.contains sig = true → t'.contains sig = true) :
    x.Pending p k₀ t' first node g st :=
  { h with covered := fun i hi => (h.covered i hi).mono ht }

theorem Explorer.Pending.settled {node : Node} {g : Generator} {st : Standing}
    (h : x.Pending p k₀ t first node g st) (hdone : g.choices.length ≤ g.processed) :
    x.Settled p k₀ t first node.signature := by
  refine ⟨st, h.reaches, h.signature, .inr (.inr ⟨g.reset, h.next, fun i hi => ?_⟩)⟩
  exact h.covered i (Nat.lt_of_lt_of_le hi hdone)

theorem StateTable.contains_of_visit (t : StateTable) (sig : Signature) :
    (t.visit sig).2.matching = t.matching ∧ (t.visit sig).2.contains sig = true ∧
      (∀ sig', t.contains sig' = true → (t.visit sig).2.contains sig' = true) ∧
      ∀ sig' ∈ t.states, sig' ∈ (t.visit sig).2.states := by
  cases hnew : (t.visit sig).1.isNew with
  | false =>
    obtain ⟨hseen, htable⟩ := visit_of_seen hnew
    rw [htable]
    exact ⟨rfl, hseen, fun _ => id, fun _ => id⟩
  | true =>
    obtain ⟨-, htable⟩ := visit_of_new hnew
    rw [htable]
    refine ⟨rfl, contains_of_mem (by simp), ?_, ?_⟩
    · intro sig' hsig'
      obtain ⟨s, hs, hsame⟩ := contains_iff.mp hsig'
      exact contains_iff.mpr ⟨s, by simp [hs], hsame⟩
    · intro sig' hsig'
      simp [hsig']

theorem Explorer.tracks_take {st st' : Standing} {g : Generator} {i : Nat} {c : ThreadId}
    (hp : p.IsTracked) (h : x.take p st g i c = .ok (.ok st')) : st.kernel.Tracks st'.kernel := by
  obtain ⟨⟨result, k, d⟩, hstep, h⟩ := bind_eq_ok.mp h
  cases result with
  | error e => cases h
  | ok next =>
    obtain ⟨k', htidy, h⟩ := bind_eq_ok.mp h
    cases h
    apply (hp _ _ _ _ _ _ _ hstep).trans
    unfold tidy at htidy
    split at htidy
    · obtain ⟨⟨stats, k''⟩, hcollect, htidy⟩ := bind_eq_ok.mp htidy
      cases htidy
      exact .collect hcollect
    · cases htidy
      exact .refl k

namespace Explorer.Invariant

variable {s s' : Search} {node : Node} {g : Generator} {st : Standing} {serializer : Serializer}
  (hs : x.Invariant p k₀ first s)

include hs

theorem top {rest : List Node} (hnodes : s.nodes = node :: rest) (htop : s.path.top? = some g) :
    ∃ st₀ older, s.path.newestFirst = g :: older ∧ x.Pending p k₀ s.table first node g st₀ ∧
      List.Forall₂ (fun node g => ∃ st, x.Pending p k₀ s.table first node g st) rest older := by
  have hstack := hs.stack
  unfold Path.top? at htop
  rw [hnodes] at hstack
  obtain ⟨g', older, ⟨st₀, hst₀⟩, hrest, hpath⟩ := List.forall₂_cons_left_iff.mp hstack
  rw [hpath] at htop
  cases htop
  exact ⟨st₀, older, hpath, hst₀, hrest⟩

theorem newest (h : s.Arrival p node g st serializer sig) : ∃ st₀ rest older,
    s.nodes = node :: rest ∧ s.path.newestFirst = g :: older ∧
      x.Pending p k₀ s.table first node g st₀ ∧
      List.Forall₂ (fun node g => ∃ st, x.Pending p k₀ s.table first node g st) rest older := by
  obtain ⟨rest, hnodes⟩ := h.newest
  obtain ⟨st₀, older, hpath, hst₀, hrest⟩ := hs.top hnodes h.top
  exact ⟨st₀, rest, older, hnodes, hpath, hst₀, hrest⟩

theorem tries (hp : p.IsTracked) (h : s.Arrival p node g st serializer sig) :
    x.Tries p (s.resumed node { g with cursor := some g.processed }) g.processed
        (s.announced { g with cursor := some g.processed } st sig) ∧
      (s.resumed node { g with cursor := some g.processed }).kernel.signature = .ok node.signature ∧
      (s.announced { g with cursor := some g.processed } st sig).kernel.signature = .ok sig := by
  obtain ⟨st₀, rest, older, hnodes, -, hst₀, -⟩ := hs.newest h
  obtain ⟨c, hc, htake⟩ := h.take
  -- the snapshot of the node was taken in a state with this signature
  have hrestored : (s.kernel.restore node.snapshot).signature = .ok node.signature := by
    rw [← hst₀.signature]
    exact Kernel.signature_eq_of_snapshot hst₀.snapshot.symm
  refine ⟨⟨s, node, g, st, serializer, sig, hs.searches, h, rfl, rfl, rfl⟩, hrestored, ?_⟩
  have htracks := (Kernel.Tracks.tell _ _).trans (tracks_take hp htake)
  rw [← Serializer.signature_prime htracks hrestored h.signature]
  exact Kernel.signature_eq_of_snapshot rfl

theorem follows (hp : p.IsTracked) (hdep : x.DependsOnEncoding p k₀) (hfails : x.NeverFails p k₀)
    (h : s.Arrival p node g st serializer sig) :
    ∃ st', x.Reachable p k₀ st' ∧ st'.kernel.signature = .ok sig := by
  obtain ⟨st₀, rest, older, -, -, hst₀, -⟩ := hs.newest h
  obtain ⟨htries, hresumed, hst⟩ := hs.tries hp h
  obtain ⟨c, hc, -⟩ := h.take
  obtain ⟨r, hr, hpasses, hsig⟩ := hst₀.origin hfails
  have hsame := Standing.sameEncoding hsig hresumed
  have halike := hdep.next r _ (.inl hr) (.inr (.inr ⟨_, _, .inl htries⟩)) hsame
  cases hnext : r.next with
  | halt =>
    rw [hnext] at halike
    exact halike.elim
  | branch g' =>
    rw [hnext] at halike
    have hlt : g.processed < g'.choices.length := by
      rw [halike.2.2.1]
      exact (List.getElem?_eq_some_iff.mp hc).1
    obtain ⟨r', hr'⟩ := hfails.goesOn r g' _ hr hpasses hnext hlt
    refine ⟨r', hr.step hpasses hr', ?_⟩
    rw [← hst]
    exact Kernel.signature_congr
      (hdep.successors r _ _ r' _ (.inl ⟨hr, hpasses, hr'⟩) (.inr htries) hsame)

theorem stack_arrived (hp : p.IsTracked) (h : s.Arrival p node g st serializer sig) :
    List.Forall₂ (fun node g => ∃ st, x.Pending p k₀ (s.table.visit sig).2 first node g st) s.nodes
      (s.path.setTop { g with cursor := some g.processed }).newestFirst := by
  obtain ⟨st₀, rest, older, hnodes, hpath, hst₀, hrest⟩ := hs.newest h
  obtain ⟨htries, hresumed, hst⟩ := hs.tries hp h
  obtain ⟨-, hsig, hmono, -⟩ := s.table.contains_of_visit sig
  unfold Path.setTop
  rw [hnodes, hpath]
  refine .cons ⟨st₀, ?_⟩ (hrest.imp fun _ _ ⟨st, hst⟩ => ⟨st, hst.mono hmono⟩)
  refine { hst₀.mono hmono with covered := ?_ }
  intro i hi
  have hi' : i < g.processed ∨ i = g.processed := Nat.lt_succ_iff_lt_or_eq.mp hi
  rcases hi' with hi | rfl
  · -- the choices before this one were covered already
    exact (hst₀.covered i hi).mono hmono
  · exact ⟨_, _, sig, htries, hresumed, hst, hsig⟩

theorem pop (hs' : x.Searches p (s.popGenerator g)) {rest : List Node} (hnodes : s.nodes = node :: rest)
    (htop : s.path.top? = some g) (hdone : g.choices.length ≤ g.processed) :
    x.Invariant p k₀ first (s.popGenerator g) := by
  obtain ⟨st₀, older, hpath, hst₀, hrest⟩ := hs.top hnodes htop
  refine ⟨hs', hs.scheduler, hs.limits, hs.exact, hs.hasFirst, ?_, ?_, hs.found⟩
  · dsimp only [Search.popGenerator, Search.tell, Search.setStats, Path.pop]
    rw [hnodes, hpath]
    exact hrest
  · intro hdepth sig hsig
    rcases hs.settled hdepth sig hsig with hsettled | ⟨node', hnode', rfl⟩
    · exact .inl hsettled
    · rw [hnodes] at hnode'
      rcases List.mem_cons.mp hnode' with rfl | hnode'
      · exact .inl (hst₀.settled hdone)
      · refine .inr ⟨node', ?_, rfl⟩
        dsimp only [Search.popGenerator, Search.tell, Search.setStats]
        rw [hnodes]
        exact hnode'

theorem seen (hp : p.IsTracked) (h : s.Arrival p node g st serializer sig)
    (hseen : (s.table.visit sig).1.isNew = false) {reclaimed : Nat} {f : SearchStats → SearchStats}
    (hf : ∀ stats, (f stats).depthLimited = stats.depthLimited)
    (hs' : x.Searches p
      ((s.arrived { g with cursor := some g.processed } st serializer sig reclaimed).setStats f)) :
    x.Invariant p k₀ first
      ((s.arrived { g with cursor := some g.processed } st serializer sig reclaimed).setStats f) := by
  have hstack := hs.stack_arrived hp h
  have htable := (StateTable.visit_of_seen hseen).2
  rw [htable] at hstack
  constructor
  · exact hs'
  · exact hs.scheduler
  · exact hs.limits
  all_goals
    dsimp only [Search.arrived, Search.setStats]
    rw [htable]
  · exact hs.exact
  · exact hs.hasFirst
  · exact hstack
  · rw [hf]
    exact hs.settled
  · exact hs.found

theorem ne_first (hnew : (s.table.visit sig).1.isNew = true) : sig ≠ first := by
  rintro rfl
  have hcontains := StateTable.contains_of_mem hs.hasFirst
  rw [(StateTable.visit_of_new hnew).1] at hcontains
  cases hcontains

theorem new (hp : p.IsTracked) (hdep : x.DependsOnEncoding p k₀)
    (h : s.Arrival p node g st serializer sig) (hnew : (s.table.visit sig).1.isNew = true)
    {reclaimed : Nat} (hs' : x.Searches p s')
    (hentered : (s.arrived { g with cursor := some g.processed } st serializer sig reclaimed).Entered p
      sig st.next s') :
    x.Invariant p k₀ first s' := by
  obtain ⟨htries, hresumed, hst⟩ := hs.tries hp h
  obtain ⟨hmatching, -, hmono, hsub⟩ := s.table.contains_of_visit sig
  have hexact := hmatching.trans hs.exact
  obtain ⟨-, htable⟩ := StateTable.visit_of_new hnew
  have hstack := hs.stack_arrived hp h
  have hreaches : x.Reaches p k₀ (s.announced { g with cursor := some g.processed } st sig) :=
    .inr (.inr ⟨_, _, .inr htries⟩)
  have hne := hs.ne_first hnew
  have hmem : ∀ sig' ∈ (s.table.visit sig).2.states, sig' ∈ s.table.states ∨ sig' = sig := by
    rw [htable]
    simp
  have hfound : x.NeverFails p k₀ → ∀ sig' ∈ (s.table.visit sig).2.states,
      ∃ st, x.Reachable p k₀ st ∧ st.kernel.signature = .ok sig' := by
    intro hfails sig' hsig'
    rcases hmem sig' hsig' with hold | rfl
    · exact hs.found hfails sig' hold
    · exact hs.follows hp hdep hfails h
  have hold : s.outcome.stats.depthLimited = 0 → ∀ sig' ∈ s.table.states,
      x.Settled p k₀ (s.table.visit sig).2 first sig' ∨ ∃ node ∈ s.nodes, node.signature = sig' := by
    intro hdepth sig' hsig'
    exact (hs.settled hdepth sig' hsig').imp_left (·.mono hmono)
  cases hentered with
  | violation hcheck ho =>
    refine ⟨hs', hs.scheduler, hs.limits, hexact, hsub first hs.hasFirst, hstack, ?_, hfound⟩
    intro hdepth sig' hsig'
    rcases hmem sig' hsig' with hsig' | rfl
    · exact hold (ho ▸ hdepth) sig' hsig'
    · exact .inl ⟨_, hreaches, hst, .inl ⟨hne, hcheck⟩⟩
  | terminal hcheck hnext ho =>
    refine ⟨hs', hs.scheduler, hs.limits, hexact, hsub first hs.hasFirst, hstack, ?_, hfound⟩
    intro hdepth sig' hsig'
    rcases hmem sig' hsig' with hsig' | rfl
    · exact hold (ho ▸ hdepth) sig' hsig'
    · exact .inl ⟨_, hreaches, hst, .inr (.inl hnext)⟩
  | limited ho =>
    refine ⟨hs', hs.scheduler, hs.limits, hexact, hsub first hs.hasFirst, hstack, ?_, hfound⟩
    intro hdepth
    dsimp only at hdepth
    omega
  | @expanded o g' hcheck hnext ho =>
    -- a generator that a transition returns has not moved, so nothing has to be covered yet
    have hfresh : g'.cursor = none := by
      have halike := hdep.next _ _ hreaches hreaches (Standing.sameEncoding hst hst)
      unfold Search.announced at halike
      rw [hnext] at halike
      exact halike.1
    refine ⟨hs', hs.scheduler, hs.limits, hexact, hsub first hs.hasFirst, .cons ?_ hstack, ?_, hfound⟩
    · refine ⟨_, hreaches, hst, rfl, ?_, .inr hcheck, ?_, ?_⟩
      · dsimp only [Search.announced]
        rw [hnext, Generator.reset, ← hfresh]
      · intro i hi
        rw [Generator.processed, hfresh] at hi
        cases hi
      · intro hfails
        obtain ⟨r, hr, hsig⟩ := hs.follows hp hdep hfails h
        refine ⟨r, hr, .inr ?_, hsig⟩
        rw [hdep.check r _ (.inl hr) hreaches (Standing.sameEncoding hsig hst)]
        exact hcheck
    · intro hdepth sig' hsig'
      rcases hmem sig' hsig' with hsig' | rfl
      · rcases hold (ho ▸ hdepth) sig' hsig' with hsettled | ⟨node', hnode', hsig'⟩
        · exact .inl hsettled
        · exact .inr ⟨node', .tail _ hnode', hsig'⟩
      · exact .inr ⟨_, .head _, rfl⟩

theorem step (hp : p.IsTracked) (hdep : x.DependsOnEncoding p k₀)
    (h : s.step p = .ok (.running s')) : x.Invariant p k₀ first s' := by
  have hs' : x.Searches p s' := by
    obtain ⟨s₀, hstart, hsteps⟩ := hs.searches
    exact ⟨s₀, hstart, hsteps.tail h⟩
  cases Search.step_cases h with
  | pop hnodes htop hdone => exact hs.pop hs' hnodes htop hdone
  | seen harrival reclaimed hseen => exact hs.seen hp harrival hseen (fun _ => rfl) hs'
  | new harrival reclaimed hnew =>
    exact hs.new hp hdep harrival hnew hs' (Search.enterNewState_cases ..)

theorem steps (hp : p.IsTracked) (hdep : x.DependsOnEncoding p k₀) (h : s.Steps p s') :
    x.Invariant p k₀ first s' := by
  induction h with
  | refl => exact hs
  | tail _ h ih => exact ih.step hp hdep h

end Explorer.Invariant

theorem Scheduler.snapshot_root {scheduler : Scheduler} {k k' : Kernel} {d d' : Dice} {g? : Option Generator}
    (h : scheduler.root k d = .ok (g?, k', d')) : k'.snapshot.1 = k.snapshot.1 := by
  obtain ⟨⟨choices, d₁⟩, -, h⟩ := bind_eq_ok.mp h
  dsimp only at h
  unfold announce at h
  split at h
  · cases h
    rfl
  · cases h
    rfl

namespace Explorer

theorem signature_begin {st : Standing} {k : Kernel} (h : x.begin k = .ok st) :
    st.kernel.signature = k.signature ∧ st.path.isEmpty = true := by
  obtain ⟨⟨g?, k', d⟩, hroot, h⟩ := bind_eq_ok.mp h
  cases h
  exact ⟨Kernel.signature_eq_of_snapshot (Scheduler.snapshot_root hroot), rfl⟩

theorem Reachable.begin {st : Standing} (h : x.Reachable p k₀ st) (hpath : st.path.isEmpty = true) :
    x.begin k₀ = .ok st := by
  cases h with
  | initial h => exact h
  | step _ _ htakes =>
    obtain ⟨g, c, -, -, htake⟩ := htakes
    obtain ⟨⟨result, k, d⟩, -, htake⟩ := bind_eq_ok.mp htake
    cases result with
    | error e => cases htake
    | ok next =>
      obtain ⟨k', -, htake⟩ := bind_eq_ok.mp htake
      cases htake
      cases hpath

theorem Settled.contains {table : StateTable} {st st' : Standing} {i : Nat}
    (h : x.Settled p k₀ table first sig) (hdep : x.DependsOnEncoding p k₀)
    (hk₀ : k₀.signature = .ok first) (hst : x.Reachable p k₀ st) (hsig : st.kernel.signature = .ok sig)
    (hpasses : p.Passes st) (htakes : x.Takes p st i st') :
    ∃ sig', st'.kernel.signature = .ok sig' ∧ table.contains sig' = true := by
  obtain ⟨st₀, hst₀, hsig₀, hcase⟩ := h
  -- `st₀` is where the search has dealt with the encoding of `st`
  have hsame := Standing.sameEncoding hsig hsig₀
  have ⟨g, c, hnext, hc, _⟩ := htakes
  rcases hcase with ⟨hne, hcheck⟩ | hhalt | ⟨g', hg', hcovered⟩
  · -- a violation has no successors, unless it is the initial state
    rcases hpasses with hpath | hpasses
    · rw [(signature_begin (hst.begin hpath)).1, hk₀] at hsig
      exact absurd (Except.ok.inj hsig).symm hne
    · rw [hdep.check st st₀ (.inl hst) hst₀ hsame] at hpasses
      exact absurd hpasses hcheck
  · have halike := hdep.next st st₀ (.inl hst) hst₀ hsame
    rw [hnext, hhalt] at halike
    exact halike.elim
  · have halike := hdep.next st st₀ (.inl hst) hst₀ hsame
    rw [hnext, hg'] at halike
    have hi : i < g'.choices.length := by
      rw [← halike.2.2.1]
      exact (List.getElem?_eq_some_iff.mp hc).1
    obtain ⟨st₁, st₁', sig₁, htries, hst₁, hst₁', hsig₁⟩ := hcovered i hi
    refine ⟨sig₁, ?_, hsig₁⟩
    rw [← hst₁']
    apply Kernel.signature_congr
    exact hdep.successors st st₁ i st' st₁' (.inl ⟨hst, hpasses, htakes⟩) (.inr htries)
      (Standing.sameEncoding hsig hst₁)

theorem mem_states_of_contains {table : StateTable} {k : Kernel} (hexact : table.matching = .exact)
    (hsig : k.signature = .ok sig) (hcontains : table.contains sig = true)
    (hstates : ∀ sig ∈ table.states, ∃ k : Kernel, k.signature = .ok sig) : sig ∈ table.states := by
  obtain ⟨sig', hmem, hwords⟩ := (StateTable.contains_iff_of_exact hexact).mp hcontains
  obtain ⟨k', hsig'⟩ := hstates sig' hmem
  obtain ⟨w, -, rfl⟩ := Kernel.signature_eq_ok.mp hsig
  obtain ⟨w', -, rfl⟩ := Kernel.signature_eq_ok.mp hsig'
  obtain rfl : w' = w := hwords
  exact hmem

structure Finished (x : Explorer) (p : Program) (k₀ : Kernel) (table : StateTable)
    (first : Signature) : Prop where
  exact : table.matching = .exact
  hasFirst : first ∈ table.states
  settled : ∀ sig ∈ table.states, x.Settled p k₀ table first sig
  found : x.NeverFails p k₀ → ∀ sig ∈ table.states,
    ∃ st, x.Reachable p k₀ st ∧ st.kernel.signature = .ok sig

theorem Finished.contains {table : StateTable} (hfinished : x.Finished p k₀ table first)
    (hdep : x.DependsOnEncoding p k₀) (hk₀ : k₀.signature = .ok first) {st : Standing}
    (hst : x.Reachable p k₀ st) :
    ∃ sig, st.kernel.signature = .ok sig ∧ table.contains sig = true := by
  induction hst with
  | initial h =>
    exact ⟨first, (signature_begin h).1.trans hk₀, StateTable.contains_of_mem hfinished.hasFirst⟩
  | @step st st' i hst hpasses htakes ih =>
    obtain ⟨sig, hsig, hcontains⟩ := ih
    have hmem : sig ∈ table.states := by
      refine mem_states_of_contains hfinished.exact hsig hcontains fun sig' hsig' => ?_
      obtain ⟨st₀, -, hsig₀, -⟩ := hfinished.settled sig' hsig'
      exact ⟨st₀.kernel, hsig₀⟩
    exact (hfinished.settled sig hmem).contains hdep hk₀ hst hsig hpasses htakes

theorem withKernel_cases {k : Kernel} {c : Config} {r : Shuffler} (h : withKernel k c r = .ok x) :
    ∃ kernel scheduler matching, Serializer.attach k = (.ok {}, kernel) ∧
      Scheduler.ofConfig c = .ok scheduler ∧ Matching.ofName? c.search.stateTable = some matching ∧
      x = {
        kernel
        scheduler
        dice := scheduler.policy.dice r
        serializer := {}
        table := { matching }
        limits := c.search } := by
  unfold withKernel at h
  split at h
  · cases h
  · next serializer kernel hattach =>
    split at h
    · cases h
    · next scheduler hscheduler =>
      split at h
      · cases h
      · next matching hname =>
        cases h
        have hserializer : serializer = {} := by
          unfold Serializer.attach at hattach
          split at hattach
          · cases hattach
            rfl
          · cases hattach
        subst hserializer
        exact ⟨kernel, scheduler, matching, hattach, hscheduler, hname, rfl⟩

theorem limits_withKernel {k : Kernel} {c : Config} {r : Shuffler} (h : withKernel k c r = .ok x) :
    x.limits = c.search := by
  obtain ⟨_, _, _, -, -, -, rfl⟩ := withKernel_cases h
  rfl

theorem withKernel_eq_ok {k : Kernel} {c : Config} {r : Shuffler} (h : withKernel k c r = .ok x)
    (hexact : c.search.stateTable = "exact") : x.serializer = {} ∧ x.table = { matching := .exact } := by
  obtain ⟨kernel, scheduler, matching, -, -, hname, rfl⟩ := withKernel_cases h
  rw [hexact] at hname
  obtain rfl : Matching.exact = matching := Option.some.inj hname
  exact ⟨rfl, rfl⟩

theorem states_opened (k k' : Kernel) (d : Dice) (serializer : Serializer) (reclaimed : Nat)
    {matching : Matching} (htable : x.table = { matching }) :
    (x.opened k k' d serializer first reclaimed).table = { matching, states := #[first] } := by
  dsimp only [opened]
  rw [htable]
  simp [StateTable.visit, StateTable.find?]

theorem NeverFails.origin (h : x.NeverFails p k₀) (hk₀ : k₀.signature = .ok first) :
    ∃ st, x.Reachable p k₀ st ∧ p.Passes st ∧ st.kernel.signature = .ok first := by
  obtain ⟨st, hst⟩ := h.begins
  obtain ⟨hsig, hpath⟩ := signature_begin hst
  exact ⟨st, .initial hst, .inl hpath, hsig.trans hk₀⟩

section

variable {k k' : Kernel} {d : Dice} {g? : Option Generator} (serializer : Serializer) (reclaimed : Nat)
  (hinit : x.initialKernel p = .ok (.ok k)) (hsig : k.signature = .ok first)
  (hroot : x.scheduler.root k.snapshot.2 x.dice = .ok (g?, k', d))

include hinit hsig hroot

theorem beginsWith : x.BeginsWith p ⟨k', d, .ofGenerator? g?, {}⟩ ∧ k'.signature = .ok first := by
  have hbegin : x.begin k.snapshot.2 = .ok ⟨k', d, .ofGenerator? g?, {}⟩ := bind_eq_ok.mpr ⟨_, hroot, rfl⟩
  refine ⟨⟨k, hinit, hbegin⟩, ?_⟩
  rw [← hsig, (signature_begin hbegin).1]
  exact Kernel.signature_eq_of_snapshot rfl

variable (htable : x.table = { matching := .exact }) (hk₀ : k₀.signature = .ok first)

include htable hk₀

theorem Finished.opened (hnone : g? = none) :
    x.Finished p k₀ (x.opened k k' d serializer first reclaimed).table first := by
  obtain ⟨hbegins, hfirst⟩ := beginsWith hinit hsig hroot
  rw [states_opened k k' d serializer reclaimed htable]
  refine ⟨rfl, by simp, ?_, ?_⟩
  · intro sig hmem
    obtain rfl : sig = first := by simpa using hmem
    refine ⟨_, .inr (.inl hbegins), hfirst, .inr (.inl ?_)⟩
    rw [hnone]
    rfl
  · intro hfails sig hmem
    obtain rfl : sig = first := by simpa using hmem
    obtain ⟨st, hst, -, hsig⟩ := hfails.origin hk₀
    exact ⟨st, hst, hsig⟩

theorem Invariant.opened (hdep : x.DependsOnEncoding p k₀) {g : Generator} (hg : g? = some g)
    (hs : x.Searches p ((x.opened k k' d serializer first reclaimed).pushGenerator g first)) :
    x.Invariant p k₀ first ((x.opened k k' d serializer first reclaimed).pushGenerator g first) := by
  obtain ⟨hbegins, hfirst⟩ := beginsWith hinit hsig hroot
  rw [hg] at hbegins
  have hreaches : x.Reaches p k₀ ⟨k', d, .branch g, {}⟩ := .inr (.inl hbegins)
  have hfresh : g.cursor = none :=
    (hdep.next _ _ hreaches hreaches (Standing.sameEncoding hfirst hfirst)).1
  have hopened : (x.opened k k' d serializer first reclaimed).table = _ :=
    states_opened k k' d serializer reclaimed htable
  have hstates : ∀ sig ∈ (x.opened k k' d serializer first reclaimed).table.states, sig = first := by
    rw [hopened]
    simp
  refine ⟨hs, rfl, rfl, ?_, ?_, .cons ⟨_, hreaches, hfirst, rfl, ?_, .inl rfl, ?_, ?_⟩ .nil, ?_, ?_⟩
  · exact congrArg (·.matching) hopened
  · have : first ∈ (x.opened k k' d serializer first reclaimed).table.states := by
      rw [hopened]
      simp
    exact this
  · rw [Generator.reset, ← hfresh]
  · intro i hi
    rw [Generator.processed, hfresh] at hi
    cases hi
  · intro hfails
    exact hfails.origin hk₀
  · intro _ sig hmem
    exact .inr ⟨_, .head _, (hstates sig hmem).symm⟩
  · intro hfails sig hmem
    rw [hstates sig hmem]
    obtain ⟨st, hst, -, hsig⟩ := hfails.origin hk₀
    exact ⟨st, hst, hsig⟩

end

theorem Invariant.nodes_eq_nil {s : Search} (hs : x.Invariant p k₀ first s)
    (hdone : s.nodes = [] ∨ s.path.top? = none) : s.nodes = [] := by
  rcases hdone with hnodes | htop
  · exact hnodes
  · have hstack := hs.stack
    rw [List.head?_eq_none_iff.mp htop] at hstack
    exact List.forall₂_nil_right_iff.mp hstack

theorem Invariant.finished {s s' : Search} (hs : x.Invariant p k₀ first s)
    (h : s.step p = .ok (.finished s')) (haborted : s'.outcome.aborted = none)
    (hdepth : s'.outcome.stats.depthLimited = 0) : x.Finished p k₀ s'.table first := by
  cases Search.step_cases h with
  | exhausted reason => cases haborted
  | done hdone =>
    have hnodes := hs.nodes_eq_nil hdone
    refine ⟨hs.exact, hs.hasFirst, ?_, hs.found⟩
    intro sig hsig
    rcases hs.settled hdepth sig hsig with hsettled | ⟨node, hnode, -⟩
    · exact hsettled
    · rw [hnodes] at hnode
      cases hnode

section

variable (hserializer : x.serializer = {}) (htable : x.table = { matching := .exact })
  (hk₀ : x.HoldsInitial p k₀)

include hserializer hk₀

theorem HoldsInitial.signature_eq {k : Kernel} {serializer : Serializer}
    (hinit : x.initialKernel p = .ok (.ok k))
    (h : x.serializer.signature k.snapshot.2 = .ok (first, serializer)) :
    k.signature = .ok first ∧ k₀.signature = .ok first := by
  have hsig : k.signature = .ok first := by
    rcases Serializer.signature_eq_ok h with h | ⟨hcached, -⟩
    · rw [← h]
      exact Kernel.signature_eq_of_snapshot rfl
    · rw [hserializer] at hcached
      cases hcached
  obtain ⟨k', hk', hsnapshot⟩ := hk₀
  rw [hinit] at hk'
  cases hk'
  exact ⟨hsig, hsig ▸ Kernel.signature_eq_of_snapshot hsnapshot⟩

include htable

theorem Finished.start {s : Search} (hstart : x.start p = .ok (.finished s)) :
    ∃ first, k₀.signature = .ok first ∧ x.Finished p k₀ s.table first := by
  obtain ⟨k, k', d, serializer, first, reclaimed, hinit, hsig, hroot, rfl⟩ := start_eq_finished hstart
  obtain ⟨hk, hk₀⟩ := HoldsInitial.signature_eq hserializer hk₀ hinit hsig
  obtain ⟨_, _, heq⟩ := (x.opened k k' d serializer first reclaimed).recordTerminal_eq first
  rw [heq]
  exact ⟨first, hk₀, Finished.opened serializer reclaimed hinit hk hroot htable hk₀ rfl⟩

theorem Invariant.start (hdep : x.DependsOnEncoding p k₀) {s : Search}
    (hstart : x.start p = .ok (.running s)) :
    ∃ first, k₀.signature = .ok first ∧ x.Invariant p k₀ first s := by
  obtain ⟨k, k', d, g, serializer, first, reclaimed, hinit, hsig, hroot, rfl⟩ := start_eq_running hstart
  obtain ⟨hk, hk₀⟩ := HoldsInitial.signature_eq hserializer hk₀ hinit hsig
  refine ⟨first, hk₀, ?_⟩
  exact Invariant.opened serializer reclaimed hinit hk hroot htable hk₀ hdep rfl ⟨_, hstart, .refl⟩

end

/-- If what a program does shows in the encodings of its states, a search with the exact table that is not
cut off finds all of them: the table has the encoding of every state that an execution reaches, from any
kernel that holds the initial state. If no such execution fails, the table has nothing else. -/
theorem explore_complete {k : Kernel} {c : Config} {r : Shuffler} {x y : Explorer} {p : Program} {k₀ : Kernel}
    {fuel : Nat} {o : SearchOutcome} (hx : withKernel k c r = .ok x) (hexact : c.search.stateTable = "exact")
    (hp : p.IsTracked) (hdep : x.DependsOnEncoding p k₀) (hk₀ : x.HoldsInitial p k₀)
    (hrun : x.explore p fuel = .ok (some (.ok o, y))) (haborted : o.aborted = none)
    (hdepth : o.stats.depthLimited = 0) :
    (∀ st, x.Reachable p k₀ st →
        ∃ sig, st.kernel.signature = .ok sig ∧ y.table.contains sig = true) ∧
      (x.NeverFails p k₀ → ∀ sig ∈ y.table.states,
        ∃ st, x.Reachable p k₀ st ∧ st.kernel.signature = .ok sig) := by
  obtain ⟨hserializer, htable⟩ := withKernel_eq_ok hx hexact
  obtain ⟨s, hend, rfl, rfl⟩ := explore_eq_ok hrun
  obtain ⟨first, hfirst, hfinished⟩ : ∃ first, k₀.signature = .ok first ∧
      x.Finished p k₀ s.table first := by
    rcases hend with hstart | ⟨s₀, s₁, hstart, hsteps, hlast⟩
    · exact Finished.start hserializer htable hk₀ hstart
    · obtain ⟨first, hfirst, hs₀⟩ := Invariant.start hserializer htable hk₀ hdep hstart
      exact ⟨first, hfirst, (hs₀.steps hp hdep hsteps).finished hlast haborted hdepth⟩
  exact ⟨fun st hst => hfinished.contains hdep hfirst hst, hfinished.found⟩

def twoNodes : Script where
  threads := #[{ code := #[.new] }, { code := #[.new, .publish] }]

def exactConfig : Config where
  search := { stateTable := "exact", gcAfterTransition := false }

def explored? (c : Config) (p : Program) (fuel : Nat) : Option (Explorer × SearchOutcome × Explorer) := do
  let x ← (withKernel (.ofConfig c) c).toOption
  match ← (← (x.explore p fuel).toOption) with
  | (.ok o, y) => return (x, o, y)
  | (.error _, _) => none

theorem explored?_eq_some {c : Config} {p : Program} {fuel : Nat} {x y : Explorer} {o : SearchOutcome}
    (h : explored? c p fuel = some (x, o, y)) :
    withKernel (.ofConfig c) c = .ok x ∧ x.explore p fuel = .ok (some (.ok o, y)) := by
  obtain ⟨x', hx, h⟩ := Option.bind_eq_some_iff.mp h
  obtain ⟨r, hr, h⟩ := Option.bind_eq_some_iff.mp h
  obtain ⟨⟨result, y'⟩, rfl, h⟩ := Option.bind_eq_some_iff.mp h
  cases result with
  | error e => cases h
  | ok o' =>
    cases h
    exact ⟨toOption_eq_some.mp hx, toOption_eq_some.mp hr⟩

theorem explored_twoNodes : ∃ r ∈ explored? exactConfig twoNodes.program 30,
    r.2.1.aborted = none ∧ r.2.1.stats.depthLimited = 0 ∧ r.2.2.table.size = 6 ∧
    (∃ l ∈ r.1.listing? twoNodes.program r.2.2.kernel 30, l.Consistent twoNodes.program) ∧
    ∃ l ∈ r.1.executions? twoNodes.program r.2.2.kernel 30, l ≠ [] ∧
      ∀ st ∈ l, twoNodes.program.Passes st → ∀ i < st.next.choices.length,
        ∃ m ∈ r.1.taken twoNodes.program st, m.1 = i := by
  decide +kernel

theorem explore_complete_twoNodes : ∃ x o y,
    withKernel (.ofConfig exactConfig) exactConfig = .ok x ∧
    x.explore twoNodes.program 30 = .ok (some (.ok o, y)) ∧ y.table.size = 6 ∧
    (∀ st, x.Reachable twoNodes.program y.kernel st →
      ∃ sig, st.kernel.signature = .ok sig ∧ y.table.contains sig = true) ∧
    ∀ sig ∈ y.table.states,
      ∃ st, x.Reachable twoNodes.program y.kernel st ∧ st.kernel.signature = .ok sig := by
  obtain ⟨⟨x, o, y⟩, hr, haborted, hdepth, hsize, hlisting, hexecutions⟩ := explored_twoNodes
  obtain ⟨hx, hrun⟩ := explored?_eq_some hr
  have hcomplete := explore_complete hx rfl twoNodes.isTracked (dependsOnEncoding_of_listing hlisting)
    (holdsInitial_explore hrun) hrun haborted hdepth
  exact ⟨x, o, y, hx, hrun, hsize, hcomplete.1, hcomplete.2 (neverFails_of_executions hexecutions)⟩

end Explorer

end

end Interleave
