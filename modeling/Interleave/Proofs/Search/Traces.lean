import Interleave.Proofs.Kernel.Effect
import Interleave.Proofs.Search.Completeness

/-!
Every trace that a search reports is that of an execution. The search goes from one execution to the next
by putting back snapshots, but each of the generators on its path has arisen in a state that the choices of
the older ones lead to, and so the present choices of all of them lead to the present state.
-/

namespace Interleave

namespace Path

theorem trace_push {path : Path} {g : Generator} {c : ThreadId} (hc : g.current? = some c) :
    (path.push g).trace = path.trace ++ [c] := by
  unfold trace push
  rw [List.reverse_cons, List.filterMap_append]
  simp [hc]

end Path

theorem Kernel.Lasts.tell (k : Kernel) (e : Event) : k.Lasts (k.tell e) :=
  ⟨⟨List.prefix_rfl, List.prefix_rfl⟩, .refl _⟩

def Program.OnlyGrows (p : Program) : Prop :=
  ∀ cx t k d r k' d', p.step cx t k d = .ok (r, k', d') → k.Lasts k'

structure Program.Resumes (p : Program) (k k' : Kernel) : Prop where
  same : k'.snapshot.1 = k.snapshot.1
  lasts : p.OnlyGrows → k.Lasts k'

theorem Roster.of_isDeadlocked {r : Roster} (h : r.isDeadlocked = true) :
    r.runnable = [] ∧ ∃ info ∈ r.toList, info.isAlive = true ∧ info.daemon = false := by
  unfold isDeadlocked at h
  rw [Bool.and_eq_true, beq_iff_eq] at h
  constructor
  · unfold runnable
    rw [List.map_eq_nil_iff, List.filter_eq_nil_iff]
    exact List.countP_eq_zero.mp h.1
  · simpa [anyAliveNonDaemon] using h.2

structure Search.Notes (s : Search) (p : Program) (next : Transition) (o : SearchOutcome) : Prop where
  violations : ∀ v ∈ o.violations, v ∈ s.outcome.violations ∨
    v.trace = s.path.trace ∧ p.check s.kernel = some v.message
  deadlocks : ∀ trace ∈ o.deadlocks, trace ∈ s.outcome.deadlocks ∨
    trace = s.path.trace ∧ next = .halt ∧ s.kernel.isDeadlocked = true
  blockedInAtomic : ∀ trace ∈ o.blockedInAtomic, trace ∈ s.outcome.blockedInAtomic ∨
    trace = s.path.trace ∧ s.kernel.atomic.blocked = true

theorem Search.mem_or_of_mem_concat {α : Type} {a b : α} {l : List α} {q : Prop} (h : a ∈ l ++ [b])
    (hq : a = b → q) : a ∈ l ∨ q := by
  rcases List.mem_append.mp h with h | h
  · exact .inl h
  · exact .inr (hq (List.mem_singleton.mp h))

theorem Search.notes_enterNewState (s : Search) (p : Program) (sig : Signature) (next : Transition)
    (parentBlocked : Bool) : s.Notes p next (s.enterNewState p sig next parentBlocked).outcome := by
  have hold : s.Notes p next (s.counted parentBlocked).outcome := by
    refine ⟨fun _ => .inl, fun _ => .inl, fun trace htrace => ?_⟩
    dsimp only [counted] at htrace
    split at htrace
    · next hblocked =>
      exact mem_or_of_mem_concat htrace fun heq => ⟨heq, (Bool.and_eq_true_iff.mp hblocked).1⟩
    · rw [List.append_nil] at htrace
      exact .inl htrace
  rw [enterNewState_eq]
  cases hcheck : p.check s.kernel with
  | some message =>
    refine ⟨fun v hv => ?_, hold.deadlocks, hold.blockedInAtomic⟩
    refine mem_or_of_mem_concat hv ?_
    rintro rfl
    exact ⟨rfl, hcheck⟩
  | none =>
    cases next with
    | halt =>
      dsimp only [recordTerminal]
      split
      · next hdead =>
        refine ⟨hold.violations, fun trace htrace => ?_, hold.blockedInAtomic⟩
        exact mem_or_of_mem_concat htrace fun heq => ⟨heq, rfl, hdead⟩
      · exact ⟨hold.violations, hold.deadlocks, hold.blockedInAtomic⟩
    | branch g =>
      dsimp only
      split
      · exact ⟨hold.violations, hold.deadlocks, hold.blockedInAtomic⟩
      · exact ⟨hold.violations, hold.deadlocks, hold.blockedInAtomic⟩

namespace Explorer

section

variable (x : Explorer) (p : Program)

/-- The executions of a program, each with the choices that it takes. Between two choices anything may happen
to the dice, which are never put back. -/
inductive Execution : List ThreadId → Standing → Prop where
  | initial {st : Standing} (h : x.BeginsWith p st) : Execution [] st
  | step {trace : List ThreadId} {st st' : Standing} {k : Kernel} {d : Dice} {g : Generator} {i : Nat}
    {c : ThreadId} (h : Execution trace st) (hnext : st.next = .branch g) (hc : g.choices[i]? = some c)
    (hk : p.Resumes st.kernel k)
    (htake : x.take p { st with kernel := k, dice := d } g i c = .ok (.ok st')) :
    Execution (trace ++ [c]) st'

structure Reports (o : SearchOutcome) : Prop where
  violations : ∀ v ∈ o.violations, ∃ st, x.Execution p v.trace st ∧
    p.check (st.kernel.tell (.advancedState v.trace.length true)) = some v.message
  deadlocks : ∀ trace ∈ o.deadlocks, ∃ st, x.Execution p trace st ∧ st.next = .halt ∧
    st.kernel.threads.runnable = [] ∧
    ∃ info ∈ st.kernel.threads.toList, info.isAlive = true ∧ info.daemon = false
  blockedInAtomic : ∀ trace ∈ o.blockedInAtomic, ∃ st, x.Execution p trace st ∧
    st.kernel.atomic.blocked = true

inductive Stacked (k : Kernel) : List Node → List Generator → Prop where
  | nil : Stacked k [] []
  | cons {node : Node} {nodes : List Node} {g g₀ : Generator} {older : List Generator}
    {trace : List ThreadId} {st : Standing} (h : Stacked k nodes older)
    (hst : x.Execution p trace st) (hpath : st.path = ⟨older⟩) (hnext : st.next = .branch g₀)
    (hg : g₀.reset = g.reset) (hnode : st.kernel.snapshot.1 = node.snapshot)
    (hk : p.OnlyGrows → st.kernel.Lasts k) : Stacked k (node :: nodes) (g :: older)

structure Traced (s : Search) : Prop where
  scheduler : s.scheduler = x.scheduler
  limits : s.limits = x.limits
  stack : x.Stacked p s.kernel s.nodes s.path.newestFirst
  reports : x.Reports p s.outcome

end

variable {x : Explorer} {p : Program}

theorem take_eq_ok {st st' : Standing} {g : Generator} {i : Nat} {c : ThreadId}
    (h : x.take p st g i c = .ok (.ok st')) :
    st'.path = st.path.push { g with cursor := some i } ∧ (p.OnlyGrows → st.kernel.Lasts st'.kernel) := by
  obtain ⟨⟨result, k, d⟩, hstep, h⟩ := bind_eq_ok.mp h
  cases result with
  | error e => cases h
  | ok next =>
    obtain ⟨k', htidy, h⟩ := bind_eq_ok.mp h
    cases h
    refine ⟨rfl, fun hp => (hp _ _ _ _ _ _ _ hstep).trans ?_⟩
    unfold tidy at htidy
    split at htidy
    · obtain ⟨⟨stats, k''⟩, hcollect, htidy⟩ := bind_eq_ok.mp htidy
      cases htidy
      exact .effect (.grows (Kernel.grows_collect hcollect))
    · cases htidy
      exact .refl k

theorem take_congr {y : Explorer} (hscheduler : y.scheduler = x.scheduler) (hlimits : y.limits = x.limits)
    (st : Standing) (g : Generator) (i : Nat) (c : ThreadId) : y.take p st g i c = x.take p st g i c := by
  unfold take tidy
  rw [hscheduler, hlimits]

theorem Execution.trace_path {trace : List ThreadId} {st : Standing} (h : x.Execution p trace st) :
    st.path.trace = trace ∧ st.path.depth = trace.length := by
  induction h with
  | initial h =>
    obtain ⟨k, -, h⟩ := h
    obtain ⟨⟨g?, k', d⟩, -, h⟩ := bind_eq_ok.mp h
    cases h
    exact ⟨rfl, rfl⟩
  | @step trace st st' k d g i c _ _ hc _ htake ih =>
    rw [(take_eq_ok htake).1]
    constructor
    · rw [Path.trace_push (g := { g with cursor := some i }) hc]
      exact congrArg (· ++ [c]) ih.1
    · rw [List.length_append, ← ih.2]
      rfl

theorem Stacked.mono {k k' : Kernel} {nodes : List Node} {gs : List Generator}
    (h : x.Stacked p k nodes gs) (hk : p.OnlyGrows → k.Lasts k') : x.Stacked p k' nodes gs := by
  induction h with
  | nil => exact .nil
  | cons _ hst hpath hnext hg hnode hlasts ih =>
    exact .cons ih hst hpath hnext hg hnode fun hp => (hlasts hp).trans (hk hp)

theorem Stacked.setTop {k : Kernel} {nodes : List Node} {g g' : Generator} {older : List Generator}
    (h : x.Stacked p k nodes (g :: older)) (hg' : g'.reset = g.reset) :
    x.Stacked p k nodes (g' :: older) := by
  cases h with
  | cons h hst hpath hnext hg hnode hk => exact .cons h hst hpath hnext (hg.trans hg'.symm) hnode hk

theorem lasts_resumed (s : Search) (node : Node) (g : Generator) :
    s.kernel.Lasts (s.resumed node g).kernel :=
  ⟨⟨List.prefix_rfl, List.prefix_rfl⟩, ⟨rfl, fun _ => .restore _ _⟩⟩

namespace Traced

variable {s s' : Search} {node : Node} {g : Generator} {st : Standing} {serializer : Serializer}
  {sig : Signature}

theorem origin (hs : x.Traced p s) {rest : List Node} (hnodes : s.nodes = node :: rest)
    (htop : s.path.top? = some g) :
    ∃ trace st₀ g₀, x.Execution p trace st₀ ∧ st₀.next = .branch g₀ ∧ g₀.reset = g.reset ∧
      st₀.path = s.path.pop ∧
      p.Resumes st₀.kernel (s.resumed node { g with cursor := some g.processed }).kernel := by
  have hstack := hs.stack
  obtain ⟨older, hpath⟩ := List.head?_eq_some_iff.mp htop
  rw [hnodes, hpath] at hstack
  cases hstack with
  | @cons _ _ _ g₀ _ trace st₀ _ hst₀ hpath₀ hnext hg hnode hk =>
    refine ⟨trace, st₀, g₀, hst₀, hnext, hg, ?_, hnode.symm, fun hp => (hk hp).trans (lasts_resumed s node _)⟩
    rw [hpath₀]
    unfold Path.pop
    rw [hpath]
    rfl

theorem execution (hs : x.Traced p s) (h : s.Arrival p node g st serializer sig) :
    (∃ trace, x.Execution p trace st) ∧ st.path = s.path.setTop { g with cursor := some g.processed } ∧
      x.Stacked p st.kernel s.nodes st.path.newestFirst := by
  obtain ⟨rest, hnodes⟩ := h.newest
  obtain ⟨c, hc, htake⟩ := h.take
  obtain ⟨older, hpath⟩ := List.head?_eq_some_iff.mp h.top
  have hset : st.path = s.path.setTop { g with cursor := some g.processed } := by
    rw [(take_eq_ok htake).1]
    rfl
  rw [take_congr hs.scheduler hs.limits] at htake
  refine ⟨?_, hset, ?_⟩
  · obtain ⟨trace, st₀, g₀, hst₀, hnext, hg, hpath₀, hresumes⟩ := hs.origin hnodes h.top
    have hchoices : g₀.choices = g.choices := congrArg (·.choices) hg
    refine ⟨_, hst₀.step (d := s.dice) hnext (hchoices ▸ hc) hresumes ?_⟩
    -- only the cursors of the two generators differ, and the choice is taken at the same position
    rw [← htake, ← hg, hpath₀]
    rfl
  · have hlasts : p.OnlyGrows → s.kernel.Lasts st.kernel := fun hp =>
      (lasts_resumed s node _).trans ((take_eq_ok htake).2 hp)
    have hmoved : x.Stacked p s.kernel s.nodes (s.path.setTop { g with cursor := some g.processed }).newestFirst := by
      have hstack := hs.stack
      unfold Path.setTop
      rw [hpath] at hstack ⊢
      exact hstack.setTop rfl
    rw [hset]
    exact hmoved.mono hlasts

theorem pop (hs : x.Traced p s) {rest : List Node} (hnodes : s.nodes = node :: rest)
    (htop : s.path.top? = some g) : x.Traced p (s.popGenerator g) := by
  have hstack := hs.stack
  obtain ⟨older, hpath⟩ := List.head?_eq_some_iff.mp htop
  rw [hnodes, hpath] at hstack
  refine ⟨hs.scheduler, hs.limits, ?_, hs.reports.violations, hs.reports.deadlocks,
    hs.reports.blockedInAtomic⟩
  dsimp only [Search.popGenerator, Search.tell, Search.setStats, Path.pop]
  rw [hnodes, hpath]
  cases hstack with
  | cons hrest => exact hrest.mono fun _ => (Kernel.Lasts.tell _ _).trans (.tell _ _)

theorem arrived (hs : x.Traced p s) (h : s.Arrival p node g st serializer sig) (reclaimed : Nat) :
    x.Traced p (s.arrived { g with cursor := some g.processed } st serializer sig reclaimed) := by
  obtain ⟨-, hset, hstack⟩ := hs.execution h
  refine ⟨hs.scheduler, hs.limits, ?_, hs.reports.violations, hs.reports.deadlocks,
    hs.reports.blockedInAtomic⟩
  rw [hset] at hstack
  exact hstack.mono fun _ => .tell _ _

theorem enter (hs : x.Traced p s) {trace : List ThreadId} (hst : x.Execution p trace st)
    (hpath : s.path = st.path)
    (hkernel : s.kernel = st.kernel.tell (.advancedState trace.length true)) (parentBlocked : Bool) :
    x.Traced p (s.enterNewState p sig st.next parentBlocked) := by
  have hreports : x.Reports p (s.enterNewState p sig st.next parentBlocked).outcome := by
    have hnotes := s.notes_enterNewState p sig st.next parentBlocked
    have htrace : s.path.trace = trace := hpath ▸ hst.trace_path.1
    constructor
    · intro v hv
      rcases hnotes.violations v hv with hv | ⟨hv, hcheck⟩
      · exact hs.reports.violations v hv
      · rw [hkernel] at hcheck
        rw [hv, htrace]
        exact ⟨st, hst, hcheck⟩
    · intro trace' htrace'
      rcases hnotes.deadlocks trace' htrace' with htrace' | ⟨rfl, hhalt, hdead⟩
      · exact hs.reports.deadlocks trace' htrace'
      · rw [hkernel] at hdead
        rw [htrace]
        exact ⟨st, hst, hhalt, Roster.of_isDeadlocked hdead⟩
    · intro trace' htrace'
      rcases hnotes.blockedInAtomic trace' htrace' with htrace' | ⟨rfl, hblocked⟩
      · exact hs.reports.blockedInAtomic trace' htrace'
      · rw [hkernel] at hblocked
        rw [htrace]
        exact ⟨st, hst, hblocked⟩
  generalize hs' : s.enterNewState p sig st.next parentBlocked = s' at hreports
  cases hs' ▸ s.enterNewState_cases p sig st.next parentBlocked with
  | violation => exact ⟨hs.scheduler, hs.limits, hs.stack, hreports⟩
  | terminal => exact ⟨hs.scheduler, hs.limits, hs.stack, hreports⟩
  | limited => exact ⟨hs.scheduler, hs.limits, hs.stack, hreports⟩
  | @expanded o g' _ hnext _ =>
    have htold : st.kernel.Lasts s.kernel := by
      rw [hkernel]
      exact .tell _ _
    have hpushed : s.kernel.Lasts (s.kernel.tell (.set g')).snapshot.2 :=
      ⟨⟨List.prefix_rfl, List.prefix_rfl⟩, ⟨rfl, id⟩⟩
    refine ⟨hs.scheduler, hs.limits, ?_, hreports⟩
    refine .cons (hs.stack.mono fun _ => hpushed) hst hpath.symm hnext rfl ?_ fun _ => htold.trans hpushed
    change st.kernel.snapshot.1 = (s.kernel.tell (.set g')).snapshot.1
    rw [hkernel]
    rfl

theorem step (hs : x.Traced p s) (h : s.step p = .ok (.running s')) : x.Traced p s' := by
  cases Search.step_cases h with
  | pop hnodes htop => exact hs.pop hnodes htop
  | seen harrival reclaimed =>
    have hs₁ := hs.arrived harrival reclaimed
    exact ⟨hs₁.scheduler, hs₁.limits, hs₁.stack, hs₁.reports.violations, hs₁.reports.deadlocks,
      hs₁.reports.blockedInAtomic⟩
  | new harrival reclaimed hnew =>
    obtain ⟨⟨trace, hst⟩, hset, -⟩ := hs.execution harrival
    refine (hs.arrived harrival reclaimed).enter hst hset.symm ?_ _
    rw [← hst.trace_path.2, hset, ← hnew]
    rfl

theorem steps (hs : x.Traced p s) (h : s.Steps p s') : x.Traced p s' := by
  induction h with
  | refl => exact hs
  | tail _ h ih => exact ih.step h

end Traced

theorem Traced.start {s : Search} (hstart : x.start p = .ok (.running s)) : x.Traced p s := by
  obtain ⟨k, k', d, g, serializer, sig, reclaimed, hinit, -, hroot, rfl⟩ := start_eq_running hstart
  have hbegins : x.BeginsWith p ⟨k', d, .branch g, {}⟩ := ⟨k, hinit, bind_eq_ok.mpr ⟨_, hroot, rfl⟩⟩
  refine ⟨rfl, rfl, ?_, nofun, nofun, nofun⟩
  refine .cons .nil (.initial hbegins) rfl rfl rfl rfl fun _ => ?_
  exact ⟨⟨List.prefix_rfl, List.prefix_rfl⟩, ⟨rfl, id⟩⟩

theorem Reports.start {s : Search} (hstart : x.start p = .ok (.finished s)) : x.Reports p s.outcome := by
  obtain ⟨k, k', d, serializer, sig, reclaimed, hinit, -, hroot, rfl⟩ := start_eq_finished hstart
  have hbegins : x.BeginsWith p ⟨k', d, .halt, {}⟩ := ⟨k, hinit, bind_eq_ok.mpr ⟨_, hroot, rfl⟩⟩
  unfold Search.recordTerminal
  split
  · next hdead =>
    refine ⟨nofun, fun trace htrace => ?_, nofun⟩
    rw [List.mem_singleton.mp htrace]
    exact ⟨_, .initial hbegins, rfl, Roster.of_isDeadlocked hdead⟩
  · exact ⟨nofun, nofun, nofun⟩

/-- Whatever the program and the configuration, every trace that a search reports is that of an execution:
its choices are taken one after the other, each in a state that is the one before in all that a restore
brings back, and the execution ends with the violation, with the deadlock, or with a thread that is blocked
in an atomic section. -/
theorem explore_reports {x y : Explorer} {p : Program} {fuel : Nat} {o : SearchOutcome}
    (hrun : x.explore p fuel = .ok (some (.ok o, y))) : x.Reports p o := by
  obtain ⟨s, hend, rfl, -⟩ := explore_eq_ok hrun
  rcases hend with hstart | ⟨s₀, s₁, hstart, hsteps, hlast⟩
  · exact .start hstart
  · have hs₁ := ((Traced.start hstart).steps hsteps).reports
    cases Search.step_cases hlast with
    | done => exact hs₁
    | exhausted => exact ⟨hs₁.violations, hs₁.deadlocks, hs₁.blockedInAtomic⟩

def ambush : Script where
  fields := ["x"]
  locks := 1
  threads := #[{ code := #[.beginAtomic, .lock 0, .store "x" 2] }, { code := #[.lock 0, .park] }]
  check := some (.never "x" 2)

theorem explored_ambush : ∃ r ∈ explored? exactConfig ambush.program 30,
    r.2.1.violations = [⟨"x == 2", [0]⟩] ∧ r.2.1.deadlocks = [[1, 0, 1]] ∧
      r.2.1.blockedInAtomic = [[1, 0]] := by
  decide +kernel

theorem explore_reports_ambush : ∃ x o y, withKernel (.ofConfig exactConfig) exactConfig = .ok x ∧
    x.explore ambush.program 30 = .ok (some (.ok o, y)) ∧
    (∃ st, x.Execution ambush.program [0] st ∧
      ambush.program.check (st.kernel.tell (.advancedState 1 true)) = some "x == 2") ∧
    (∃ st, x.Execution ambush.program [1, 0, 1] st ∧ st.next = .halt ∧
      st.kernel.threads.runnable = []) ∧
    ∃ st, x.Execution ambush.program [1, 0] st ∧ st.kernel.atomic.blocked = true := by
  obtain ⟨⟨x, o, y⟩, hr, hviolations, hdeadlocks, hblocked⟩ := explored_ambush
  obtain ⟨hx, hrun⟩ := explored?_eq_some hr
  dsimp only at hviolations hdeadlocks hblocked
  have hreports := explore_reports hrun
  obtain ⟨st, hst, hhalt, hrunnable, -⟩ := hreports.deadlocks [1, 0, 1] (by simp [hdeadlocks])
  exact ⟨x, o, y, hx, hrun, hreports.violations ⟨"x == 2", [0]⟩ (by simp [hviolations]),
    ⟨st, hst, hhalt, hrunnable⟩, hreports.blockedInAtomic [1, 0] (by simp [hblocked])⟩

end Explorer

end Interleave
