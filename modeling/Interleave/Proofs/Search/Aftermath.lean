import Interleave.Proofs.Search.Traces

/-!
What a search leaves behind. When it ends, also if a budget is used up, the initial state is put back. If a
transition fails, nothing is put back: the kernel is as the failed transition has left it.
-/

namespace Interleave

namespace Search

variable {s : Search} {p : Program} {e : SearchError} {x : Explorer}

theorem tryChoice_eq_failed {node : Node} {g : Generator} {c : ThreadId}
    (h : s.tryChoice p node g c = .ok (.failed e x)) :
    p.step ⟨s.scheduler, s.path.setTop g, (runner g c).2⟩ (runner g c).1 (s.resumed node g).kernel s.dice =
      .ok (.error e, x.kernel, x.dice) := by
  obtain ⟨⟨result, k, d⟩, hstep, h⟩ := bind_eq_ok.mp h
  cases result with
  | error e' =>
    cases h
    exact hstep
  | ok next =>
    obtain ⟨⟨reclaimed, x₁⟩, -, h⟩ := bind_eq_ok.mp h
    obtain ⟨⟨sig, visit, x₂⟩, -, h⟩ := bind_eq_ok.mp h
    dsimp only at h
    split at h
    · cases h
    · cases h

theorem step_eq_failed (h : s.step p = .ok (.failed e x)) :
    ∃ node rest g c, s.nodes = node :: rest ∧ s.path.top? = some g ∧ g.choices[g.processed]? = some c ∧
      p.step ⟨s.scheduler, s.path.setTop { g with cursor := some g.processed }, (runner g c).2⟩
        (runner g c).1 (s.resumed node { g with cursor := some g.processed }).kernel s.dice =
        .ok (.error e, x.kernel, x.dice) := by
  unfold step at h
  split at h
  · next node rest g hnodes htop =>
    split at h
    · cases h
    · split at h
      · cases h
      · next c g' hadvance =>
        obtain ⟨hc, rfl⟩ := Generator.advance_eq_some hadvance
        exact ⟨node, rest, g, c, hnodes, htop, hc, tryChoice_eq_failed h⟩
  · cases h

end Search

namespace Explorer

def Breaks (x : Explorer) (p : Program) (trace : List ThreadId) (c : ThreadId) (e : SearchError)
    (k : Kernel) : Prop :=
  ∃ st g i k₁ d d', x.Execution p trace st ∧ st.next = .branch g ∧ g.choices[i]? = some c ∧
    p.Resumes st.kernel k₁ ∧
    p.step ⟨x.scheduler, st.path.push { g with cursor := some i }, (Search.runner g c).2⟩
      (Search.runner g c).1 k₁ d = .ok (.error e, k, d')

variable {x y : Explorer} {p : Program} {e : SearchError}

theorem start_eq_failed (h : x.start p = .ok (.failed e y)) :
    p.init x.kernel = .ok (.error e, y.kernel) := by
  obtain ⟨⟨result, k⟩, hinit, h⟩ := bind_eq_ok.mp h
  cases result with
  | error e' =>
    cases h
    exact hinit
  | ok _ =>
    obtain ⟨⟨reclaimed, x₁⟩, -, h⟩ := bind_eq_ok.mp h
    obtain ⟨⟨sig, visit, x₂⟩, -, h⟩ := bind_eq_ok.mp h
    obtain ⟨⟨g?, k', d⟩, -, h⟩ := bind_eq_ok.mp h
    cases g? with
    | none => cases h
    | some g => cases h

theorem Traced.breaks {s : Search} (hs : x.Traced p s) (h : s.step p = .ok (.failed e y)) :
    ∃ trace c, x.Breaks p trace c e y.kernel := by
  obtain ⟨node, rest, g, c, hnodes, htop, hc, hstep⟩ := Search.step_eq_failed h
  obtain ⟨trace, st, g₀, hst, hnext, hg, hpath, hresumes⟩ := hs.origin hnodes htop
  have hchoices : g₀.choices = g.choices := congrArg (·.choices) hg
  refine ⟨trace, c, st, g₀, g.processed, _, s.dice, y.dice, hst, hnext, hchoices ▸ hc, hresumes, ?_⟩
  have hmoved : { g₀ with cursor := some g.processed } = { g with cursor := some g.processed } :=
    congrArg (fun g' : Generator => { g' with cursor := some g.processed }) hg
  have hrunner : Search.runner g₀.reset c = Search.runner g.reset c := by rw [hg]
  rw [hpath, hmoved, ← hs.scheduler]
  exact hrunner ▸ hstep

/-- Once the initial state has been built, a search that returns puts it back, unless it returns the error of
a transition. Then the kernel is left as it is after the failed transition. -/
theorem explore_leaves {x y : Explorer} {p : Program} {fuel : Nat} {k : Kernel}
    {r : Except SearchError SearchOutcome} (hinit : p.init x.kernel = .ok (.ok (), k))
    (hrun : x.explore p fuel = .ok (some (r, y))) :
    (∀ o, r = .ok o → x.HoldsInitial p y.kernel) ∧
      ∀ e, r = .error e → ∃ trace c, x.Breaks p trace c e y.kernel := by
  refine ⟨?_, ?_⟩
  · rintro o rfl
    exact holdsInitial_explore hrun
  · rintro e rfl
    obtain ⟨last, hend, hlast⟩ := explore_eq_some hrun
    obtain rfl := Progress.result?_eq_error hlast
    rcases hend with hstart | ⟨s₀, hstart, hrun⟩
    · rw [start_eq_failed hstart] at hinit
      cases hinit
    · obtain ⟨s, hsteps, hstep, -⟩ := Search.run_eq_some hrun
      exact ((Traced.start hstart).steps hsteps).breaks hstep

def stumbling : Script where
  fields := ["x"]
  threads := #[{ code := #[.store "x" 1, .fail "boom"] }]

theorem init_of_initialKernel {k₀ : Kernel} (h : x.initialKernel p = .ok (.ok k₀)) :
    ∃ k, p.init x.kernel = .ok (.ok (), k) := by
  obtain ⟨⟨result, k⟩, hinit, h⟩ := bind_eq_ok.mp h
  cases result with
  | error e => cases h
  | ok _ => exact ⟨k, hinit⟩

def failed? (c : Config) (p : Program) (fuel : Nat) : Option (Explorer × SearchError × Explorer) := do
  let x ← (withKernel (.ofConfig c) c).toOption
  match ← (← (x.explore p fuel).toOption) with
  | (.error e, y) => return (x, e, y)
  | (.ok _, _) => none

theorem failed?_eq_some {c : Config} {p : Program} {fuel : Nat} {x y : Explorer} {e : SearchError}
    (h : failed? c p fuel = some (x, e, y)) :
    withKernel (.ofConfig c) c = .ok x ∧ x.explore p fuel = .ok (some (.error e, y)) := by
  obtain ⟨x', hx, h⟩ := Option.bind_eq_some_iff.mp h
  obtain ⟨r, hr, h⟩ := Option.bind_eq_some_iff.mp h
  obtain ⟨⟨result, y'⟩, rfl, h⟩ := Option.bind_eq_some_iff.mp h
  cases result with
  | ok o => cases h
  | error e' =>
    cases h
    exact ⟨toOption_eq_some.mp hx, toOption_eq_some.mp hr⟩

theorem failed_stumbling : ∃ x y k₀, withKernel (.ofConfig exactConfig) exactConfig = .ok x ∧
    x.initialKernel stumbling.program = .ok (.ok k₀) ∧
    x.explore stumbling.program 30 = .ok (some (.error (.program 0 "boom"), y)) ∧
    y.kernel.encode ≠ k₀.encode := by
  have h : ∃ r ∈ failed? exactConfig stumbling.program 30, r.2.1 = .program 0 "boom" ∧
      ∃ initial ∈ (r.1.initialKernel stumbling.program).toOption, ∃ k₀ ∈ initial.toOption,
        r.2.2.kernel.encode.toOption ≠ k₀.encode.toOption := by
    decide +kernel
  obtain ⟨⟨x, e, y⟩, hr, rfl, initial, hinitial, k₀, hk₀, hdiffers⟩ := h
  obtain ⟨hx, hrun⟩ := failed?_eq_some hr
  refine ⟨x, y, k₀, hx, ?_, hrun, fun heq => hdiffers (congrArg Except.toOption heq)⟩
  rw [toOption_eq_some.mp hinitial, toOption_eq_some.mp hk₀]

theorem explore_leaves_stumbling : ∃ x y k, withKernel (.ofConfig exactConfig) exactConfig = .ok x ∧
    stumbling.program.init x.kernel = .ok (.ok (), k) ∧
    x.explore stumbling.program 30 = .ok (some (.error (.program 0 "boom"), y)) ∧
    ∃ trace c, x.Breaks stumbling.program trace c (.program 0 "boom") y.kernel := by
  obtain ⟨x, y, k₀, hx, hinitial, hrun, -⟩ := failed_stumbling
  obtain ⟨k, hinit⟩ := init_of_initialKernel hinitial
  exact ⟨x, y, k, hx, hinit, hrun, (explore_leaves hinit hrun).2 _ rfl⟩

theorem explore_strands_stumbling : ∃ x y k, withKernel (.ofConfig exactConfig) exactConfig = .ok x ∧
    stumbling.program.init x.kernel = .ok (.ok (), k) ∧
    x.explore stumbling.program 30 = .ok (some (.error (.program 0 "boom"), y)) ∧
    ¬ x.HoldsInitial stumbling.program y.kernel := by
  obtain ⟨x, y, k₀, hx, hinitial, hrun, hdiffers⟩ := failed_stumbling
  obtain ⟨k, hinit⟩ := init_of_initialKernel hinitial
  refine ⟨x, y, k, hx, hinit, hrun, ?_⟩
  rintro ⟨k₁, hk₁, hsnapshot⟩
  rw [hinitial] at hk₁
  cases hk₁
  exact hdiffers (Kernel.encode_eq_of_snapshot hsnapshot)

end Explorer

end Interleave
