import Interleave.Proofs.Reference.Linked

/-!
The initialization of classes. A class that has been loaded stays so, and its status is the last one that
was asked for and not refused. A request is refused if it would lower the rank, and only then, so the rank
never goes down, but a thread may take the initialization over from another one.
-/

namespace Interleave

/-- The status after a request for `next`, which is refused if it would lower the rank. -/
def InitStatus.advance (current next : InitStatus) : InitStatus :=
  if next.rank < current.rank then current else next

namespace InitStatus

theorem rank_le_advance (current next : InitStatus) : current.rank ≤ (current.advance next).rank := by
  unfold advance
  split
  · exact Nat.le_refl _
  · next h => exact Nat.le_of_not_lt h

theorem rank_le_foldl_advance (current : InitStatus) (requests : List InitStatus) :
    current.rank ≤ (requests.foldl advance current).rank := by
  induction requests generalizing current with
  | nil => exact Nat.le_refl _
  | cons next requests ih => exact Nat.le_trans (current.rank_le_advance next) (ih _)

theorem foldl_advance_mem (current : InitStatus) (requests : List InitStatus) :
    requests.foldl advance current = current ∨ requests.foldl advance current ∈ requests := by
  induction requests generalizing current with
  | nil => exact .inl rfl
  | cons next requests ih =>
    rw [List.foldl_cons]
    rcases ih (current.advance next) with h | h
    · rw [h]
      unfold advance
      split
      · exact .inl rfl
      · exact .inr (.head _)
    · exact .inr (.tail _ h)

end InitStatus

namespace Statics

variable {s s' s'' : Statics} {c : ClassId}

theorem status?_eq_some {status : InitStatus} :
    s.status? c = some status ↔
      ∃ e classObject, s.get? c = some e ∧ e.kind = .static status classObject := by
  unfold status?
  constructor
  · intro h
    split at h
    · next e he =>
      split at h
      · next classObject hkind =>
        cases h
        exact ⟨e, classObject, he, hkind⟩
      · cases h
    · cases h
  · rintro ⟨e, classObject, he, hkind⟩
    rw [he]
    dsimp only
    rw [hkind]

theorem status?_congr (h : (s'.get? c).map (·.kind) = (s.get? c).map (·.kind)) :
    s'.status? c = s.status? c := by
  unfold status?
  cases he : s.get? c with
  | none =>
    rw [he, Option.map_none, Option.map_eq_none_iff] at h
    rw [h]
  | some e =>
    rw [he, Option.map_some, Option.map_eq_some_iff] at h
    obtain ⟨e', he', hkind⟩ := h
    rw [he']
    dsimp only
    rw [hkind]

theorem status?_putStatus {current : InitStatus} (h : s.status? c = some current) (next : InitStatus)
    (c' : ClassId) : (s.putStatus c next).status? c' = if c = c' then some next else s.status? c' := by
  obtain ⟨e, classObject, he, hkind⟩ := status?_eq_some.mp h
  have hput : s.putStatus c next = s.put c { e with kind := .static next classObject } := by
    unfold putStatus
    rw [he]
    dsimp only
    rw [hkind]
  rw [hput]
  split
  · next hc =>
    subst hc
    refine status?_eq_some.mpr ⟨{ e with kind := .static next classObject }, classObject, ?_, rfl⟩
    rw [get?_put, if_pos rfl, he]
    rfl
  · next hc =>
    apply status?_congr
    rw [get?_put, if_neg hc]

theorem setStatus_of_lt {current next : InitStatus} (h : s.status? c = some current)
    (hrank : next.rank < current.rank) :
    s.setStatus c next = .error (.initRegression c current next) := by
  unfold setStatus
  rw [h]
  exact if_pos hrank

theorem setStatus_of_le {current next : InitStatus} (h : s.status? c = some current)
    (hrank : current.rank ≤ next.rank) :
    ∃ s', s.setStatus c next = .ok s' ∧
      ∀ c', s'.status? c' = if c = c' then some next else s.status? c' := by
  unfold setStatus
  rw [h]
  dsimp only
  rw [if_neg (Nat.not_lt.mpr hrank)]
  split
  · next hsame =>
    subst hsame
    refine ⟨s, rfl, ?_⟩
    intro c'
    split
    · next hc => rw [← hc, h]
    · rfl
  · exact ⟨_, rfl, status?_putStatus h next⟩

def Loads (s s' : Statics) : Prop :=
  ∀ c, s'.status? c = s.status? c ∨ s.status? c = none ∧ s'.status? c = some .uninitialized

namespace Loads

theorem of_eq (h : s'.get? = s.get?) : s.Loads s' := by
  intro c
  left
  apply status?_congr
  rw [h]

theorem addClass (s : Statics) (desc : ClassDescriptor) (gid : GlobalId) (classObject : Ref) :
    s.Loads (s.addClass desc gid classObject) := by
  intro c
  unfold Statics.addClass
  split
  · exact .inl rfl
  · next hfree =>
    by_cases hc : desc.id = c
    · subst hc
      have hget : s.get? desc.id = none := Arena.get?_eq_none_of_not_contains (Bool.eq_false_iff.mpr hfree)
      right
      constructor
      · unfold status?
        rw [hget]
      · exact status?_eq_some.mpr ⟨_, classObject, (s.arena.get?_insert ..).trans (if_pos rfl), rfl⟩
    · left
      apply status?_congr
      exact congrArg _ ((s.arena.get?_insert ..).trans (if_neg hc))

theorem put {e e' : Element} (he : s.get? c = some e) (hkind : e'.kind = e.kind) :
    s.Loads (s.put c e') := by
  intro c'
  left
  apply status?_congr
  rw [get?_put]
  split
  · next hc =>
    subst hc
    rw [he, Option.map_some, Option.map_some, hkind, Option.map_some]
  · rfl

end Loads

inductive Change (op : Op) (s s' : Statics) : Prop where
  | same (h : s'.get? = s.get?)
  | load (desc : ClassDescriptor) (gid : GlobalId) (classObject : Ref)
    (h : s' = s.addClass desc gid classObject)
  | status {c : ClassId} {status : InitStatus} {e : Element} {classObject : Ref}
    (hop : op = .setStatus c status) (he : s.get? c = some e)
    (h : s' = s.put c { e with kind := .static status classObject })
  | write {c : ClassId} {name : String} {v : SlotValue} {e : Element} {fields : Fields}
    (hop : op = .writeStatic c name v) (he : s.get? c = some e) (h : s' = s.put c { e with fields })

theorem Change.of_eq {op : Op} (h : s' = s) : Change op s s' := .same (by rw [h])

end Statics

namespace Kernel

variable {k k' : Kernel}

theorem Parts.statics {op : Op} {proper : Prop} (hop : op.changesStatics = false) (h : Parts op proper k k') :
    k'.statics.get? = k.statics.get? := by
  induction h with
  | refl => rfl
  | tail _ h ih =>
    rw [← ih]
    cases h with
    | name h =>
      obtain ⟨thread, -, -, rfl⟩ := newGlobalId_eq_ok.mp h
      rfl
    | object h =>
      obtain ⟨thread, -, -, rfl⟩ := newGlobalId_eq_ok.mp h
      rfl
    | thread _ h =>
      obtain ⟨thread, -, -, rfl⟩ := newGlobalId_eq_ok.mp h
      rfl
    | load heq =>
      rw [heq] at hop
      cases hop
    | writeStatic heq =>
      rw [heq] at hop
      cases hop
    | collect _ h =>
      obtain ⟨c, -, h⟩ := bind_eq_ok.mp h
      cases h
      rfl
    | _ => rfl

theorem change_loadClass {op : Op} {c : ClassId} (h : k.loadClass c = .ok k') :
    Statics.Change op k.statics k'.statics := by
  unfold loadClass at h
  split at h
  · cases h
    exact .of_eq rfl
  · obtain ⟨desc, -, h⟩ := bind_eq_ok.mp h
    obtain ⟨classDesc, -, h⟩ := bind_eq_ok.mp h
    cases h
    exact .load desc _ _ rfl

theorem perform_change {op : Op} (h : k.perform op = .ok k') : Statics.Change op k.statics k'.statics := by
  cases hs : op.stirs with
  | true => exact .of_eq (perform_stirs hs False.elim h).slots.1
  | false =>
    cases hop : op.changesStatics with
    | false => exact .same ((@perform_parts op False _ _ hs h False.elim False.elim).statics hop)
    | true =>
      cases op with
      | load c => exact change_loadClass h
      | loadNamed name =>
        obtain ⟨r, h⟩ := snd_eq_ok.mp h
        unfold loadClassNamed at h
        split at h
        · cases h
          exact .of_eq rfl
        · obtain ⟨k₁, h₁, h⟩ := bind_eq_ok.mp h
          cases h
          exact change_loadClass h₁
      | setStatus c status =>
        cases h
        obtain h | ⟨e, _, _, he, -, h⟩ := k.setClassStatus_cases c status
        · rw [h]
          exact .of_eq rfl
        · rw [h]
          exact .status rfl he rfl
      | writeStatic c name v =>
        obtain ⟨r, h⟩ := snd_eq_ok.mp h
        unfold writeStatic at h
        obtain ⟨slot, -, h⟩ := bind_eq_ok.mp h
        split at h
        · cases h
          exact .of_eq rfl
        · split at h
          · next e he =>
            obtain ⟨e', he', h⟩ := bind_eq_ok.mp h
            obtain ⟨fields, -, he'⟩ := bind_eq_ok.mp he'
            cases he'
            cases h
            exact .write rfl he rfl
          · cases h
            exact .of_eq rfl
      | _ => cases hop

theorem perform_loads {op : Op} (hop : ∀ c status, op ≠ .setStatus c status)
    (h : k.perform op = .ok k') : k.statics.Loads k'.statics := by
  cases perform_change h with
  | same h => exact .of_eq h
  | load desc gid classObject h =>
    rw [h]
    exact .addClass k.statics desc gid classObject
  | status heq => exact absurd heq (hop _ _)
  | write _ he h =>
    rw [h]
    exact .put he rfl

end Kernel

def Action.request? (c : ClassId) : Action → Option InitStatus
  | .perform (.setStatus c' status) => if c' = c then some status else none
  | _ => none

def Action.requests (c : ClassId) (as : List Action) : List InitStatus := as.filterMap (·.request? c)

theorem Action.mem_requests {c : ClassId} {as : List Action} {status : InitStatus} :
    status ∈ requests c as ↔ .perform (.setStatus c status) ∈ as := by
  unfold requests
  rw [List.mem_filterMap]
  constructor
  · rintro ⟨a, ha, hreq⟩
    unfold request? at hreq
    split at hreq
    · split at hreq
      · next hc =>
        cases hreq
        exact hc ▸ ha
      · cases hreq
    · cases hreq
  · intro ha
    exact ⟨_, ha, if_pos rfl⟩

namespace Kernel

variable {k k' : Kernel} {c : ClassId} {current : InitStatus}

theorem act_loads {a : Action} {r : Answer} (ha : a.restores = false)
    (hreq : ∀ c status, a ≠ .perform (.setStatus c status)) (h : k.act a = .ok (r, k')) :
    k.statics.Loads k'.statics := by
  cases a with
  | perform op =>
    apply perform_loads _ (perform_eq_ok.mpr ⟨r, h⟩)
    rintro c status rfl
    exact hreq c status rfl
  | restore | restoreHeap => cases ha
  | ask | collectFrom | addThread =>
    obtain ⟨_, -, h⟩ := bind_eq_ok.mp h
    cases h
    exact .of_eq rfl
  | modify | modifyThread =>
    obtain ⟨_, -, h⟩ := bind_eq_ok.mp h
    obtain ⟨_, -, h⟩ := bind_eq_ok.mp h
    cases h
    exact .of_eq rfl
  | intern | observe | allocate | allocateArray | captureHeap | restoreThreads =>
    cases h
    exact .of_eq rfl

theorem act_setStatus (k : Kernel) (c : ClassId) (next : InitStatus) :
    k.act (.perform (.setStatus c next)) =
      .ok (match k.statics.setStatus c next with
        | .error e => (.refused e, k)
        | .ok statics => (.done, { k with statics })) := by
  show Except.ok (Answer.ofAttempt (fun _ => .done) (k.setClassStatus c next).1,
    (k.setClassStatus c next).2) = _
  unfold setClassStatus
  cases k.statics.setStatus c next <;> rfl

theorem act_setStatus_of_lt (hc : k.statics.status? c = some current) {next : InitStatus}
    (hrank : next.rank < current.rank) :
    k.act (.perform (.setStatus c next)) = .ok (.refused (.initRegression c current next), k) := by
  rw [act_setStatus, Statics.setStatus_of_lt hc hrank]

theorem act_setStatus_of_le (hc : k.statics.status? c = some current) {next : InitStatus}
    (hrank : current.rank ≤ next.rank) :
    ∃ k', k.act (.perform (.setStatus c next)) = .ok (.done, k') ∧
      ∀ c', k'.statics.status? c' = if c = c' then some next else k.statics.status? c' := by
  obtain ⟨statics, hok, hstatus⟩ := Statics.setStatus_of_le hc hrank
  rw [act_setStatus, hok]
  exact ⟨_, rfl, hstatus⟩

theorem act_setStatus_of_none {next : InitStatus} (hc : k.statics.status? c = none) :
    k.act (.perform (.setStatus c next)) = .ok (.refused (.classNotLoaded c.label), k) := by
  rw [act_setStatus]
  unfold Statics.setStatus
  rw [hc]
  rfl

theorem status?_act_setStatus {c' : ClassId} {next : InitStatus} {r : Answer}
    (h : k.act (.perform (.setStatus c' next)) = .ok (r, k')) :
    k'.statics.status? c =
      if c' = c then (k.statics.status? c).map (·.advance next) else k.statics.status? c := by
  cases hc' : k.statics.status? c' with
  | none =>
    rw [act_setStatus_of_none hc'] at h
    cases h
    split
    · next hc =>
      rw [← hc, hc']
      rfl
    · rfl
  | some current =>
    by_cases hrank : next.rank < current.rank
    · rw [act_setStatus_of_lt hc' hrank] at h
      cases h
      split
      · next hc =>
        rw [← hc, hc', Option.map_some, InitStatus.advance, if_pos hrank]
      · rfl
    · obtain ⟨k₁, hk₁, hstatus⟩ := act_setStatus_of_le hc' (Nat.le_of_not_lt hrank)
      rw [hk₁] at h
      cases h
      rw [hstatus]
      split
      · next hc =>
        rw [← hc, hc', Option.map_some, InitStatus.advance, if_neg hrank]
      · rfl

theorem act_status {a : Action} {r : Answer} (ha : a.restores = false) (h : k.act a = .ok (r, k'))
    (hc : k.statics.status? c = some current) :
    k'.statics.status? c = some ((a.request? c).elim current current.advance) := by
  by_cases hreq : ∃ c' next, a = .perform (.setStatus c' next)
  · obtain ⟨c', next, rfl⟩ := hreq
    rw [status?_act_setStatus h]
    unfold Action.request?
    dsimp only
    split
    · rw [hc]
      rfl
    · exact hc
  · have hnone : a.request? c = none := by
      unfold Action.request?
      split
      · exact absurd ⟨_, _, rfl⟩ hreq
      · rfl
    rw [hnone]
    rcases act_loads ha (fun c' next ha => hreq ⟨c', next, ha⟩) h c with hsame | ⟨hnew, -⟩
    · rw [hsame, hc]
      rfl
    · rw [hc] at hnew
      cases hnew

theorem act_status_of_none {a : Action} {r : Answer} (ha : a.restores = false)
    (h : k.act a = .ok (r, k')) (hc : k.statics.status? c = none) :
    k'.statics.status? c = none ∨ k'.statics.status? c = some .uninitialized := by
  by_cases hreq : ∃ c' next, a = .perform (.setStatus c' next)
  · obtain ⟨c', next, rfl⟩ := hreq
    left
    rw [status?_act_setStatus h, hc]
    split <;> rfl
  · rcases act_loads ha (fun c' next ha => hreq ⟨c', next, ha⟩) h c with hsame | ⟨-, hnew⟩
    · exact .inl (hsame.trans hc)
    · exact .inr hnew

theorem run_status {as : List Action} {rs : List Answer} (has : ∀ a ∈ as, a.restores = false)
    (h : k.run as = .ok (rs, k')) (hc : k.statics.status? c = some current) :
    k'.statics.status? c = some ((Action.requests c as).foldl .advance current) := by
  induction as generalizing k current rs with
  | nil =>
    cases h
    exact hc
  | cons a as ih =>
    obtain ⟨r, k₁, rs', h₁, h, -⟩ := run_cons.mp h
    have hc₁ := act_status (has a (.head _)) h₁ hc
    rw [ih (fun a ha => has a (.tail _ ha)) h hc₁]
    unfold Action.requests
    rw [List.filterMap_cons]
    cases a.request? c <;> rfl

/-- Initialization only moves to higher ranks, from where it stands after loading. A thread that is at it
loses it to another one if and only if that is asked for. -/
theorem initialization_advances (k : Kernel) (c : ClassId) :
    (∀ a r k', a.restores = false → k.act a = .ok (r, k') → k.statics.status? c = none →
      k'.statics.status? c = none ∨ k'.statics.status? c = some .uninitialized) ∧
    ∀ current, k.statics.status? c = some current →
      (∀ next : InitStatus, next.rank < current.rank →
        k.act (.perform (.setStatus c next)) = .ok (.refused (.initRegression c current next), k)) ∧
      (∀ next : InitStatus, current.rank ≤ next.rank →
        ∃ k', k.act (.perform (.setStatus c next)) = .ok (.done, k') ∧
          ∀ c', k'.statics.status? c' = if c = c' then some next else k.statics.status? c') ∧
      ∀ as rs k', (∀ a ∈ as, a.restores = false) → k.run as = .ok (rs, k') →
        ∃ later, k'.statics.status? c = some later ∧
          later = (Action.requests c as).foldl .advance current ∧ current.rank ≤ later.rank ∧
          ∀ t u, current = .inProgress t → later = .inProgress u →
            u = t ∨ .perform (.setStatus c (.inProgress u)) ∈ as := by
  refine ⟨fun a r k' => act_status_of_none, ?_⟩
  intro current hc
  refine ⟨fun next => act_setStatus_of_lt hc, fun next => act_setStatus_of_le hc, ?_⟩
  intro as rs k' has h
  refine ⟨_, run_status has h hc, rfl, current.rank_le_foldl_advance _, ?_⟩
  rintro t u rfl hu
  rcases InitStatus.foldl_advance_mem (.inProgress t) (Action.requests c as) with hsame | hmem
  · rw [hsame] at hu
    cases hu
    exact .inl rfl
  · rw [hu] at hmem
    exact .inr (Action.mem_requests.mp hmem)

def contested : Kernel :=
  (withLimit none).performAll
    [.register { name := "Shared" }, .load 3, .createThread "first" none none,
      .createThread "second" none none, .setStatus 3 (.inProgress 0)]

theorem initialization_advances_contested :
    contested.statics.status? 3 = some (.inProgress 0) ∧
      ∃ rs k', contested.run
        [.ask (.checkInitialized 3 1), .perform (.setStatus 3 .uninitialized), .perform .collect,
          .perform (.setStatus 3 .initialized), .perform (.setStatus 3 (.inProgress 1)),
          .perform (.load 3)] = .ok (rs, k') ∧
        k'.statics.status? 3 = some .initialized := by
  have hc : contested.statics.status? 3 = some (.inProgress 0) := by decide +kernel
  have hrun : (contested.run
      [.ask (.checkInitialized 3 1), .perform (.setStatus 3 .uninitialized), .perform .collect,
        .perform (.setStatus 3 .initialized), .perform (.setStatus 3 (.inProgress 1)),
        .perform (.load 3)]).toOption.isSome = true := by decide +kernel
  obtain ⟨⟨rs, k'⟩, hrun⟩ := Option.isSome_iff_exists.mp hrun
  obtain ⟨later, hlater, hfold, -⟩ := ((initialization_advances contested 3).2 _ hc).2.2 _ rs k'
    (by simp [Action.restores]) (toOption_eq_some.mp hrun)
  exact ⟨hc, rs, k', toOption_eq_some.mp hrun, hlater.trans (congrArg some hfold)⟩

theorem initialization_taken_over :
    contested.Reachable ∧ contested.statics.status? 3 = some (.inProgress 0) ∧
      ∃ k', contested.run [.perform (.setStatus 3 (.inProgress 1))] = .ok ([.done], k') ∧
        k'.statics.status? 3 = some (.inProgress 1) ∧
        k'.statics.checkInitialized 3 1 = .ready ∧ k'.statics.checkInitialized 3 0 = .initializingBy 1 := by
  have hc : contested.statics.status? 3 = some (.inProgress 0) := by decide +kernel
  have hrank : (InitStatus.inProgress 0).rank ≤ (InitStatus.inProgress 1).rank := Nat.le_refl _
  obtain ⟨k', h, hstatus⟩ := act_setStatus_of_le hc hrank
  have hstatus : k'.statics.status? 3 = some (.inProgress 1) := hstatus 3
  refine ⟨Reachable.performAll (.start ..) _, hc, k', ?_, hstatus, ?_, ?_⟩
  · exact run_cons.mpr ⟨.done, k', [], h, rfl, rfl⟩
  · unfold Statics.checkInitialized
    rw [hstatus]
    rfl
  · unfold Statics.checkInitialized
    rw [hstatus]
    rfl

end Kernel

end Interleave
