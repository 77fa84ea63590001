import Interleave.Proofs.Encoding.Tracking
import Interleave.Proofs.Kernel.Effect

/-!
The cache of a serializer is never stale. Whatever is done to a state between two looks at it, the
signature that the serializer hands out is the one of the present encoding.
-/

namespace Interleave

namespace Kernel.Tracks

variable {k k' : Kernel}

theorem effect (h : k.Effect k') : k.Tracks k' := by
  cases h with
  | stirs h => exact stirs h
  | grows h => exact grows h
  | place build => exact onHeap (k.heap.tracks_place build)
  | put => exact onHeap (k.heap.tracks_put _ _)
  | collect h => exact onHeap (Heap.tracks_collect h)
  | threads threads => exact ⟨.refl _, .refl _ _, .next _ _ _, .refl _ _, .refl _ _⟩
  | _ => exact ⟨⟨.refl _ _, .refl _ _⟩, .refl _ _, .refl _ _, .refl _ _, .refl _ _⟩

theorem act {a : Action} {r : Answer} (h : k.act a = .ok (r, k')) : k.Tracks k' := by
  cases a with
  | restore m =>
    cases h
    exact ⟨⟨.next _ _ _, .next _ _ _⟩, .next _ _ _, .next _ _ _, .next _ _ _, .next _ _ _⟩
  | restoreHeap m =>
    cases h
    exact onHeap ⟨.next _ _ _, .next _ _ _⟩
  | _ => exact effect (act_effect rfl h)

end Kernel.Tracks

namespace Serializer

inductive Call where
  | act (a : Action)
  | fingerprint
  | prime

def call : Kernel × Serializer → Call → Except Fault (Kernel × Serializer)
  | (k, s), .act a => return ((← k.act a).2, s)
  | (k, s), .fingerprint => return (k, (← s.signature k).2)
  | (k, s), .prime => return (k, s.prime k (← k.signature))

def Fresh (k : Kernel) (s : Serializer) : Prop :=
  ∀ sig, s.cached = some sig →
    ∃ k₀ : Kernel, k₀.Tracks k ∧ k₀.signature = .ok sig ∧ s.cursor.seen = some k₀.epochs

theorem Fresh.signature_eq {k : Kernel} {s : Serializer} (h : Fresh k s) :
    (s.signature k).map Prod.fst = k.signature := by
  dsimp only [signature]
  split
  · next sig hcached hsame =>
    obtain ⟨k₀, htracks, hsig, hseen⟩ := h sig hcached
    -- nothing has changed since the signature was right
    have hepochs : k.epochs = k₀.epochs :=
      Option.some.inj ((Cursor.seen_of_poll hsame).symm.trans hseen)
    rw [Kernel.signature_eq_of_snapshot (htracks.snapshot_eq hepochs), hsig]
    rfl
  · cases k.signature <;> rfl

theorem cursor_signature {k : Kernel} {s s' : Serializer} {sig : Signature}
    (h : s.signature k = .ok (sig, s')) : s'.cursor.seen = some k.epochs ∧ s'.cached = some sig := by
  dsimp only [signature] at h
  split at h
  · next hcached _ =>
    cases h
    exact ⟨rfl, hcached⟩
  · obtain ⟨sig', -, h⟩ := bind_eq_ok.mp h
    cases h
    exact ⟨rfl, rfl⟩

theorem Fresh.call {k k' : Kernel} {s s' : Serializer} {c : Call} (h : Fresh k s)
    (hc : Serializer.call (k, s) c = .ok (k', s')) : Fresh k' s' := by
  cases c with
  | act a =>
    obtain ⟨⟨r, k₁⟩, ha, hc⟩ := bind_eq_ok.mp hc
    cases hc
    intro sig hcached
    obtain ⟨k₀, htracks, hrest⟩ := h sig hcached
    exact ⟨k₀, htracks.trans (.act ha), hrest⟩
  | fingerprint =>
    obtain ⟨⟨sig, s₁⟩, hsig, hc⟩ := bind_eq_ok.mp hc
    cases hc
    have hright : k.signature = .ok sig := by
      rw [← h.signature_eq, hsig]
      rfl
    obtain ⟨hseen, hcached⟩ := cursor_signature hsig
    intro sig' hcached'
    rw [hcached] at hcached'
    cases hcached'
    exact ⟨k, .refl k, hright, hseen⟩
  | prime =>
    obtain ⟨sig, hsig, hc⟩ := bind_eq_ok.mp hc
    cases hc
    intro sig' hcached'
    cases hcached'
    exact ⟨k, .refl k, hsig, rfl⟩

/-- However a state is used after a serializer has been attached to it, the serializer gives the
signature of the present encoding. -/
theorem signature_attached {k₀ k₁ k : Kernel} {s₀ s : Serializer} {calls : List Call}
    (hattach : attach k₀ = (.ok s₀, k₁)) (hcalls : calls.foldlM call (k₁, s₀) = .ok (k, s)) :
    (s.signature k).map Prod.fst = k.encode.map Signature.ofWords := by
  have hnone : s₀.cached = none := by
    unfold attach at hattach
    split at hattach
    · cases hattach
      rfl
    · cases hattach
  have hfresh : Fresh k s := by
    apply foldlM_induction (motive := fun p => Fresh p.1 p.2) hcalls
    · intro sig hcached
      rw [hnone] at hcached
      cases hcached
    · intro c _ p p' hp hp'
      exact hp.call hp'
  rw [hfresh.signature_eq]
  unfold Kernel.signature
  cases k.encode <;> rfl

theorem attach_eq {k : Kernel} (h : k.tracked = false) :
    attach k = (.ok {}, { k with tracked := true }) := by
  unfold attach Kernel.acquireTracker
  rw [h]
  rfl

def watched : Kernel :=
  (Kernel.withLimit none).performAll
    [.newArray .int 1 none none, .createThread "main" none none, .start 0 (.fresh 0 1)]

def watchedCalls : List Call :=
  [.fingerprint, .act (.perform (.lock 0 ⟨0⟩)), .fingerprint, .act (.perform (.beginAtomic 0)), .prime,
    .act (.restore watched.snapshot.1),
    .act (.modify ⟨0⟩ fun e => return (.done, { e with classId := 1 }))]

theorem signature_attached_watched :
    ∃ k s, watchedCalls.foldlM call ({ watched with tracked := true }, {}) = .ok (k, s) ∧
      s.cached.isSome = true ∧ (s.signature k).map Prod.fst = k.encode.map Signature.ofWords := by
  have htracked : watched.tracked = false := by decide +kernel
  have hsome : ((watchedCalls.foldlM call ({ watched with tracked := true }, {})).toOption.any
      (·.2.cached.isSome)) = true := by
    decide +kernel
  obtain ⟨⟨k, s⟩, hcalls, hcached⟩ := (Option.any_eq_true _ _).mp hsome
  rw [toOption_eq_some] at hcalls
  exact ⟨k, s, hcalls, hcached, signature_attached (attach_eq htracked) hcalls⟩

end Serializer

end Interleave
