/-!
Taking computations that may fail apart.
-/

namespace Interleave

theorem ok_bind {ε α β : Type} (a : α) (f : α → Except ε β) : (Except.ok a >>= f) = f a := rfl

theorem bind_eq_ok {ε α β : Type} {x : Except ε α} {f : α → Except ε β} {b : β} :
    x >>= f = .ok b ↔ ∃ a, x = .ok a ∧ f a = .ok b := by
  cases x with
  | error e => simp [bind, Except.bind]
  | ok a => simp [bind, Except.bind]

theorem snd_eq_ok {ε α β : Type} {x : Except ε (α × β)} {b : β} :
    (x >>= fun p => pure p.2) = .ok b ↔ ∃ a, x = .ok (a, b) := by
  rw [bind_eq_ok]
  constructor
  · intro ⟨⟨a, b'⟩, hx, hb⟩
    cases hb
    exact ⟨a, hx⟩
  · intro ⟨a, hx⟩
    exact ⟨(a, b), hx, rfl⟩

theorem bind_eq_map {ε α α' β β' : Type} {x : Except ε α} {x' : Except ε α'} {f : α → α'}
    {g : α → Except ε β} {g' : α' → Except ε β'} {h : β → β'} (hx : x' = x.map f)
    (hg : ∀ a, x = .ok a → g' (f a) = (g a).map h) : x' >>= g' = (x >>= g).map h := by
  subst hx
  cases x with
  | error e => rfl
  | ok a => exact hg a rfl

theorem toOption_eq_some {ε α : Type} {x : Except ε α} {a : α} :
    x.toOption = some a ↔ x = .ok a := by
  cases x <;> simp [Except.toOption]

theorem forM_eq_ok {α ε : Type} {f : α → Except ε Unit} {l : List α} (h : l.forM f = .ok ()) :
    ∀ a ∈ l, f a = .ok () := by
  induction l with
  | nil => exact nofun
  | cons a l ih =>
    obtain ⟨_, ha, h⟩ := bind_eq_ok.mp h
    intro a' ha'
    rcases List.mem_cons.mp ha' with rfl | ha'
    · exact ha
    · exact ih h a' ha'

theorem foldlM_induction {ε α β : Type} {f : β → α → Except ε β} {motive : β → Prop} {l : List α}
    {b b' : β} (h : l.foldlM f b = .ok b') (hb : motive b)
    (step : ∀ a ∈ l, ∀ b b', motive b → f b a = .ok b' → motive b') : motive b' := by
  induction l generalizing b with
  | nil =>
    cases h
    exact hb
  | cons a l ih =>
    rw [List.foldlM_cons, bind_eq_ok] at h
    obtain ⟨b₁, h₁, h₂⟩ := h
    apply ih h₂ (step a (by simp) b b₁ hb h₁)
    intro a ha
    exact step a (by simp [ha])

theorem foldlM_ok {ε α β : Type} {f : β → α → Except ε β} {motive : β → Prop} {l : List α} {b : β}
    (hb : motive b) (step : ∀ a b, motive b → ∃ b', f b a = .ok b' ∧ motive b') :
    ∃ b', l.foldlM f b = .ok b' := by
  induction l generalizing b with
  | nil => exact ⟨b, rfl⟩
  | cons a l ih =>
    obtain ⟨b₁, h₁, hb₁⟩ := step a b hb
    obtain ⟨b', h'⟩ := ih hb₁
    exact ⟨b', by rw [List.foldlM_cons, h₁, ok_bind, h']⟩

theorem foldlM_eq_self {ε α β : Type} {f : β → α → Except ε β} {l : List α} {b : β}
    (h : ∀ a ∈ l, f b a = .ok b) : l.foldlM f b = .ok b := by
  induction l with
  | nil => rfl
  | cons a l ih =>
    rw [List.foldlM_cons, h a List.mem_cons_self, ok_bind]
    exact ih fun a ha => h a (List.mem_cons_of_mem _ ha)

def Ensures {ε α : Type} (p : α → Prop) (x : Except ε α) : Prop := ∀ a, x = .ok a → p a

namespace Ensures

variable {ε α β : Type} {p : α → Prop} {q : β → Prop}

protected theorem pure {a : α} (h : p a) : Ensures p (pure a : Except ε α) := by
  intro a' ha'
  cases ha'
  exact h

theorem after {x : Except ε α} {f : α → Except ε β} (hf : ∀ a, x = .ok a → Ensures q (f a)) :
    Ensures q (x >>= f) := by
  intro b hb
  obtain ⟨a, ha, hb⟩ := bind_eq_ok.mp hb
  exact hf a ha b hb

protected theorem bind {x : Except ε α} {f : α → Except ε β} (hx : Ensures p x)
    (hf : ∀ a, p a → Ensures q (f a)) : Ensures q (x >>= f) :=
  after fun a ha => hf a (hx a ha)

protected theorem ite {c : Prop} [Decidable c] {x y : Except ε α} (hx : Ensures p x) (hy : Ensures p y) :
    Ensures p (if c then x else y) := by
  split
  · exact hx
  · exact hy

protected theorem foldlM {f : α → β → Except ε α} (hf : ∀ a b, p a → Ensures p (f a b)) {l : List β} {a : α}
    (ha : p a) : Ensures p (l.foldlM f a) := by
  intro a' ha'
  apply foldlM_induction ha' ha
  intro b _ a₁ a₂ ha₁ ha₂
  exact hf a₁ b ha₁ a₂ ha₂

end Ensures

def FailsOnly {ε α : Type} (p : ε → Prop) (x : Except ε α) : Prop := ∀ e, x = .error e → p e

namespace FailsOnly

variable {ε α β : Type} {p : ε → Prop}

theorem ok (p : ε → Prop) (a : α) : FailsOnly p (.ok a) := nofun

theorem error {e : ε} (he : p e) : FailsOnly p (.error e : Except ε α) := by
  intro e' he'
  cases he'
  exact he

protected theorem bind {x : Except ε α} {f : α → Except ε β} (hx : FailsOnly p x)
    (hf : ∀ a, FailsOnly p (f a)) : FailsOnly p (x >>= f) := by
  cases x with
  | ok a => exact hf a
  | error e => exact error (hx e rfl)

protected theorem map {x : Except ε α} (hx : FailsOnly p x) (f : α → β) :
    FailsOnly p (x >>= fun a => pure (f a)) :=
  hx.bind fun a => ok p (f a)

protected theorem foldlM {f : β → α → Except ε β} (hf : ∀ b a, FailsOnly p (f b a)) (l : List α) (b : β) :
    FailsOnly p (l.foldlM f b) := by
  induction l generalizing b with
  | nil => exact ok p b
  | cons a l ih =>
    rw [List.foldlM_cons]
    exact (hf b a).bind ih

end FailsOnly

def Follows {ε α β : Type} (R : α → β → Prop) (x : Except ε α) (y : Except ε β) : Prop :=
  ∀ a, x = .ok a → ∃ b, y = .ok b ∧ R a b

namespace Follows

variable {ε α β γ δ : Type} {R : α → β → Prop} {S : γ → δ → Prop}

protected theorem pure {a : α} {b : β} (h : R a b) : Follows R (.ok a : Except ε α) (.ok b) := by
  intro a' ha'
  cases ha'
  exact ⟨b, rfl, h⟩

theorem same (x : Except ε α) : Follows Eq x x := fun a ha => ⟨a, ha, rfl⟩

protected theorem bind {x : Except ε α} {y : Except ε β} {f : α → Except ε γ} {g : β → Except ε δ}
    (h : Follows R x y) (hf : ∀ a b, R a b → Follows S (f a) (g b)) :
    Follows S (x >>= f) (y >>= g) := by
  intro c hc
  obtain ⟨a, ha, hc⟩ := bind_eq_ok.mp hc
  obtain ⟨b, hb, hab⟩ := h a ha
  obtain ⟨d, hd, hcd⟩ := hf a b hab c hc
  exact ⟨d, bind_eq_ok.mpr ⟨b, hb, hd⟩, hcd⟩

theorem after {x : Except ε α} {f : α → Except ε γ} {g : α → Except ε δ}
    (hf : ∀ a, Follows S (f a) (g a)) : Follows S (x >>= f) (x >>= g) := by
  apply (same x).bind
  rintro a _ rfl
  exact hf a

protected theorem foldlM {τ : Type} {f : α → τ → Except ε α} {g : β → τ → Except ε β} {l : List τ}
    (step : ∀ t a b, R a b → Follows R (f a t) (g b t)) {a : α} {b : β} (h : R a b) :
    Follows R (l.foldlM f a) (l.foldlM g b) := by
  induction l generalizing a b with
  | nil => exact .pure h
  | cons t l ih =>
    rw [List.foldlM_cons, List.foldlM_cons]
    apply (step t a b h).bind
    intro a' b' h'
    exact ih h'

end Follows

end Interleave
