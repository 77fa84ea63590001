import Interleave.Proofs.Box.Boxing
import Interleave.Proofs.Text.Interning

/-!
Boxes are canonical. As long as nobody else writes to the boxes, their arrays or the static fields that refer
to these, and nothing is put back, a value within the bounds is boxed by the same object again and again, and
no other value is.
-/

namespace Interleave

theorem Fields.getRef_eq_ok {f : Fields} {i : Nat} {r : Ref} :
    f.getRef i = .ok r ↔ f.values[i]? = some r.slot := by
  unfold getRef getInt
  cases f.values[i]? with
  | none => exact ⟨nofun, nofun⟩
  | some w =>
    rw [Option.some.injEq]
    constructor
    · intro h
      cases h
      rfl
    · rintro rfl
      rfl

theorem Element.IsBox.endures {r : Registry} {kind : BoxKind} {v : Int64} {e e' : Element}
    (he : e.IsBox r kind v) (h : e.Endures e') : e'.IsBox r kind v where
  desc := by
    rw [h.classId]
    exact he.desc
  isObject := h.kind.trans he.isObject
  read := by
    rw [h.fields]
    exact he.read
  weak := h.weak.trans he.weak

namespace Kernel

variable {k k' : Kernel} {b : BoxBounds} {kind kind' : BoxKind} {v v' : Int64} {r r' : Ref}

def boxParts (k : Kernel) : List Ref :=
  BoxKind.all.flatMap fun kind =>
    match k.boxArray? kind with
    | .ok (some array) => array :: ((k.heap.get? array).map (·.fields.values.toList.map Ref.mk)).getD []
    | _ => []

theorem mem_boxParts (hk : k.Hosts b) {array : Ref} {a : Element}
    (harray : k.caches.getRef kind.slot = .ok array) (ha : k.heap.get? array = some a) {o : Ref}
    (ho : o = array ∨ o.slot ∈ a.fields.values.toList) : o ∈ k.boxParts := by
  have hall : kind ∈ BoxKind.all := by cases kind <;> decide
  apply List.mem_flatMap.mpr
  refine ⟨kind, hall, ?_⟩
  rw [boxArray?_eq hk.conforms hk.reserved harray, Heap.isNull_of_get? ha]
  rw [if_neg nofun]
  dsimp only
  rw [ha, List.mem_cons]
  exact ho.imp id fun ho => List.mem_map.mpr ⟨o.slot, ho, rfl⟩

theorem BoxAt.keeps (hbox : k.BoxAt b kind v r) (hk : k.Hosts b) (hcaches : k'.caches = k.caches)
    (hle : k.classes.classes.toList <+: k'.classes.classes.toList) (hkeeps : Keeps (· ∈ k.boxParts) k k') :
    k'.BoxAt b kind v r := by
  obtain ⟨array, harray, a, e, ha, ⟨hweak, hrefs⟩, hr, he, hbox⟩ := hbox
  have hmem : r.slot ∈ a.fields.values.toList := by
    rw [Array.mem_toList_iff]
    exact Array.mem_of_getElem? (Fields.getRef_eq_ok.mp hr)
  obtain ⟨a', ha', henda⟩ := hkeeps array a (mem_boxParts hk harray ha (.inl rfl)) ha
  obtain ⟨e', he', hende⟩ := hkeeps r e (mem_boxParts hk harray ha (.inr hmem)) he
  refine ⟨array, by rw [hcaches]; exact harray, a', e', ha', ⟨?_, ?_⟩, ?_, he', ?_⟩
  · rw [henda.weak, hweak]
  · rw [henda.fields, hrefs]
  · rw [henda.fields, hr]
  · exact (hbox.endures hende).mono hle

theorem BoxAt.collect (hbox : k.BoxAt b kind v r) (hk : k.Hosts b) {c : Collection}
    (hc : k.heap.collect k.roots = .ok c) : { k with heap := c.heap }.BoxAt b kind v r := by
  obtain ⟨array, harray, a, e, ha, ⟨hweak, hrefs⟩, hr, he, hbox⟩ := hbox
  have hnull := Heap.isNull_of_get? ha
  obtain ⟨cls, s, -, hs, hcaches⟩ := loaded_of_caches harray hnull
  have hreference : s.fields.isReference kind.slot = true := by
    have hlt := hk.slot_lt kind
    have hfits := fits_caches hk.conforms hk.reserved
    rw [hcaches] at hlt hfits
    exact (hfits.isReference_iff hlt).mpr
      ⟨_, kind.mem_placed, rfl, Nat.le_refl _, Nat.lt_succ_self _⟩
  have hrefers : s.Refers array := by
    refine ⟨hnull, .inl ⟨kind.slot, Fields.holds_iff.mpr ⟨?_, hreference⟩⟩⟩
    rw [← hcaches]
    exact Fields.getRef_eq_ok.mp harray
  have htraces : a.Traces r := by
    have hvalue := Fields.getRef_eq_ok.mp hr
    refine ⟨Heap.isNull_of_get? he, .inl ⟨_, Fields.holds_iff.mpr ⟨hvalue, ?_⟩, ?_⟩⟩
    · unfold Fields.isReference
      rw [hrefs]
      exact decide_eq_true (Array.getElem?_eq_some_iff.mp hvalue).1
    · rw [hweak]
      exact nofun
  obtain ⟨i, hi, ha⟩ := Heap.get?_eq_some.mp ha
  obtain ⟨j, hj, he⟩ := Heap.get?_eq_some.mp he
  have hk := hk.built.sited.orderly
  have halive : k.Alive i := .static ((Arena.mem_elements _ _).mpr ⟨cls, hs⟩) hrefers
    (Heap.slot?_eq_some_iff.mpr ⟨hi, Arena.contains_of_get? ha⟩)
  have halive' : k.Alive j := .trace halive ha htraces
    (Heap.slot?_eq_some_iff.mpr ⟨hj, Arena.contains_of_get? he⟩)
  obtain ⟨a', ha', henda⟩ := halive.endures hk hc ha hweak
  obtain ⟨e', he', hende⟩ := halive'.endures hk hc he hbox.weak
  refine ⟨array, harray, a', e', Heap.get?_eq_some.mpr ⟨i, hi, ha'⟩, ⟨?_, ?_⟩, ?_,
    Heap.get?_eq_some.mpr ⟨j, hj, he'⟩, hbox.endures hende⟩
  · rw [henda.weak, hweak]
  · rw [henda.fields, hrefs]
  · rw [henda.fields, hr]

theorem Keeps.perform {p : Ref → Prop} {op : Op} (hk : k.Sited) (htouched : ∀ o ∈ op.touched, ¬ p o)
    (hroom : op.allocates = true → k.heap.size + 2 ≤ Heap.maxSize) (hcollect : op ≠ .collect)
    (h : k.perform op = .ok k') : Keeps p k k' := by
  cases hstirs : op.stirs with
  | true => exact (Leaves.stirs (perform_stirs hstirs False.elim h)).keeps
  | false =>
    by_cases hintern : ∃ text creator, op = .intern text creator
    · obtain ⟨text, creator, rfl⟩ := hintern
      obtain ⟨o, h⟩ := snd_eq_ok.mp h
      cases hnone : k.heap.interned? text with
      | some o' =>
        rw [internString_of_interned? hnone] at h
        cases h
        exact (Leaves.refl p k).keeps
      | none =>
        obtain ⟨entry, k₁, h₁, -, -, -, hkeeps⟩ := internString_new hk (hroom rfl)
          (knowsCreator_of_internString hnone h) hnone
        rw [h] at h₁
        cases h₁
        exact fun o e _ => hkeeps o e trivial
    · exact (Leaves.grow hstirs hcollect (fun text creator heq => hintern ⟨text, creator, heq⟩) htouched
        (fun hallocates => (hk.roomy (hroom hallocates)).mono (Nat.le_succ 1)) h).keeps

theorem classes_writeStatic {write : Fields → Nat → Except Fault Fields} {c : ClassId} {name : String}
    {r : Except KernelError Unit} (h : k.writeStatic write c name = .ok (r, k')) : k'.classes = k.classes := by
  unfold writeStatic at h
  obtain ⟨slot, -, h⟩ := bind_eq_ok.mp h
  split at h
  · cases h
    rfl
  · split at h
    · obtain ⟨e, -, h⟩ := bind_eq_ok.mp h
      cases h
      rfl
    · cases h
      rfl

end Kernel

def Op.staticOwner? : Op → Option ClassId
  | .writeStatic c _ _ => some c
  | _ => none

@[mk_iff]
structure Op.SparesBoxes (k : Kernel) (op : Op) : Prop where
  parts : ∀ o ∈ op.touched, o ∉ k.boxParts
  statics : ∀ c ∈ op.staticOwner?, k.classes.lookup? BoxKind.cachesClass.name ≠ some c
  room : op.allocates = true → k.heap.size + 2 ≤ Heap.maxSize

instance (k : Kernel) (op : Op) : Decidable (op.SparesBoxes k) :=
  decidable_of_iff' _ (Op.sparesBoxes_iff k op)

namespace Kernel

variable {k k' : Kernel} {b : BoxBounds} {kind kind' : BoxKind} {v v' : Int64} {r r' : Ref}

inductive BoxStep (b : BoxBounds) (k : Kernel) : Kernel → Prop where
  | perform {op : Op} {k' : Kernel} (hop : op.SparesBoxes k) (h : k.perform op = .ok k')
    (hr : k'.classes.ReservesBoxes) : BoxStep b k k'
  | adopt {other : Kernel} (hother : Built (fun _ _ => True) other) (hle : k.Precedes other)
    (hr : other.classes.ReservesBoxes) : BoxStep b k (k.adopt other)
  | box {t : ThreadId} {kind : BoxKind} {v : Int64} {r : Except KernelError Ref} {k' : Kernel}
    (ht : k.KnowsCreator (some t)) (hroom : k.heap.size + k.boxDemand b kind v ≤ Heap.maxSize)
    (h : k.box b t kind v = .ok (r, k')) : BoxStep b k k'

abbrev BoxSteps (b : BoxBounds) : Kernel → Kernel → Prop := Relation.ReflTransGen (BoxStep b)

/-- The states on paths on which values are boxed. No boxes are there at the start. -/
inductive BoxReached (b : BoxBounds) : Kernel → Prop where
  | start {k : Kernel} (hk : Built (fun _ _ => True) k) (hr : k.classes.ReservesBoxes)
    (hnone : ∀ kind, k.boxArray? kind = .ok none) : BoxReached b k
  | step {k k' : Kernel} (hk : BoxReached b k) (h : k.BoxStep b k') : BoxReached b k'
  | restore {k other : Kernel} (hk : BoxReached b k) (hother : BoxReached b other)
    (hle : other.Precedes k) : BoxReached b (k.restore other.snapshot.1)

theorem Hosts.transfer (hk : k.Hosts b) (hk' : Built (fun _ _ => True) k') (hr : k'.classes.ReservesBoxes)
    (hcaches : k'.caches = k.caches) (hstay : ∀ kind v r, k.BoxAt b kind v r → k'.BoxAt b kind v r) :
    k'.Hosts b where
  built := hk'
  reserved := hr
  filled := by
    intro kind array harray hnull v hv
    have hold := harray
    rw [hcaches] at hold
    obtain ⟨r, hin⟩ := hk.filled kind array hold hnull v hv
    obtain ⟨array', harray', hin'⟩ := hstay kind v r ⟨array, hold, hin⟩
    rw [harray] at harray'
    cases harray'
    exact ⟨r, hin'⟩

theorem BoxStep.hosts (h : k.BoxStep b k') (hk : k.Hosts b) :
    k'.Hosts b ∧ ∀ kind v r, k.BoxAt b kind v r → k'.BoxAt b kind v r := by
  cases h with
  | @perform op _ hop h hr =>
    have hbuilt := hk.built.perform trivial h
    have hle := (Lasts.effect (perform_effect h)).precedes.classes
    have hcaches : k'.caches = k.caches := by
      apply caches_eq hk.conforms (.built hbuilt) hr hle
      intro c hc
      apply (perform_change h).spares
      rintro name v rfl
      obtain ⟨_, h⟩ := snd_eq_ok.mp h
      rw [classes_writeStatic h] at hc
      exact hop.statics c rfl hc
    have hstay : ∀ kind v r, k.BoxAt b kind v r → k'.BoxAt b kind v r := by
      intro kind v r hbox
      by_cases hcollect : op = .collect
      · subst hcollect
        obtain ⟨stats, h⟩ := snd_eq_ok.mp h
        obtain ⟨c, hc, h⟩ := bind_eq_ok.mp h
        cases h
        exact hbox.collect hk hc
      · exact hbox.keeps hk hcaches hle (.perform hk.built.sited hop.parts hop.room hcollect h)
    exact ⟨hk.transfer hbuilt hr hcaches hstay, hstay⟩
  | @adopt other hother hle hr =>
    have hbuilt := hk.built.adopt hother hle
    have hcaches : (k.adopt other).caches = k.caches :=
      caches_eq hk.conforms (.built hbuilt) hr hle.classes fun _ _ => .inl rfl
    have hstay : ∀ kind v r, k.BoxAt b kind v r → (k.adopt other).BoxAt b kind v r := fun _ _ _ hbox =>
      hbox.keeps hk hcaches hle.classes fun _ e _ he => ⟨e, he, .refl e⟩
    exact ⟨hk.transfer hbuilt hr hcaches hstay, hstay⟩
  | box ht hroom h =>
    obtain ⟨r', k₁, h₁, hk₁, hstay, -⟩ := box_ok hk ht _ _ hroom
    rw [h] at h₁
    cases h₁
    exact ⟨hk₁, hstay⟩

theorem BoxReached.hosts (hk : k.BoxReached b) : k.Hosts b := by
  induction hk with
  | start hk hr hnone =>
    refine ⟨hk, hr, ?_⟩
    intro kind array harray hnull
    have hsome := (boxArray?_eq (.built hk) hr harray).symm.trans (hnone kind)
    rw [hnull] at hsome
    cases hsome
  | step _ h ih => exact (h.hosts ih).1
  | @restore k other _ _ hle ih ihother =>
    have hbuilt := ih.built.restore ihother.built hle
    have hcaches : (k.restore other.snapshot.1).caches = other.caches :=
      caches_eq ihother.conforms (.built hbuilt) ih.reserved hle.classes fun _ _ => .inl rfl
    apply ihother.transfer hbuilt ih.reserved hcaches
    intro kind v r hbox
    exact hbox.keeps ihother hcaches hle.classes fun _ e _ he => ⟨e, he, .refl e⟩

theorem BoxSteps.hosts (h : BoxSteps b k k') (hk : k.Hosts b) :
    k'.Hosts b ∧ ∀ kind v r, k.BoxAt b kind v r → k'.BoxAt b kind v r := by
  induction h with
  | refl => exact ⟨hk, fun _ _ _ => id⟩
  | tail _ h ih =>
    obtain ⟨hk', hstay⟩ := h.hosts ih.1
    exact ⟨hk', fun kind v r hbox => hstay kind v r (ih.2 kind v r hbox)⟩

namespace BoxAt

theorem unique (h : k.BoxAt b kind v r) (h' : k.BoxAt b kind v r') : r = r' := by
  obtain ⟨array, harray, a, -, ha, -, hr, -⟩ := h
  obtain ⟨array', harray', a', -, ha', -, hr', -⟩ := h'
  rw [harray] at harray'
  cases harray'
  rw [ha] at ha'
  cases ha'
  rw [hr] at hr'
  cases hr'
  rfl

theorem injective (h : k.BoxAt b kind v r) (h' : k.BoxAt b kind' v' r) (hv : kind.Has v)
    (hv' : kind'.Has v') : kind = kind' ∧ v = v' := by
  obtain ⟨-, -, -, e, -, -, -, he, hbox⟩ := h
  obtain ⟨-, -, -, e', -, -, -, he', hbox'⟩ := h'
  rw [he] at he'
  cases he'
  have hdesc := Option.some.inj (hbox.desc.symm.trans hbox'.desc)
  obtain rfl : kind = kind' := BoxKind.className_inj (congrArg ClassDescriptor.name hdesc)
  have hread := Except.ok.inj (hbox.read.symm.trans hbox'.read)
  exact ⟨rfl, BoxKind.slotValue_inj hv hv' hread⟩

theorem unbox (h : k.BoxAt b kind v r) (hv : kind.Has v) : k.unbox kind r = .ok (.ok v) := by
  obtain ⟨-, -, -, e, -, -, -, he, hbox⟩ := h
  exact unbox_of_isBox he hbox hv

end BoxAt

/-- Boxing always succeeds, and the box holds the value. Outside the bounds it is a new object. Within the
bounds it keeps holding the value, and whatever happens in between, it is returned for the same kind and value
again and for no other. -/
theorem BoxReached.box_canonical (hk : k.BoxReached b) (hb : b.validate = .ok ()) (t : ThreadId)
    (kind : BoxKind) (v : Int64) (ht : k.KnowsCreator (some t)) (hv : kind.Has v)
    (hroom : k.heap.size + k.boxDemand b kind v ≤ Heap.maxSize) :
    ∃ r k₁, k.box b t kind v = .ok (.ok r, k₁) ∧ k₁.unbox kind r = .ok (.ok v) ∧
      (¬ kind.Caches b v → k.heap.contains r = false) ∧
      (kind.Caches b v → ∀ k₂, BoxSteps b k₁ k₂ → k₂.unbox kind r = .ok (.ok v) ∧
        ∀ t' kind' v' r' k₃, kind'.Caches b v' → k₂.KnowsCreator (some t') →
          k₂.heap.size + k₂.boxDemand b kind' v' ≤ Heap.maxSize →
          k₂.box b t' kind' v' = .ok (.ok r', k₃) → (r' = r ↔ kind' = kind ∧ v' = v)) := by
  obtain ⟨r, k₁, h₁, hk₁, -, hcached, hnew, e, he, hbox⟩ := box_ok hk.hosts ht kind v hroom
  refine ⟨r, k₁, h₁, unbox_of_isBox he hbox hv, ?_, ?_⟩
  · intro hout
    unfold Heap.contains
    rw [hnew hout]
    rfl
  · intro hin k₂ hsteps
    obtain ⟨hk₂, hstay₂⟩ := BoxSteps.hosts hsteps hk₁
    have hr := hstay₂ kind v r (hcached hin)
    refine ⟨hr.unbox hv, ?_⟩
    intro t' kind' v' r' k₃ hin' ht' hroom' h₃
    obtain ⟨r'', k₃', h₃', -, hstay₃, hcached', -⟩ := box_ok hk₂ ht' kind' v' hroom'
    rw [h₃] at h₃'
    cases h₃'
    have hr := hstay₃ kind v r hr
    have hr' := hcached' hin'
    constructor
    · rintro rfl
      exact hr'.injective hr (BoxKind.has_of_caches hb hin') hv
    · rintro ⟨rfl, rfl⟩
      exact hr'.unique hr

def narrowBounds : BoxBounds := { longLow := -1, longHigh := 1 }

def unboxedState : Kernel := (Kernel.withLimit none).performAll [.createThread "main" none none]

def boxAndCollect (k : Kernel) (b : BoxBounds) (t : ThreadId) (kind : BoxKind) (v : Int64) :
    Except Fault Kernel := do
  let (_, k) ← k.box b t kind v
  k.perform .collect

theorem BoxReached.box_canonical_narrow :
    ∃ r k₁ k₂ k₃, unboxedState.box narrowBounds 0 .long (-1) = .ok (.ok r, k₁) ∧
      k₁.perform .collect = .ok k₂ ∧ k₂.box narrowBounds 0 .long (-1) = .ok (.ok r, k₃) := by
  have hstart : unboxedState.BoxReached narrowBounds := by
    refine .start ((Built.start none {}).performAll fun _ _ _ => trivial) (by decide +kernel) ?_
    have hnone : ∀ kind ∈ BoxKind.all, (unboxedState.boxArray? kind).toOption = some none := by
      decide +kernel
    intro kind
    exact toOption_eq_some.mp (hnone kind (by cases kind <;> decide))
  have ht : unboxedState.KnowsCreator (some 0) := by
    rintro t ⟨⟩
    decide +kernel
  have hafter : ((unboxedState.boxAndCollect narrowBounds 0 .long (-1)).toOption.any fun k =>
      decide (k.classes.ReservesBoxes) && (k.threads.get? 0).isSome &&
        decide (k.heap.size + k.boxDemand narrowBounds .long (-1) ≤ Heap.maxSize)) = true := by
    decide +kernel
  have hroom : unboxedState.heap.size + unboxedState.boxDemand narrowBounds .long (-1) ≤ Heap.maxSize := by
    decide +kernel
  obtain ⟨r, k₁, h₁, -, -, hcached⟩ := hstart.box_canonical (by decide +kernel) 0 .long (-1) ht (by decide) hroom
  obtain ⟨k₂, h₂, hfacts⟩ := (Option.any_eq_true _ _).mp hafter
  rw [Bool.and_eq_true, Bool.and_eq_true, decide_eq_true_eq, decide_eq_true_eq] at hfacts
  obtain ⟨⟨hr₂, ht₂⟩, hroom₂⟩ := hfacts
  obtain ⟨_, hbox, h₂⟩ := bind_eq_ok.mp (toOption_eq_some.mp h₂)
  rw [h₁] at hbox
  cases hbox
  have hcollect : k₁.BoxStep narrowBounds k₂ :=
    .perform ⟨by simp [Op.touched], by simp [Op.staticOwner?], by simp [Op.allocates]⟩ h₂ hr₂
  have ht₂ : k₂.KnowsCreator (some 0) := by
    rintro t ⟨⟩
    exact ht₂
  obtain ⟨r', k₃, h₃, -⟩ := ((hstart.step (.box ht hroom h₁)).step hcollect).box_canonical (by decide +kernel)
    0 .long (-1) ht₂ (by decide) hroom₂
  obtain rfl := ((hcached (by decide) k₂ (.single hcollect)).2 0 .long (-1) r' k₃ (by decide) ht₂ hroom₂
    h₃).mpr ⟨rfl, rfl⟩
  exact ⟨r', k₁, k₂, k₃, h₁, h₂, h₃⟩

end Kernel

end Interleave
