import Interleave.Proofs.Box.Filling

/-!
Boxing. As long as there is room for what it may have to make, boxing a value succeeds. Within the bounds it
returns what the array of the kind holds for the value, outside a new box.
-/

namespace Interleave

theorem BoxKind.getRef_blank (kind : BoxKind) :
    (Fields.ofMask cachesClass.statics.refMask).getRef kind.slot = .ok .null := by
  cases kind <;> rfl

theorem Statics.exists_addClass (s : Statics) (desc : ClassDescriptor) (gid : GlobalId) (classObject : Ref) :
    ∃ e, (s.addClass desc gid classObject).get? desc.id = some e := by
  unfold addClass
  split
  · next hloaded => exact (Arena.contains_iff _ _).mp hloaded
  · exact ⟨_, (s.arena.get?_insert ..).trans (if_pos rfl)⟩

namespace Kernel

variable {k k' : Kernel} {b : BoxBounds} {kind kind' : BoxKind} {v v' : Int64} {r r' array : Ref}

def BoxAt (k : Kernel) (b : BoxBounds) (kind : BoxKind) (v : Int64) (r : Ref) : Prop :=
  ∃ array, k.caches.getRef kind.slot = .ok array ∧ k.BoxIn b array kind v r

structure Hosts (b : BoxBounds) (k : Kernel) : Prop where
  built : Built (fun _ _ => True) k
  reserved : k.classes.ReservesBoxes
  filled : ∀ kind array, k.caches.getRef kind.slot = .ok array → array.isNull = false →
    ∀ v, kind.Caches b v → ∃ r, k.BoxIn b array kind v r

theorem Adds.caches {p : Ref → Prop} {n : Nat} (h : Adds p n k k') (hk : Built (fun _ _ => True) k)
    (hr : k.classes.ReservesBoxes) : k'.caches = k.caches :=
  caches_eq (.built hk) (.built (h.built hk)) (h.reserved hr) h.classes fun c _ => h.statics c

theorem BoxAt.adds {n : Nat} (hbox : k.BoxAt b kind v r) (hk : k.Hosts b)
    (h : Adds (fun _ => True) n k k') : k'.BoxAt b kind v r := by
  obtain ⟨array, harray, hin⟩ := hbox
  refine ⟨array, ?_, hin.adds h⟩
  rw [h.caches hk.built hk.reserved]
  exact harray

namespace Hosts

theorem conforms (hk : k.Hosts b) : k.Conforms := .built hk.built

theorem adds {n : Nat} (hk : k.Hosts b) (h : Adds (fun _ => True) n k k') : k'.Hosts b where
  built := h.built hk.built
  reserved := h.reserved hk.reserved
  filled := by
    rw [h.caches hk.built hk.reserved]
    intro kind array harray hnull v hv
    obtain ⟨r, hr⟩ := hk.filled kind array harray hnull v hv
    exact ⟨r, hr.adds h⟩

theorem slot_lt (hk : k.Hosts b) (kind : BoxKind) : kind.slot < k.caches.size :=
  (fits_caches hk.conforms hk.reserved).le_size kind.mem_placed

end Hosts

theorem loaded_of_caches (harray : k.caches.getRef kind.slot = .ok array)
    (hnull : array.isNull = false) :
    ∃ c e, k.classes.lookup? BoxKind.cachesClass.name = some c ∧ k.statics.get? c = some e ∧
      k.caches = e.fields := by
  have hblank : k.caches ≠ .ofMask BoxKind.cachesClass.statics.refMask := by
    intro heq
    rw [heq, BoxKind.getRef_blank] at harray
    cases harray
    cases hnull
  cases hc : k.classes.lookup? BoxKind.cachesClass.name with
  | none =>
    unfold caches at hblank
    rw [hc] at hblank
    exact absurd rfl hblank
  | some c =>
    cases he : k.statics.get? c with
    | none => exact absurd (caches_of_none hc he) hblank
    | some e => exact ⟨c, e, rfl, he, caches_of_get? hc he⟩

theorem getStaticRef_caches {c : ClassId} {e : Element} (hk : k.Conforms) (hr : k.classes.ReservesBoxes)
    (hc : k.classes.lookup? BoxKind.cachesClass.name = some c) (he : k.statics.get? c = some e)
    (harray : k.caches.getRef kind.slot = .ok array) :
    k.getStaticRef c kind.cacheField = .ok (.ok array) := by
  rw [caches_of_get? hc he] at harray
  unfold getStaticRef
  rw [readStatic_eq (f := ⟨kind.cacheField, .reference⟩) _ _ he (getElem?_caches hk hr hc)
    kind.lookup?_cacheField, harray]
  rfl

theorem boxArray?_eq (hk : k.Conforms) (hr : k.classes.ReservesBoxes)
    (harray : k.caches.getRef kind.slot = .ok array) :
    k.boxArray? kind = .ok (if array.isNull then none else some array) := by
  unfold boxArray?
  cases hc : k.classes.lookup? BoxKind.cachesClass.name with
  | none =>
    unfold caches at harray
    rw [hc] at harray
    cases kind.getRef_blank.symm.trans harray
    rfl
  | some c =>
    dsimp only
    cases he : k.statics.get? c with
    | none =>
      have hslot : k.staticSlot c kind.cacheField =
          .ok (.error (.classNotLoaded BoxKind.cachesClass.name)) := by
        have hloaded : k.statics.contains c = false :=
          (k.statics.arena.contains_eq c).trans (congrArg Option.isSome he)
        unfold staticSlot
        rw [Registry.get_eq_ok.mpr (getElem?_caches hk hr hc), ok_bind, hloaded]
        rfl
      rw [caches_of_none hc he] at harray
      cases kind.getRef_blank.symm.trans harray
      unfold getStaticRef readStatic
      rw [hslot]
      rfl
    | some e =>
      rw [getStaticRef_caches hk hr hc he harray]
      rfl

theorem loadClass_loads {c : ClassId} (hids : k.classes.Numbered) (h : k.loadClass c = .ok k') :
    ∃ e, k'.statics.get? c = some e := by
  unfold loadClass at h
  split at h
  · next hloaded =>
    cases h
    exact (Arena.contains_iff _ _).mp hloaded
  · obtain ⟨desc, hdesc, h⟩ := bind_eq_ok.mp h
    obtain ⟨classDesc, -, h⟩ := bind_eq_ok.mp h
    cases h
    rw [← hids c desc (Registry.get_eq_ok.mp hdesc)]
    exact Statics.exists_addClass _ _ _ _

theorem setStaticRef_caches {c : ClassId} {e : Element} (hk : k.Hosts b)
    (hc : k.classes.lookup? BoxKind.cachesClass.name = some c) (he : k.statics.get? c = some e)
    (hfilled : ∀ v, kind.Caches b v → ∃ r, k.BoxIn b array kind v r) :
    ∃ k', k.setStaticRef c kind.cacheField array = .ok (.ok (), k') ∧ k'.Hosts b ∧
      k'.caches.getRef kind.slot = .ok array ∧
      ∀ kind' v r, kind' ≠ kind → k.BoxAt b kind' v r → k'.BoxAt b kind' v r := by
  have hlt := hk.slot_lt kind
  have hcaches := caches_of_get? hc he
  rw [hcaches] at hlt
  obtain ⟨fs, hfs, -, hget, hrest⟩ := Fields.setInt_spec e.fields kind.slot hlt array.slot
  have hset := setStatic_eq_ok (f := ⟨kind.cacheField, .reference⟩) (v := .ref array) he
    (getElem?_caches hk.conforms hk.reserved hc) kind.lookup?_cacheField hfs
  obtain ⟨k', hk'⟩ : ∃ k' : Kernel, k' = { k with statics := k.statics.put c { e with fields := fs } } :=
    ⟨_, rfl⟩
  have hperform : k.perform (.writeStatic c kind.cacheField (.ref array)) = .ok k' := by
    rw [hk']
    exact snd_eq_ok.mpr ⟨_, hset⟩
  have hcaches' : k'.caches = fs := by
    have he' : k'.statics.get? c = some { e with fields := fs } := by
      rw [hk']
      dsimp only
      rw [Statics.get?_put, if_pos rfl, he]
      rfl
    exact caches_of_get? (by rw [hk']; exact hc) he'
  have hnew : k'.caches.getRef kind.slot = .ok array := by
    unfold Fields.getRef
    rw [hcaches', hget]
    rfl
  have hothers : ∀ kind', kind' ≠ kind → k'.caches.getRef kind'.slot = k.caches.getRef kind'.slot := by
    intro kind' hne
    unfold Fields.getRef
    rw [hcaches', hcaches, Fields.getInt_congr (hrest kind'.slot fun heq => hne (BoxKind.slot_inj heq))]
  have hin : ∀ {array kind v r}, k.BoxIn b array kind v r → k'.BoxIn b array kind v r := by
    rw [hk']
    exact id
  refine ⟨k', by rw [hk']; exact hset, ⟨hk.built.perform trivial hperform, ?_, ?_⟩, hnew, ?_⟩
  · rw [hk']
    exact hk.reserved
  · intro kind' array' harray' hnull v hv
    by_cases hkind : kind' = kind
    · subst hkind
      rw [hnew] at harray'
      cases harray'
      exact (hfilled v hv).imp fun _ => hin
    · rw [hothers kind' hkind] at harray'
      exact (hk.filled kind' array' harray' hnull v hv).imp fun _ => hin
  · rintro kind' v r hne ⟨array', harray', hr⟩
    exact ⟨array', (hothers kind' hne).trans harray', hin hr⟩

variable {t : ThreadId}

theorem boxArray_of_caches (hk : k.Hosts b) (harray : k.caches.getRef kind.slot = .ok array)
    (hnull : array.isNull = false) (t : ThreadId) : k.boxArray b t kind = .ok (.ok array, k) := by
  obtain ⟨c, e, hc, he, -⟩ := loaded_of_caches harray hnull
  have hregister : k.register BoxKind.cachesClass = (c, k) := by
    unfold Kernel.register
    rw [Registry.register_of_lookup? hc]
  have hload : k.loadClass c = .ok k := by
    have hloaded : k.statics.contains c = true := (Arena.contains_iff _ _).mpr ⟨e, he⟩
    unfold loadClass
    rw [if_pos hloaded]
    rfl
  unfold boxArray
  rw [hregister]
  dsimp only
  rw [hload, ok_bind, getStaticRef_caches hk.conforms hk.reserved hc he harray, ok_bind]
  dsimp only
  rw [if_neg (by rw [hnull]; exact nofun)]
  rfl

theorem boxArray_of_isNull (hk : k.Hosts b) (harray : k.caches.getRef kind.slot = .ok array)
    (hnull : array.isNull = true) (ht : k.KnowsCreator (some t))
    (hroom : k.heap.Roomy ((boxValues (kind.bounds b).1 (kind.bounds b).2).length + 2)) :
    ∃ array' k', k.boxArray b t kind = .ok (.ok array', k') ∧ k'.Hosts b ∧
      k'.caches.getRef kind.slot = .ok array' ∧ array'.isNull = false ∧
      ∀ kind' v r, kind' ≠ kind → k.BoxAt b kind' v r → k'.BoxAt b kind' v r := by
  obtain ⟨k₁, hk₁⟩ : ∃ k₁, k₁ = (k.register BoxKind.cachesClass).2 := ⟨_, rfl⟩
  obtain ⟨c, hc⟩ : ∃ c, c = (k.register BoxKind.cachesClass).1 := ⟨_, rfl⟩
  have hadds₁ : Adds (fun _ => True) 0 k k₁ := by
    rw [hk₁]
    exact .register List.mem_cons_self
  have hlookup₁ : k₁.classes.lookup? BoxKind.cachesClass.name = some c := by
    rw [hk₁, hc]
    exact k.classes.lookup?_register BoxKind.cachesClass
  have hk₁' := hk.adds hadds₁
  have hknown : c < k₁.classes.size :=
    (Array.getElem?_eq_some_iff.mp (getElem?_caches hk₁'.conforms hk₁'.reserved hlookup₁)).1
  have hroom₁ := hadds₁.room _ hroom
  obtain ⟨k₂, h₂, -⟩ := loadClass_ok hk₁'.built.sited.core (hroom₁.mono (by omega)) (.inr hknown)
  have hadds₂ : Adds (fun _ => True) (0 + 1) k k₂ := hadds₁.trans (.loadClass h₂)
  have hk₂ := hk.adds hadds₂
  have hlookup₂ := findIdx?_mono (Adds.loadClass (p := fun _ => True) h₂).classes hlookup₁
  obtain ⟨e₂, he₂⟩ := loadClass_loads hk₁'.conforms.ids h₂
  have hget₂ := getStaticRef_caches hk₂.conforms hk₂.reserved hlookup₂ he₂
    ((congrArg (·.getRef kind.slot) (hadds₂.caches hk.built hk.reserved)).trans harray)
  obtain ⟨array', k₃, h₃, hadds₃, hnull', hfilled⟩ := newBoxArray_ok hk₂.built hk₂.reserved
    (hadds₂.knowsCreator ht) kind (hadds₂.room _ hroom)
  have hlookup₃ := findIdx?_mono hadds₃.classes hlookup₂
  obtain ⟨e₃, he₃⟩ : ∃ e₃, k₃.statics.get? c = some e₃ := by
    rcases hadds₃.statics c with hsame | ⟨hnone, -⟩
    · rw [he₂, Option.map_some, Option.map_eq_some_iff] at hsame
      exact hsame.imp fun _ he => he.1
    · rw [he₂] at hnone
      cases hnone
  obtain ⟨k', h', hk', hcaches', hothers⟩ := setStaticRef_caches (hk₂.adds hadds₃) hlookup₃ he₃ hfilled
  refine ⟨array', k', ?_, hk', hcaches', hnull', ?_⟩
  · subst hc hk₁
    unfold boxArray
    dsimp only
    rw [h₂, ok_bind, hget₂, ok_bind]
    dsimp only
    rw [if_pos hnull, h₃, ok_bind]
    dsimp only
    rw [h', ok_bind]
    rfl
  · intro kind' v r hne hr
    exact hothers kind' v r hne ((hr.adds hk hadds₂).adds hk₂ hadds₃)

/-- How many objects boxing may have to make: a box, or the class object of the caches, an array and all its
boxes. -/
def boxDemand (k : Kernel) (b : BoxBounds) (kind : BoxKind) (v : Int64) : Nat :=
  if kind.Caches b v then
    match k.boxArray? kind with
    | .ok (some _) => 0
    | _ => (boxValues (kind.bounds b).1 (kind.bounds b).2).length + 2
  else
    1

theorem boxArray_ok (hk : k.Hosts b) (hv : kind.Caches b v) (ht : k.KnowsCreator (some t))
    (hroom : k.heap.size + k.boxDemand b kind v ≤ Heap.maxSize) :
    ∃ array k', k.boxArray b t kind = .ok (.ok array, k') ∧ k'.Hosts b ∧
      k'.caches.getRef kind.slot = .ok array ∧ array.isNull = false ∧
      ∀ kind' v r, k.BoxAt b kind' v r → k'.BoxAt b kind' v r := by
  obtain ⟨array, harray⟩ := Fields.getRef_ok (hk.slot_lt kind)
  cases hnull : array.isNull with
  | false => exact ⟨array, k, boxArray_of_caches hk harray hnull t, hk, harray, hnull, fun _ _ _ => id⟩
  | true =>
    have hdemand : k.boxDemand b kind v = (boxValues (kind.bounds b).1 (kind.bounds b).2).length + 2 := by
      unfold boxDemand
      rw [if_pos hv, boxArray?_eq hk.conforms hk.reserved harray, hnull]
      rfl
    rw [hdemand] at hroom
    obtain ⟨array', k', h, hk', harray', hnull', hothers⟩ :=
      boxArray_of_isNull hk harray hnull ht (hk.built.sited.roomy hroom)
    refine ⟨array', k', h, hk', harray', hnull', ?_⟩
    intro kind' v r hbox
    apply hothers kind' v r _ hbox
    -- the kind has had no boxes before
    rintro rfl
    obtain ⟨array₀, harray₀, a, -, ha, -⟩ := hbox
    rw [harray] at harray₀
    cases harray₀
    rw [Heap.isNull_of_get? ha] at hnull
    cases hnull

def unbox (k : Kernel) (kind : BoxKind) (o : Ref) : Except Fault (Except KernelError Int64) :=
  match kind with
  | .long => k.getLong o "value"
  | _ => return (← k.getInt o "value").map Int32.toInt64

theorem unbox_of_isBox {o : Ref} {e : Element} (he : k.heap.get? o = some e)
    (hbox : e.IsBox k.classes kind v) (hv : kind.Has v) : k.unbox kind o = .ok (.ok v) := by
  have hread : ∀ {α : Type} (read : Fields → Nat → Except Fault α),
      k.readField read o "value" = (return .ok (← read e.fields 0)) :=
    fun read => readField_eq (f := ⟨"value", kind.valueKind⟩) read he hbox.desc rfl
  have hvalue := hbox.read
  cases kind with
  | long =>
    obtain ⟨w, hw, heq⟩ := bind_eq_ok.mp hvalue
    cases heq
    unfold unbox getLong
    dsimp only
    rw [hread, hw]
    rfl
  | _ =>
    obtain ⟨w, hw, heq⟩ := bind_eq_ok.mp hvalue
    cases heq
    unfold unbox getInt
    dsimp only
    rw [hread, hw]
    exact congrArg (fun w => Except.ok (Except.ok w)) (BoxKind.toInt64_toInt32 hv nofun)

theorem box_ok (hk : k.Hosts b) (ht : k.KnowsCreator (some t)) (kind : BoxKind) (v : Int64)
    (hroom : k.heap.size + k.boxDemand b kind v ≤ Heap.maxSize) :
    ∃ r k', k.box b t kind v = .ok (.ok r, k') ∧ k'.Hosts b ∧
      (∀ kind' v' r', k.BoxAt b kind' v' r' → k'.BoxAt b kind' v' r') ∧
      (kind.Caches b v → k'.BoxAt b kind v r) ∧ (¬ kind.Caches b v → k.heap.get? r = none) ∧
      ∃ e, k'.heap.get? r = some e ∧ e.IsBox k'.classes kind v := by
  have hbounds : (v < (kind.bounds b).1 ∨ (kind.bounds b).2 < v) ↔ ¬ kind.Caches b v := by
    unfold BoxKind.Caches
    rw [not_and_or, Int64.not_le, Int64.not_le]
  unfold box
  dsimp only
  by_cases hv : kind.Caches b v
  · rw [if_neg (fun hout => hbounds.mp hout hv)]
    obtain ⟨array, k', h, hk', harray, hnull, hstay⟩ := boxArray_ok hk hv ht hroom
    obtain ⟨r, a, e, ha, hplain, hr, he, hbox⟩ := hk'.filled kind array harray hnull v hv
    refine ⟨r, k', ?_, hk', hstay, fun _ => ⟨array, harray, a, e, ha, hplain, hr, he, hbox⟩,
      fun hout => absurd hv hout, e, he, hbox⟩
    rw [h, ok_bind]
    dsimp only
    rw [deref_eq_ok.mpr ha, ok_bind, hr]
    rfl
  · rw [if_pos (hbounds.mpr hv)]
    have hdemand : k.boxDemand b kind v = 1 := if_neg hv
    rw [hdemand] at hroom
    obtain ⟨r, k', e, h, hadds, hnew, he, hbox⟩ :=
      newBox_ok hk.built hk.reserved ht (hk.built.sited.roomy hroom) kind v
    exact ⟨r, k', h, hk.adds hadds, fun _ _ _ hr => hr.adds hk hadds, fun hin => absurd hin hv,
      fun _ => hnew, e, he, hbox⟩

end Kernel

end Interleave
