import Interleave.Proofs.Text.Retention

/-!
Interned strings. The table of interned strings outlives the path on which an entry was made, and an entry
counts wherever its slot holds an object of the same name. On the path itself such an object is the string
that the entry was made for. After a restore it need not be, because slots and names are given out again.
-/

namespace Interleave

section Utf16

theorem not_surrogate (c : Char) : c.toNat < 0xD800 ∨ 0xDFFF < c.toNat ∧ c.toNat < 0x110000 := by
  have hvalid := c.valid
  unfold UInt32.isValidChar Nat.isValidChar at hvalid
  exact hvalid

theorem utf16Units_append_inj {c d : Char} {l l' : List Nat} (h : utf16Units c ++ l = utf16Units d ++ l') :
    c = d ∧ l = l' := by
  have hc := not_surrogate c
  have hd := not_surrogate d
  unfold utf16Units at h
  split at h <;> split at h <;> simp only [List.cons_append, List.nil_append, List.cons.injEq] at h
  · exact ⟨Char.toNat_inj.mp h.1, h.2⟩
  · omega
  · omega
  · refine ⟨Char.toNat_inj.mp ?_, h.2.2⟩
    omega

theorem utf16_injective {s t : String} (h : utf16 s = utf16 t) : s = t := by
  have hlist : ∀ l l' : List Char, l.flatMap utf16Units = l'.flatMap utf16Units → l = l' := by
    have hcons : ∀ (c : Char) (l : List Char), (c :: l).flatMap utf16Units ≠ [] := by
      intro c l
      unfold utf16Units
      rw [List.flatMap_cons]
      split <;> simp
    intro l
    induction l with
    | nil =>
      intro l' h
      cases l' with
      | nil => rfl
      | cons d l' => exact absurd h.symm (hcons d l')
    | cons c l ih =>
      intro l' h
      cases l' with
      | nil => exact absurd h (hcons c l)
      | cons d l' =>
        rw [List.flatMap_cons, List.flatMap_cons] at h
        obtain ⟨rfl, hrest⟩ := utf16Units_append_inj h
        rw [ih l' hrest]
  exact String.toList_injective (hlist _ _ h)

theorem lt_of_mem_utf16 {text : String} {n : Nat} (h : n ∈ utf16 text) : n < 0x10000 := by
  obtain ⟨c, -, hn⟩ := List.mem_flatMap.mp h
  have hc := not_surrogate c
  unfold utf16Units at hn
  split at hn
  · rw [List.mem_singleton] at hn
    omega
  · simp only [List.mem_cons, List.not_mem_nil, or_false] at hn
    omega

theorem map_wordOf_injective {s t : String} (h : (utf16 s).map wordOf = (utf16 t).map wordOf) : s = t := by
  have hread : ∀ text : String, ((utf16 text).map wordOf).map Int32.toNatClampNeg = utf16 text := by
    intro text
    rw [List.map_map, List.map_congr_left (g := id), List.map_id]
    intro n hn
    exact Int32.toNatClampNeg_ofNat_of_lt (Nat.lt_trans (lt_of_mem_utf16 hn) (by decide))
  apply utf16_injective
  rw [← hread s, h, hread t]

end Utf16

theorem Fields.foldlM_setInt_units (units : List Nat) (start : Nat) {f : Fields}
    (h : start + units.length = f.size) :
    ∃ f', (units.zipIdx start).foldlM (fun f (unit, i) => f.setInt i (wordOf unit)) f = .ok f' ∧
      f'.values.toList = f.values.toList.take start ++ units.map wordOf := by
  induction units generalizing start f with
  | nil =>
    refine ⟨f, rfl, ?_⟩
    rw [List.map_nil, List.append_nil, List.take_of_length_le]
    rw [Array.length_toList]
    exact Nat.le_of_eq h.symm
  | cons unit units ih =>
    have hlt : start < f.size := by
      rw [List.length_cons] at h
      omega
    obtain ⟨f', hf', hvalues⟩ := ih (start + 1)
      (f := { f with values := f.values.setIfInBounds start (wordOf unit) }) (by
        rw [List.length_cons] at h
        simp only [Fields.size, Array.size_setIfInBounds] at h ⊢
        omega)
    refine ⟨f', ?_, ?_⟩
    · rw [List.zipIdx_cons, List.foldlM_cons]
      exact bind_eq_ok.mpr ⟨_, if_pos hlt, hf'⟩
    · have hlt : start < f.values.toList.length := by rwa [Array.length_toList]
      rw [hvalues, List.map_cons, Array.toList_setIfInBounds, List.take_add_one,
        List.take_set_of_le (Nat.le_refl start), List.getElem?_set_self hlt, List.append_assoc]
      rfl

structure Element.IsString (e : Element) (chars : Ref) : Prop where
  classId : e.classId = 2
  kind : e.kind = .object
  fields : e.fields = ⟨#[chars.slot], .mask #[true]⟩
  weak : e.weak = false

structure Element.HasUnits (c : Element) (text : String) : Prop where
  kind : c.kind = .array .char (utf16 text).length
  values : c.fields.values.toList = (utf16 text).map wordOf
  weak : c.weak = false

namespace Element

variable {e e' : Element}

theorem IsString.endures {chars : Ref} (he : e.IsString chars) (h : e.Endures e') : e'.IsString chars :=
  ⟨h.classId.trans he.classId, h.kind.trans he.kind, h.fields.trans he.fields, h.weak.trans he.weak⟩

theorem HasUnits.endures {text : String} (he : e.HasUnits text) (h : e.Endures e') : e'.HasUnits text :=
  ⟨h.kind.trans he.kind, (congrArg (·.values.toList) h.fields).trans he.values, h.weak.trans he.weak⟩

end Element

theorem Heap.Orderly.ref_of_get? {h : Heap} (ho : h.Orderly) {o : Ref} {e : Element}
    (he : h.get? o = some e) : e.ref = o := by
  obtain ⟨i, hi, he⟩ := Heap.get?_eq_some.mp he
  rw [ho.ref i e he]
  exact Ref.eq_of_index? (Ref.index?_ofIndex (Ref.lt_of_index?_eq_some hi)) hi

namespace Kernel

/-- `o` is a live string object, and its value is a live character array that holds `text`. -/
def Spells (k : Kernel) (o : Ref) (text : String) : Prop :=
  ∃ e desc chars c, k.heap.get? o = some e ∧ k.classes.get e.classId = .ok desc ∧
    desc.name = "java.lang.String" ∧ k.getRef o "value" = .ok (.ok chars) ∧
    k.heap.get? chars = some c ∧ c.kind = .array .char (utf16 text).length ∧
    c.fields.values.toList = (utf16 text).map wordOf

theorem Spells.unique {k : Kernel} {o : Ref} {text text' : String} (h : k.Spells o text)
    (h' : k.Spells o text') : text = text' := by
  obtain ⟨-, -, chars, c, -, -, -, hchars, hc, -, hvalues⟩ := h
  obtain ⟨-, -, chars', c', -, -, -, hchars', hc', -, hvalues'⟩ := h'
  rw [hchars] at hchars'
  cases hchars'
  rw [hc] at hc'
  cases hc'
  exact map_wordOf_injective (hvalues.symm.trans hvalues')

def Records (k : Kernel) (entry : Interned) : Prop :=
  ∃ e chars c, k.heap.get? entry.ref = some e ∧ e.gid = entry.gid ∧
    (e.interned = true ∧ 0 < e.pins ∧ e.IsString chars) ∧ k.heap.get? chars = some c ∧
    c.HasUnits entry.text

variable {k k' : Kernel}

theorem Records.spells {entry : Interned} (h : k.Records entry)
    (hcore : Registry.core.classes.toList <+: k.classes.classes.toList) :
    k.Spells entry.ref entry.text := by
  obtain ⟨e, chars, c, he, -, ⟨-, -, hstring⟩, hc, hunits⟩ := h
  have hdesc : k.classes.get e.classId = .ok { ClassDescriptor.stringClass with id := 2 } := by
    rw [hstring.classId]
    exact Registry.get_eq_ok.mpr (Registry.getElem?_of_prefix hcore rfl)
  refine ⟨e, _, chars, c, he, hdesc, rfl, ?_, hc, hunits.kind, hunits.values⟩
  have hslot : k.instanceSlot entry.ref "value" = .ok (.ok 0) := by
    unfold instanceSlot
    rw [deref_eq_ok.mpr he, ok_bind, hdesc]
    rfl
  unfold getRef readField
  rw [hslot, ok_bind]
  dsimp only
  rw [deref_eq_ok.mpr he, ok_bind, hstring.fields]
  rfl

def IsText (k : Kernel) (o : Ref) : Prop :=
  ∃ e ∈ k.heap.elements, e.interned = true ∧ (o = e.ref ∨ e.fields.values[0]? = some o.slot)

instance (k : Kernel) (o : Ref) : Decidable (k.IsText o) :=
  inferInstanceAs (Decidable (∃ e ∈ k.heap.elements, _))

theorem Records.keeps {entry : Interned} (h : k.Records entry) (ho : k.heap.Orderly)
    (hkeeps : Keeps k.IsText k k') : k'.Records entry := by
  obtain ⟨e, chars, c, he, hgid, ⟨hinterned, hpins, hstring⟩, hc, hunits⟩ := h
  have hmem : e ∈ k.heap.elements := by
    obtain ⟨i, -, hget⟩ := Heap.get?_eq_some.mp he
    exact (Arena.mem_elements _ _).mpr ⟨i, hget⟩
  obtain ⟨e', he', hend⟩ := hkeeps entry.ref e ⟨e, hmem, hinterned, .inl (ho.ref_of_get? he).symm⟩ he
  obtain ⟨c', hc', hend'⟩ := hkeeps chars c ⟨e, hmem, hinterned, .inr (by rw [hstring.fields]; rfl)⟩ hc
  refine ⟨e', chars, c', he', hend.gid.trans hgid, ⟨?_, ?_, hstring.endures hend⟩, hc', hunits.endures hend'⟩
  · rw [hend.interned]
    exact hinterned
  · exact Nat.lt_of_lt_of_le hpins hend.pins

theorem Records.collect {entry : Interned} (h : k.Records entry) (ho : k.Orderly) {c : Collection}
    (hc : k.heap.collect k.roots = .ok c) : { k with heap := c.heap }.Records entry := by
  obtain ⟨e, chars, a, he, hgid, ⟨hinterned, hpins, hstring⟩, ha, hunits⟩ := h
  have hnull := Heap.isNull_of_get? ha
  obtain ⟨i, hi, he⟩ := Heap.get?_eq_some.mp he
  obtain ⟨j, hj, ha⟩ := Heap.get?_eq_some.mp ha
  have halive : k.Alive i := .pinned he hpins
  have htraces : e.Traces chars := by
    refine ⟨hnull, .inl ⟨0, ?_, ?_⟩⟩
    · rw [Fields.holds_iff, hstring.fields]
      exact ⟨rfl, rfl⟩
    · rw [hstring.weak]
      exact nofun
  have halive' : k.Alive j :=
    .trace halive he htraces (Heap.slot?_eq_some_iff.mpr ⟨hj, Arena.contains_of_get? ha⟩)
  obtain ⟨e', he', hend⟩ := halive.endures ho hc he hstring.weak
  obtain ⟨a', ha', hend'⟩ := halive'.endures ho hc ha hunits.weak
  refine ⟨e', chars, a', Heap.get?_eq_some.mpr ⟨i, hi, he'⟩, hend.gid.trans hgid,
    ⟨hend.interned.trans hinterned, Nat.lt_of_lt_of_le hpins hend.pins, hstring.endures hend⟩,
    Heap.get?_eq_some.mpr ⟨j, hj, ha'⟩, hunits.endures hend'⟩

variable {creator : Option ThreadId} {text : String}

theorem updateElement_units {chars : Ref} {e : Element} (he : k.heap.get? chars = some e)
    (hkind : e.kind = .array .char (utf16 text).length)
    (hfields : e.fields = .ofArray .char (utf16 text).length) (hweak : e.weak = false) :
    ∃ c, k.updateElement chars (fun e => e.updateFields fun f =>
        (utf16 text).zipIdx.foldlM (fun f (unit, i) => f.setInt i (wordOf unit)) f) =
          .ok { k with heap := k.heap.put chars c } ∧ c.HasUnits text := by
  obtain ⟨fields, hwritten, hvalues⟩ := Fields.foldlM_setInt_units (utf16 text) 0
    (f := e.fields) (by
      rw [hfields]
      simp [Fields.ofArray, Fields.size, ValueKind.isReference, ValueKind.width])
  refine ⟨{ e with fields }, updateElement_eq_ok.mpr ⟨e, _, he, bind_eq_ok.mpr ⟨fields, hwritten, rfl⟩, rfl⟩, ?_⟩
  exact ⟨hkind, hvalues, hweak⟩

theorem updateElement_value {o : Ref} {gid : GlobalId}
    (he : k.heap.get? o = some (.fresh o gid 2 .object (.ofMask [true]) creator)) (chars : Ref) :
    ∃ e, k.updateElement o (·.updateFields (·.setRef 0 chars)) = .ok { k with heap := k.heap.put o e } ∧
      e.IsString chars :=
  ⟨_, updateElement_eq_ok.mpr ⟨_, _, he, rfl, rfl⟩, rfl, rfl, rfl, rfl⟩

theorem newString_spells (hcore : Registry.core.classes.toList <+: k.classes.classes.toList)
    (hroom : k.heap.Roomy 2) (hcreator : k.KnowsCreator creator) (text : String) :
    ∃ o chars k' e c, k.newString text creator = .ok (o, k') ∧ Leaves (fun _ => True) k k' ∧
      k.heap.get? o = none ∧ k'.heap.get? o = some e ∧ e.IsString chars ∧
      k'.heap.get? chars = some c ∧ c.HasUnits text := by
  obtain ⟨gid₁, classId, k₁, h₁, hplaces₁⟩ := newArray_ok hcreator .char (utf16 text).length none
  have hleaves₁ : Leaves (fun _ => True) k k₁ := .place _ hplaces₁.heap
  have hnew₁ : k.heap.get? (.ofIndex k.heap.arena.nextFree) = none :=
    Heap.get?_eq_none_of_nextFree (Ref.index?_ofIndex hroom.nextFree_lt)
  obtain ⟨c, h₂, hc⟩ := updateElement_units (hplaces₁.get? hroom) rfl rfl rfl
  obtain ⟨k₂, hk₂⟩ : ∃ k₂ : Kernel, k₂ =
    { k₁ with heap := k₁.heap.put (.ofIndex k.heap.arena.nextFree) c } := ⟨_, rfl⟩
  have hleaves₂ : Leaves (fun _ => True) k k₂ := by
    rw [hk₂]
    exact hleaves₁.putNew hnew₁ c
  have hchars : k₂.heap.get? (.ofIndex k.heap.arena.nextFree) = some c := by
    rw [hk₂, Heap.get?_put, if_pos rfl, hplaces₁.get? hroom]
    rfl
  have hcore₂ : Registry.core.classes.toList <+: k₂.classes.classes.toList := by
    rw [hk₂]
    exact hplaces₁.core hcore
  have hcreator₂ : k₂.KnowsCreator creator := by
    rw [hk₂]
    unfold KnowsCreator
    dsimp only
    rw [hplaces₁.threads]
    exact hcreator
  have hroom₂ : k₂.heap.Roomy 1 := by
    rw [hk₂]
    exact (hplaces₁.roomy hroom).put _ _
  rw [← hk₂] at h₂
  obtain ⟨gid₂, k₃, h₃, hplaces₃⟩ := newObject_ok (c := 2) hcreator₂
    (Registry.getElem?_of_prefix hcore₂ rfl) none
  have hnew₂ : k₂.heap.get? (.ofIndex k₂.heap.arena.nextFree) = none :=
    Heap.get?_eq_none_of_nextFree (Ref.index?_ofIndex hroom₂.nextFree_lt)
  have hstring := hplaces₃.get? hroom₂
  have hdesc : k₃.classes.get 2 = .ok { ClassDescriptor.stringClass with id := 2 } :=
    Registry.get_eq_ok.mpr (Registry.getElem?_of_prefix (hplaces₃.core hcore₂) rfl)
  have hleaves₃ : Leaves (fun _ => True) k k₃ := hleaves₂.trans (.place _ hplaces₃.heap)
  have hnew₃ : k.heap.get? (.ofIndex k₂.heap.arena.nextFree) = none := by
    cases hold : k.heap.get? (.ofIndex k₂.heap.arena.nextFree) with
    | none => rfl
    | some e =>
      obtain ⟨e', he', -⟩ := hleaves₂.keeps _ e trivial hold
      rw [hnew₂] at he'
      cases he'
  -- the string is not placed where its characters are
  have hne : Ref.ofIndex k₂.heap.arena.nextFree ≠ .ofIndex k.heap.arena.nextFree := by
    intro heq
    rw [heq, hchars] at hnew₂
    cases hnew₂
  obtain ⟨e, h₄, he⟩ := updateElement_value hstring (.ofIndex k.heap.arena.nextFree)
  refine ⟨.ofIndex k₂.heap.arena.nextFree, .ofIndex k.heap.arena.nextFree,
    { k₃ with heap := k₃.heap.put (.ofIndex k₂.heap.arena.nextFree) e }, e, c, ?_,
    hleaves₃.putNew hnew₃ e, hnew₃, ?_, he, ?_, hc⟩
  · unfold newString
    refine bind_eq_ok.mpr ⟨_, h₁, bind_eq_ok.mpr ⟨k₂, h₂, ?_⟩⟩
    rw [register_of_core hcore₂ (i := 2) (by decide +kernel)]
    exact bind_eq_ok.mpr ⟨_, h₃, bind_eq_ok.mpr ⟨_, hdesc, bind_eq_ok.mpr ⟨_, h₄, rfl⟩⟩⟩
  · rw [Heap.get?_put, if_pos rfl, hstring]
    rfl
  · rw [Heap.get?_put, if_neg hne, hplaces₃.get?_of_some hchars]

theorem knowsCreator_of_newGlobalId {site : Option Site} {gid : GlobalId}
    (h : k.newGlobalId creator site = .ok (gid, k')) : k.KnowsCreator creator := by
  obtain ⟨thread, hthread, -, -⟩ := newGlobalId_eq_ok.mp h
  rintro t rfl
  rw [Option.mapM_some] at hthread
  obtain ⟨gid, hgid, -⟩ := bind_eq_ok.mp hthread
  obtain ⟨info, hinfo, -⟩ := bind_eq_ok.mp hgid
  exact Option.isSome_of_eq_some (get_eq_ok.mp hinfo)

theorem knowsCreator_of_internString {o : Ref} (hnone : k.heap.interned? text = none)
    (h : k.internString text creator = .ok (o, k')) : k.KnowsCreator creator := by
  unfold internString at h
  rw [hnone] at h
  obtain ⟨_, h, -⟩ := bind_eq_ok.mp h
  obtain ⟨_, h, -⟩ := bind_eq_ok.mp h
  obtain ⟨_, h, -⟩ := bind_eq_ok.mp h
  exact knowsCreator_of_newGlobalId h

theorem internString_of_interned? {o : Ref} (h : k.heap.interned? text = some o)
    (creator : Option ThreadId) : k.internString text creator = .ok (o, k) := by
  unfold internString
  rw [h]
  rfl

theorem interned?_eq_some {h : Heap} {o : Ref} :
    h.interned? text = some o ↔ ∃ entry e, h.strings.find? (·.text == text) = some entry ∧
      h.get? entry.ref = some e ∧ e.gid = entry.gid ∧ e.ref = o := by
  unfold Heap.interned?
  simp only [Option.bind_eq_bind, Option.bind_eq_some_iff]
  constructor
  · rintro ⟨entry, hentry, e, he, h⟩
    split at h
    · next hgid => exact ⟨entry, e, hentry, he, hgid, Option.some.inj h⟩
    · cases h
  · rintro ⟨entry, e, hentry, he, hgid, rfl⟩
    exact ⟨entry, hentry, e, he, if_pos hgid⟩

theorem internString_new (hk : k.Sited) (hsize : k.heap.size + 2 ≤ Heap.maxSize)
    (hcreator : k.KnowsCreator creator) (hnone : k.heap.interned? text = none) :
    ∃ entry k', k.internString text creator = .ok (entry.ref, k') ∧ entry.text = text ∧
      k'.heap.strings = entry :: k.heap.strings ∧ k'.Records entry ∧ Keeps (fun _ => True) k k' := by
  obtain ⟨o, chars, k₁, e, c, h₁, hleaves, hnew, he, hstring, hc, hunits⟩ :=
    newString_spells hk.core (hk.roomy hsize) hcreator text
  have hne : o ≠ chars := by
    rintro rfl
    rw [he] at hc
    cases hc
    have hkind := hunits.kind
    rw [hstring.kind] at hkind
    cases hkind
  obtain ⟨heap, hheap⟩ : ∃ heap, heap = k₁.heap.put o { e.pin with interned := true } := ⟨_, rfl⟩
  refine ⟨⟨text, o, e.gid⟩, { k₁ with heap := { heap with strings := ⟨text, o, e.gid⟩ :: heap.strings } },
    ?_, rfl, ?_, ?_, ?_⟩
  · unfold internString
    rw [hnone, hheap]
    exact bind_eq_ok.mpr ⟨_, h₁, bind_eq_ok.mpr ⟨_, bind_eq_ok.mpr ⟨e, deref_eq_ok.mpr he, rfl⟩, rfl⟩⟩
  · dsimp only
    rw [hheap, Heap.strings_put, hleaves.strings]
  · refine ⟨{ e.pin with interned := true }, chars, c, ?_, rfl, ⟨rfl, Nat.succ_pos _, ?_⟩, ?_, hunits⟩
    · change heap.get? o = _
      rw [hheap, Heap.get?_put, if_pos rfl, he]
      rfl
    · exact ⟨hstring.classId, hstring.kind, hstring.fields, hstring.weak⟩
    · change heap.get? chars = _
      rw [hheap, Heap.get?_put, if_neg hne, hc]
  · rw [hheap]
    exact hleaves.keeps.putNew hnew _

end Kernel

@[mk_iff]
structure Op.SparesStrings (k : Kernel) (op : Op) : Prop where
  texts : ∀ o ∈ op.touched, ¬ k.IsText o
  room : op.allocates = true → k.heap.size + 2 ≤ Heap.maxSize

instance (k : Kernel) (op : Op) : Decidable (op.SparesStrings k) :=
  decidable_of_iff' _ (Op.sparesStrings_iff k op)

/-- A state, and the entries for interned strings that have been made on the path to it. -/
structure Trail where
  kernel : Kernel
  made : List Interned := []

namespace Trail

def goOn (s : Trail) (k : Kernel) : Trail where
  kernel := k
  made := k.heap.strings.take (k.heap.strings.length - s.kernel.heap.strings.length) ++ s.made

inductive Step (s : Trail) : Trail → Prop where
  | perform {op : Op} {k : Kernel} (hop : op.SparesStrings s.kernel) (h : s.kernel.perform op = .ok k) :
    Step s (s.goOn k)
  | adopt {other : Kernel} (hother : Kernel.Built (fun _ _ => True) other)
    (hle : s.kernel.Precedes other) : Step s (s.goOn (s.kernel.adopt other))

/-- A snapshot that is put back brings back the path on which it was taken, but not the table. -/
inductive Reached : Trail → Prop where
  | start (limit : Option Nat) (observers : Observers) :
    Reached { kernel := { Kernel.withLimit limit with observers } }
  | step {s s' : Trail} (hs : Reached s) (h : s.Step s') : Reached s'
  | restore {s other : Trail} (hs : Reached s) (hother : Reached other)
    (hle : other.kernel.Precedes s.kernel) :
    Reached ⟨s.kernel.restore other.kernel.snapshot.1, other.made⟩

/-- The entry for `text` has been made on the path, or does not count. -/
def Owns (s : Trail) (text : String) : Prop :=
  ∀ entry ∈ s.kernel.heap.strings.find? (·.text == text),
    s.kernel.heap.nameOf? entry.ref = some entry.gid → entry ∈ s.made

instance (s : Trail) (text : String) : Decidable (s.Owns text) :=
  inferInstanceAs (Decidable (∀ entry ∈ s.kernel.heap.strings.find? (·.text == text),
    s.kernel.heap.nameOf? entry.ref = some entry.gid → entry ∈ s.made))

variable {s s' : Trail}

theorem made_goOn {k : Kernel} (entries : List Interned)
    (h : k.heap.strings = entries ++ s.kernel.heap.strings) : (s.goOn k).made = entries ++ s.made := by
  unfold goOn
  dsimp only
  rw [h, List.length_append, Nat.add_sub_cancel, List.take_left]

theorem Reached.built (hs : s.Reached) : Kernel.Built (fun _ _ => True) s.kernel := by
  induction hs with
  | start limit observers => exact .start limit observers
  | step _ h ih =>
    cases h with
    | perform _ h => exact ih.perform trivial h
    | adopt hother hle => exact ih.adopt hother hle
  | restore _ _ hle ih ihother => exact ih.restore ihother hle

theorem Step.cases (hs : s.kernel.Sited) (h : s.Step s') :
    (∀ entry, s.kernel.Records entry → s'.kernel.Records entry) ∧
      ((s'.kernel.heap.strings = s.kernel.heap.strings ∧ s'.made = s.made) ∨
        ∃ entry, s.kernel.heap.interned? entry.text = none ∧ s'.kernel.Records entry ∧
          s'.kernel.heap.strings = entry :: s.kernel.heap.strings ∧ s'.made = entry :: s.made) := by
  have hsame : ∀ {k : Kernel}, k.heap.strings = s.kernel.heap.strings → (s.goOn k).made = s.made :=
    fun h => made_goOn [] h
  cases h with
  | adopt =>
    refine ⟨?_, .inl ⟨rfl, hsame rfl⟩⟩
    rintro entry ⟨e, chars, c, h⟩
    exact ⟨e, chars, c, h⟩
  | @perform op k' hop h =>
    have hleaves : Kernel.Leaves s.kernel.IsText s.kernel k' →
        (∀ entry, s.kernel.Records entry → k'.Records entry) ∧
          (k'.heap.strings = s.kernel.heap.strings ∧ (s.goOn k').made = s.made) :=
      fun h => ⟨fun _ he => he.keeps hs.orderly.heap h.keeps, h.strings, hsame h.strings⟩
    cases hstirs : op.stirs with
    | true =>
      have hall := hleaves (.stirs (Kernel.perform_stirs hstirs False.elim h))
      exact ⟨hall.1, .inl hall.2⟩
    | false =>
      by_cases hcollect : op = .collect
      · subst hcollect
        obtain ⟨stats, h⟩ := snd_eq_ok.mp h
        obtain ⟨c, hc, h⟩ := bind_eq_ok.mp h
        cases h
        have hstrings := Heap.strings_collect hc
        exact ⟨fun entry he => he.collect hs.orderly hc, .inl ⟨hstrings, hsame hstrings⟩⟩
      · by_cases hintern : ∃ text creator, op = .intern text creator
        · obtain ⟨text, creator, rfl⟩ := hintern
          obtain ⟨o, h⟩ := snd_eq_ok.mp h
          cases hnone : s.kernel.heap.interned? text with
          | some o' =>
            rw [Kernel.internString_of_interned? hnone] at h
            cases h
            exact ⟨fun _ => id, .inl ⟨rfl, hsame rfl⟩⟩
          | none =>
            obtain ⟨entry, k₁, h₁, htext, hstrings, hrecords, hkeeps⟩ := Kernel.internString_new hs
              (hop.room rfl) (Kernel.knowsCreator_of_internString hnone h) hnone
            rw [h] at h₁
            cases h₁
            refine ⟨?_, .inr ⟨entry, by rw [htext]; exact hnone, hrecords, hstrings,
              made_goOn [entry] hstrings⟩⟩
            exact fun entry he => he.keeps hs.orderly.heap fun o e _ => hkeeps o e trivial
        · have hall := hleaves (.grow hstirs hcollect
            (fun text creator heq => hintern ⟨text, creator, heq⟩) hop.texts
            (fun hallocates => (hs.roomy (hop.room hallocates)).mono (Nat.le_succ 1)) h)
          exact ⟨hall.1, .inl hall.2⟩

theorem Reached.records (hs : s.Reached) : ∀ entry ∈ s.made, s.kernel.Records entry := by
  induction hs with
  | start limit observers => exact nofun
  | step hs h ih =>
    obtain ⟨hkept, ⟨-, hmade⟩ | ⟨entry, -, hnew, -, hmade⟩⟩ := h.cases hs.built.sited
    · rw [hmade]
      exact fun entry he => hkept entry (ih entry he)
    · rw [hmade]
      intro entry' he'
      rcases List.mem_cons.mp he' with rfl | he'
      · exact hnew
      · exact hkept entry' (ih entry' he')
  | restore _ _ _ _ ih =>
    intro entry he
    obtain ⟨e, chars, c, h⟩ := ih entry he
    exact ⟨e, chars, c, h⟩

abbrev Steps : Trail → Trail → Prop := Relation.ReflTransGen Step

theorem Reached.steps (hs : s.Reached) (h : s.Steps s') : s'.Reached := by
  induction h with
  | refl => exact hs
  | tail _ h ih => exact ih.step h

end Trail

namespace Kernel

def Finds (k : Kernel) (text : String) (o : Ref) : Prop :=
  ∃ entry, k.heap.strings.find? (·.text == text) = some entry ∧ entry.ref = o ∧ k.Records entry

variable {k : Kernel} {text : String} {o : Ref}

theorem Finds.spells (h : k.Finds text o) (hk : k.Sited) : k.Spells o text := by
  obtain ⟨entry, hentry, rfl, hrecords⟩ := h
  have htext : entry.text = text := by simpa using List.find?_some hentry
  rw [← htext]
  exact hrecords.spells hk.core

theorem Finds.interned? (h : k.Finds text o) (hk : k.Sited) : k.heap.interned? text = some o := by
  obtain ⟨entry, hentry, rfl, e, chars, c, he, hgid, -⟩ := h
  exact interned?_eq_some.mpr ⟨entry, e, hentry, he, hgid, hk.orderly.heap.ref_of_get? he⟩

end Kernel

namespace Trail

variable {s s' : Trail} {text : String} {o : Ref}

theorem Step.finds (hs : s.kernel.Sited) (h : s.Step s') (ho : s.kernel.Finds text o) :
    s'.kernel.Finds text o := by
  have hvalid := ho.interned? hs
  obtain ⟨entry, hentry, href, hrecords⟩ := ho
  obtain ⟨hkept, ⟨hstrings, -⟩ | ⟨entry', hnone, -, hstrings, -⟩⟩ := h.cases hs
  · exact ⟨entry, by rwa [hstrings], href, hkept entry hrecords⟩
  · refine ⟨entry, ?_, href, hkept entry hrecords⟩
    -- a text that the table knows gets no other entry
    have hne : entry'.text ≠ text := by
      rintro rfl
      rw [hnone] at hvalid
      cases hvalid
    rw [hstrings, List.find?_cons_of_neg (by simpa using hne)]
    exact hentry

theorem Reached.finds (hs : s.Reached) (h : s.Steps s') (ho : s.kernel.Finds text o) :
    s'.kernel.Finds text o := by
  induction h with
  | refl => exact ho
  | tail h₁ h₂ ih => exact h₂.finds (hs.steps h₁).built.sited ih

theorem Reached.of_internString (hs : s.Reached) {creator : Option ThreadId} {k : Kernel}
    (hsize : s.kernel.heap.size + 2 ≤ Heap.maxSize)
    (h : s.kernel.internString text creator = .ok (o, k)) :
    k.heap.contains o = true ∧ s.Step (s.goOn k) ∧ (s.Owns text → k.Finds text o) := by
  have hsited := hs.built.sited
  have hperform : s.kernel.perform (.intern text creator) = .ok k := snd_eq_ok.mpr ⟨o, h⟩
  have hstep : s.Step (s.goOn k) := .perform ⟨by simp [Op.touched], fun _ => hsize⟩ hperform
  cases hentry : s.kernel.heap.interned? text with
  | none =>
    obtain ⟨entry, k₁, h₁, htext, hstrings, hrecords, -⟩ :=
      Kernel.internString_new hsited hsize (Kernel.knowsCreator_of_internString hentry h) hentry
    rw [h] at h₁
    cases h₁
    refine ⟨?_, hstep, fun _ => ⟨entry, ?_, rfl, hrecords⟩⟩
    · obtain ⟨e, _, _, he, -⟩ := hrecords
      exact Option.isSome_of_eq_some he
    · rw [hstrings, List.find?_cons_of_pos (by simpa using htext)]
  | some o' =>
    rw [Kernel.internString_of_interned? hentry] at h
    cases h
    obtain ⟨entry, e, hfound, he, hgid, hobject⟩ := Kernel.interned?_eq_some.mp hentry
    have href : entry.ref = o := (hsited.orderly.heap.ref_of_get? he).symm.trans hobject
    refine ⟨?_, hstep, fun howns => ⟨entry, hfound, href, ?_⟩⟩
    · rw [← href]
      exact Option.isSome_of_eq_some he
    · apply hs.records
      apply howns entry hfound
      unfold Heap.nameOf?
      rw [he, ← hgid]
      rfl

/-- Interning always returns a live object. Unless an entry of another path is in the way, this is a string
object that spells the text, and as long as nothing is put back it keeps spelling it, is returned for the
text again, and is not returned for another text. -/
theorem interned_spells (hs : s.Reached) (text : String) (creator : Option ThreadId)
    (hcreator : s.kernel.KnowsCreator creator) (hsize : s.kernel.heap.size + 2 ≤ Heap.maxSize) :
    ∃ o k, s.kernel.internString text creator = .ok (o, k) ∧ k.heap.contains o = true ∧
      (s.Owns text → ∀ s', (s.goOn k).Steps s' →
        s'.kernel.Spells o text ∧
        (∀ creator', s'.kernel.internString text creator' = .ok (o, s'.kernel)) ∧
        ∀ text' creator' o' k', text' ≠ text → s'.Owns text' →
          s'.kernel.heap.size + 2 ≤ Heap.maxSize →
          s'.kernel.internString text' creator' = .ok (o', k') → o' ≠ o) := by
  have hsited := hs.built.sited
  obtain ⟨o, k, h, -⟩ := Kernel.internString_ok hsited.core (hsited.roomy hsize) hcreator text
  obtain ⟨hlive, hstep, hfinds⟩ := hs.of_internString hsize h
  refine ⟨o, k, h, hlive, fun howns s' hsteps => ?_⟩
  have hs₁ := hs.step hstep
  have hs' := hs₁.steps hsteps
  have ho := hs₁.finds hsteps (hfinds howns)
  refine ⟨ho.spells hs'.built.sited, Kernel.internString_of_interned? (ho.interned? hs'.built.sited), ?_⟩
  rintro text' creator' o' k' hne howns' hsize' h' rfl
  obtain ⟨-, hstep', hfinds'⟩ := hs'.of_internString hsize' h'
  have hsited' := (hs'.step hstep').built.sited
  exact hne (((hfinds' howns').spells hsited').unique ((hstep'.finds hs'.built.sited ho).spells hsited'))

def perform (s : Trail) (op : Op) : Trail := s.goOn (s.kernel.performAll [op])

theorem Reached.perform {op : Op} (hs : s.Reached) (hop : op.SparesStrings s.kernel)
    (h : (s.kernel.perform op).isOk = true) : (s.perform op).Reached :=
  hs.step (.perform hop (Kernel.perform_eq_performAll h))

def blank : Trail := { kernel := .withLimit none }

def rewound : Trail :=
  ⟨(blank.perform (.intern "a" none)).kernel.restore blank.kernel.snapshot.1, blank.made⟩

def reissued : Trail :=
  ((rewound.perform (.intern "b" none)).perform (.newArray .int 2 none none)).perform .collect

theorem reached_reissued : reissued.Reached := by
  have hblank : blank.Reached := .start none {}
  have hrewound : rewound.Reached :=
    .restore (hblank.perform (by decide +kernel) (by decide +kernel)) hblank
      ⟨by decide +kernel, by decide +kernel⟩
  have hsecond : (rewound.perform (.intern "b" none)).Reached :=
    hrewound.perform (by decide +kernel) (by decide +kernel)
  exact (hsecond.perform (by decide +kernel) (by decide +kernel)).perform (by decide +kernel)
    (by decide +kernel)

theorem size_reissued : reissued.kernel.heap.size + 2 ≤ Heap.maxSize := by
  decide +kernel

theorem interned_spells_reissued :
    reissued.Reached ∧ reissued.kernel.heap.size + 2 ≤ Heap.maxSize ∧ reissued.Owns "b" ∧
      ∃ o k, reissued.kernel.internString "b" none = .ok (o, k) ∧ k.Spells o "b" := by
  have howns : reissued.Owns "b" := by decide +kernel
  obtain ⟨o, k, h, -, hspells⟩ := interned_spells reached_reissued "b" none nofun size_reissued
  exact ⟨reached_reissued, size_reissued, howns, o, k, h, (hspells howns _ .refl).1⟩

theorem interned_stale :
    reissued.Reached ∧ ∃ o, reissued.kernel.internString "b" none = .ok (o, reissued.kernel) ∧
      reissued.kernel.internString "a" none = .ok (o, reissued.kernel) ∧
      ¬ reissued.kernel.Spells o "a" := by
  have hb : reissued.kernel.internString "b" none = .ok (⟨1⟩, reissued.kernel) :=
    Kernel.internString_of_interned? (by decide +kernel) none
  have ha : reissued.kernel.internString "a" none = .ok (⟨1⟩, reissued.kernel) :=
    Kernel.internString_of_interned? (by decide +kernel) none
  obtain ⟨-, -, hfinds⟩ := reached_reissued.of_internString size_reissued hb
  have hspells := (hfinds (by decide +kernel)).spells reached_reissued.built.sited
  refine ⟨reached_reissued, ⟨1⟩, hb, ha, fun h => ?_⟩
  exact absurd (hspells.unique h) (by decide)

end Trail

end Interleave
