import Interleave.Proofs.Box.Caches
import Interleave.Proofs.Reference.Creation

/-!
Making boxes. A new box holds its value, an array of boxes holds one for every value within the bounds, and
nothing else changes when they are made.
-/

namespace Interleave

namespace BoxKind

variable {kind : BoxKind} {v v' : Int64}

def slotValue (kind : BoxKind) (v : Int64) : SlotValue :=
  match kind with
  | long => .long v
  | _ => .int v.toInt32

theorem slotValue_isOf (kind : BoxKind) (v : Int64) : (kind.slotValue v).IsOf kind.valueKind := by
  cases kind <;> first | exact rfl | exact ⟨rfl, by decide⟩

theorem toInt64_toInt32 (h : kind.Has v) (hkind : kind ≠ .long) : v.toInt32.toInt64 = v := by
  obtain ⟨hlow, hhigh⟩ := h
  have hrange : -0x80000000 ≤ kind.range.1.toInt ∧ kind.range.2.toInt < 0x80000000 := by
    cases kind with
    | long => exact absurd rfl hkind
    | _ => decide
  rw [Int64.le_iff_toInt_le] at hlow hhigh
  apply Int64.toInt_inj.mp
  rw [Int32.toInt_toInt64, Int64.toInt_toInt32, Int.bmod_eq_of_le] <;> omega

theorem slotValue_inj (h : kind.Has v) (h' : kind.Has v') (heq : kind.slotValue v = kind.slotValue v') :
    v = v' := by
  cases kind with
  | long => exact SlotValue.long.inj heq
  | _ => rw [← toInt64_toInt32 h nofun, SlotValue.int.inj heq, toInt64_toInt32 h' nofun]

end BoxKind

structure Element.IsBox (r : Registry) (kind : BoxKind) (v : Int64) (e : Element) : Prop where
  desc : r.classes[e.classId]? = some { kind.boxClass with id := e.classId }
  isObject : e.kind = .object
  read : kind.valueKind.read e.fields 0 = .ok (kind.slotValue v)
  weak : e.weak = false

theorem Element.IsBox.mono {r r' : Registry} {kind : BoxKind} {v : Int64} {e : Element}
    (he : e.IsBox r kind v) (h : r.classes.toList <+: r'.classes.toList) : e.IsBox r' kind v :=
  ⟨Registry.getElem?_of_prefix h he.desc, he.isObject, he.read, he.weak⟩

theorem Statics.Spares.trans {s s' s'' : Statics} {c : ClassId} (h : s.Spares c s') (h' : s'.Spares c s'') :
    s.Spares c s'' := by
  rcases h with h | ⟨hnone, e, mask, he, hfields⟩
  · rcases h' with h' | ⟨hnone', hnew⟩
    · exact .inl (h'.trans h)
    · rw [hnone', Option.map_none, eq_comm, Option.map_eq_none_iff] at h
      exact .inr ⟨h, hnew⟩
  · rcases h' with h' | ⟨hnone', -⟩
    · rw [he, Option.map_some, Option.map_eq_some_iff] at h'
      obtain ⟨e', he', hfields'⟩ := h'
      exact .inr ⟨hnone, e', mask, he', hfields'.trans hfields⟩
    · rw [he] at hnone'
      cases hnone'

namespace Kernel

structure Adds (p : Ref → Prop) (n : Nat) (k k' : Kernel) : Prop where
  built : Built (fun _ _ => True) k → Built (fun _ _ => True) k'
  reserved : k.classes.ReservesBoxes → k'.classes.ReservesBoxes
  classes : k.classes.classes.toList <+: k'.classes.classes.toList
  threads : k'.threads = k.threads
  statics : ∀ c, k.statics.Spares c k'.statics
  objects : ∀ o e, p o → k.heap.get? o = some e → k'.heap.get? o = some e
  room : ∀ m, k.heap.Roomy (m + n) → k'.heap.Roomy m

namespace Adds

variable {p q : Ref → Prop} {n m : Nat} {k k' k'' : Kernel}

theorem refl (p : Ref → Prop) (k : Kernel) : Adds p 0 k k :=
  ⟨id, id, List.prefix_rfl, rfl, fun _ => .inl rfl, fun _ _ _ => id, fun _ => id⟩

theorem trans (h : Adds p n k k') (h' : Adds p m k' k'') : Adds p (n + m) k k'' where
  built := h'.built ∘ h.built
  reserved := h'.reserved ∘ h.reserved
  classes := h.classes.trans h'.classes
  threads := h'.threads.trans h.threads
  statics := fun c => (h.statics c).trans (h'.statics c)
  objects := fun o e ho he => h'.objects o e ho (h.objects o e ho he)
  room := by
    intro l hl
    apply h'.room
    apply h.room
    rwa [Nat.add_assoc, Nat.add_comm m]

theorem mono (h : Adds p n k k') (hp : ∀ o, q o → (k.heap.get? o).isSome = true → p o) (hle : n ≤ m) :
    Adds q m k k' where
  built := h.built
  reserved := h.reserved
  classes := h.classes
  threads := h.threads
  statics := h.statics
  objects := fun o e ho he => h.objects o e (hp o ho (Option.isSome_of_eq_some he)) he
  room := fun l hl => h.room l (hl.mono (by omega))

theorem knowsCreator (h : Adds p n k k') {creator : Option ThreadId} (hc : k.KnowsCreator creator) :
    k'.KnowsCreator creator := by
  unfold KnowsCreator
  rw [h.threads]
  exact hc

theorem of_perform (op : Op) (h : k.perform op = .ok k') (hop : ∀ c name v, op ≠ .writeStatic c name v)
    (hreserved : k.classes.ReservesBoxes → k'.classes.ReservesBoxes) (hthreads : k'.threads = k.threads)
    (hobjects : ∀ o e, p o → k.heap.get? o = some e → k'.heap.get? o = some e)
    (hroom : ∀ m, k.heap.Roomy (m + n) → k'.heap.Roomy m) : Adds p n k k' where
  built := fun hk => hk.perform trivial h
  reserved := hreserved
  classes := (Lasts.effect (perform_effect h)).precedes.classes
  threads := hthreads
  statics := fun c => (perform_change h).spares (hop c)
  objects := hobjects
  room := hroom

theorem register {c : ClassDescriptor} (hc : c ∈ BoxKind.classes) : Adds p 0 k (k.register c).2 :=
  of_perform (.register c) rfl nofun (·.register (.inl hc)) rfl (fun _ _ _ => id) (fun _ => id)

theorem of_places (op : Op) (build : Ref → Element) (h : k.perform op = .ok k')
    (hop : ∀ c name v, op ≠ .writeStatic c name v) (hheap : k'.heap = (k.heap.place build).2)
    (hthreads : k'.threads = k.threads) (hreserved : k.classes.ReservesBoxes → k'.classes.ReservesBoxes) :
    Adds p 1 k k' := by
  apply of_perform op h hop hreserved hthreads
  · intro o e _ he
    rw [hheap, Heap.get?_place_of_some he]
  · intro m hm
    rw [hheap]
    exact hm.place build

theorem newObject {c : ClassId} {creator : Option ThreadId} {site : Option Site} {o : Ref}
    (h : k.newObject c creator site = .ok (o, k')) : Adds p 1 k k' := by
  have hperform : k.perform (.newObject c creator site) = .ok k' := snd_eq_ok.mpr ⟨o, h⟩
  obtain ⟨⟨gid, k₁⟩, h₁, h⟩ := bind_eq_ok.mp h
  obtain ⟨desc, -, h⟩ := bind_eq_ok.mp h
  obtain ⟨thread, -, -, rfl⟩ := newGlobalId_eq_ok.mp h₁
  cases h
  exact of_places _ (fun ref => .fresh ref gid desc.id .object (.ofMask desc.instances.refMask) creator)
    hperform nofun rfl rfl id

theorem newArray {elem : ValueKind} {length : Nat} {creator : Option ThreadId} {site : Option Site}
    {o : Ref} (h : k.newArray elem length creator site = .ok (o, k')) : Adds p 1 k k' := by
  have hperform : k.perform (.newArray elem length creator site) = .ok k' := snd_eq_ok.mpr ⟨o, h⟩
  obtain ⟨⟨gid, k₁⟩, h₁, h⟩ := bind_eq_ok.mp h
  obtain ⟨thread, -, -, rfl⟩ := newGlobalId_eq_ok.mp h₁
  cases h
  have hname : ∀ c ∈ BoxKind.classes, (ClassDescriptor.array elem).name ≠ c.name := by
    cases elem <;> decide +kernel
  exact of_places _ (fun ref => .fresh ref gid (k.classes.arrayClass elem).1 (.array elem length)
    (.ofArray elem length) creator) hperform nofun rfl rfl (·.register (.inr hname))

theorem loadClass {c : ClassId} (h : k.loadClass c = .ok k') : Adds p 1 k k' := by
  have hperform : k.perform (.load c) = .ok k' := h
  have hname : ∀ c ∈ BoxKind.classes, ClassDescriptor.classClass.name ≠ c.name := by decide +kernel
  unfold Kernel.loadClass at h
  split at h
  · cases h
    exact (refl p k).mono (fun _ ho _ => ho) (Nat.zero_le 1)
  · obtain ⟨desc, -, h⟩ := bind_eq_ok.mp h
    obtain ⟨classDesc, -, h⟩ := bind_eq_ok.mp h
    cases h
    exact of_places _ (fun ref => .fresh ref (k.pool.intern (.ofClass c)).1 classDesc.id .object
      (.ofMask classDesc.instances.refMask) none) hperform nofun rfl rfl (·.register (.inr hname))

theorem put {op : Op} {o : Ref} {e : Element} (h : k.perform op = .ok { k with heap := k.heap.put o e })
    (hop : ∀ c name v, op ≠ .writeStatic c name v) (ho : ¬ p o) :
    Adds p 0 k { k with heap := k.heap.put o e } := by
  apply of_perform op h hop id rfl
  · intro o' e' ho' he'
    dsimp only
    rw [Heap.get?_put, if_neg, he']
    rintro rfl
    exact ho ho'
  · intro m hm
    exact hm.put o e

end Adds

variable {k : Kernel} {t : ThreadId} {kind : BoxKind} {b : BoxBounds} {v : Int64}

theorem newBox_eq (k : Kernel) (t : ThreadId) (kind : BoxKind) (v : Int64) :
    k.newBox t kind v = (do
      let (o, k) ← (k.register kind.boxClass).2.newObject (k.register kind.boxClass).1 (some t) none
      let (r, k) ← k.setField o "value" (kind.slotValue v)
      return (r.map fun _ => o, k)) := by
  cases kind <;> rfl

theorem setField_value {o : Ref} {e : Element} (he : k.heap.get? o = some e)
    (hdesc : k.classes.classes[e.classId]? = some { kind.boxClass with id := e.classId })
    (hobject : e.kind = .object) (hfields : e.fields = .ofMask kind.boxClass.instances.refMask)
    (hweak : e.weak = false) (v : Int64) :
    ∃ e', k.setField o "value" (kind.slotValue v) = .ok (.ok (), { k with heap := k.heap.put o e' }) ∧
      e'.IsBox k.classes kind v := by
  have hfits : e.fields.Fits kind.boxClass.instances := by
    rw [hfields]
    exact Fields.marks_ofMask _
  obtain ⟨fs, hfs, -, hread, -⟩ := hfits.write (p := (⟨"value", kind.valueKind⟩, 0)) List.mem_cons_self
    (kind.slotValue_isOf v)
  exact ⟨{ e with fields := fs }, setField_eq_ok (f := ⟨"value", kind.valueKind⟩) he hdesc rfl hfs, hdesc,
    hobject, hread, hweak⟩

theorem newBox_ok (hk : Built (fun _ _ => True) k) (hr : k.classes.ReservesBoxes)
    (ht : k.KnowsCreator (some t)) (hroom : k.heap.Roomy 1) (kind : BoxKind) (v : Int64) :
    ∃ o k' e, k.newBox t kind v = .ok (.ok o, k') ∧ Adds (fun _ => True) 1 k k' ∧
      k.heap.get? o = none ∧ k'.heap.get? o = some e ∧ e.IsBox k'.classes kind v := by
  have hclass := hr.getElem?_register (Conforms.built hk).ids kind.boxClass_mem
  have hregister : Adds (fun o => (k.heap.get? o).isSome = true) 0 k (k.register kind.boxClass).2 :=
    .register kind.boxClass_mem
  obtain ⟨gid, k₂, h₂, hplaces⟩ := newObject_ok (hregister.knowsCreator ht) hclass none
  have hadds := hregister.trans (.newObject h₂)
  obtain ⟨o, ho⟩ : ∃ o, o = Ref.ofIndex (k.register kind.boxClass).2.heap.arena.nextFree := ⟨_, rfl⟩
  have hlive := hplaces.get? (n := 0) hroom
  have hnew : k.heap.get? o = none := by
    rw [ho]
    exact Heap.get?_eq_none_of_nextFree (Ref.index?_ofIndex hroom.nextFree_lt)
  rw [← ho] at h₂ hlive
  have hdesc := Registry.getElem?_of_prefix (Adds.newObject (p := fun _ => True) h₂).classes hclass
  obtain ⟨e, hset, hbox⟩ := setField_value hlive hdesc rfl rfl rfl v
  have hwrite : k₂.perform (.writeField o "value" (kind.slotValue v)) =
      .ok { k₂ with heap := k₂.heap.put o e } :=
    snd_eq_ok.mpr ⟨_, setField_eq_writeField "value" ▸ hset⟩
  have hput := hadds.trans (.put hwrite nofun (by rw [hnew]; exact nofun))
  refine ⟨o, _, e, ?_, hput.mono (fun _ _ ho => ho) (Nat.le_refl 1), hnew, ?_, hbox⟩
  · rw [newBox_eq]
    refine bind_eq_ok.mpr ⟨_, h₂, bind_eq_ok.mpr ⟨_, hset, rfl⟩⟩
  · dsimp only
    rw [Heap.get?_put, if_pos rfl, hlive]
    rfl

theorem fillBoxes_ok {array : Ref} {values : List Int64} {slot : Nat} {a : Element}
    (hk : Built (fun _ _ => True) k) (hr : k.classes.ReservesBoxes) (ht : k.KnowsCreator (some t))
    (hroom : k.heap.Roomy values.length) (ha : k.heap.get? array = some a)
    (hsize : slot + values.length ≤ a.fields.size) (kind : BoxKind) :
    ∃ k' fs, k.fillBoxes t kind array slot values = .ok (.ok (), k') ∧
      Adds (· ≠ array) values.length k k' ∧ k'.heap.get? array = some { a with fields := fs } ∧
      fs.refs = a.fields.refs ∧ (∀ j < slot, fs.values[j]? = a.fields.values[j]?) ∧
      ∀ i v, values[i]? = some v → ∃ r e, fs.getRef (slot + i) = .ok r ∧ k'.heap.get? r = some e ∧
        e.IsBox k'.classes kind v := by
  induction values generalizing k slot a with
  | nil => exact ⟨k, a.fields, rfl, .refl _ k, ha, rfl, fun _ _ => rfl, nofun⟩
  | cons v values ih =>
    rw [List.length_cons] at hroom hsize
    obtain ⟨o, k₁, e, h₁, hadds₁, hnew, he, hbox⟩ := newBox_ok hk hr ht (hroom.mono (by omega)) kind v
    have hne : o ≠ array := by
      rintro rfl
      rw [ha] at hnew
      cases hnew
    have ha₁ := hadds₁.objects array a trivial ha
    obtain ⟨fs₁, hfs₁, ⟨hsize₁, hrefs₁⟩, hget₁, hrest₁⟩ := Fields.setInt_spec a.fields slot (by omega) o.slot
    obtain ⟨k₂, hk₂⟩ : ∃ k₂ : Kernel, k₂ =
      { k₁ with heap := k₁.heap.put array { a with fields := fs₁ } } := ⟨_, rfl⟩
    have h₂ : k₁.updateElement array (·.updateFields (·.setRef slot o)) = .ok k₂ :=
      updateElement_eq_ok.mpr ⟨a, _, ha₁, bind_eq_ok.mpr ⟨fs₁, hfs₁, rfl⟩, hk₂⟩
    have hget₂ : ∀ o', k₂.heap.get? o' =
        if array = o' then (k₁.heap.get? o').map fun _ => { a with fields := fs₁ } else k₁.heap.get? o' := by
      rw [hk₂]
      exact fun o' => Heap.get?_put _ _ _ _
    have hadds₂ : Adds (· ≠ array) 1 k k₂ := by
      have hwrite : k₁.perform (.writeSlot array slot (.ref o)) = .ok k₂ := h₂
      rw [hk₂] at hwrite ⊢
      exact (hadds₁.mono (fun _ _ _ => trivial) (Nat.le_refl 1)).trans (.put hwrite nofun (by simp))
    have ha₂ : k₂.heap.get? array = some { a with fields := fs₁ } := by
      rw [hget₂, if_pos rfl, ha₁]
      rfl
    obtain ⟨k', fs, h', hadds', ha', hrefs, hbefore, hboxes⟩ := ih (hadds₂.built hk) (hadds₂.reserved hr)
      (hadds₂.knowsCreator ht) (hadds₂.room _ hroom) ha₂
      (show slot + 1 + values.length ≤ fs₁.size by rw [hsize₁]; omega)
    refine ⟨k', fs, ?_, ?_, ha', hrefs.trans hrefs₁, ?_, ?_⟩
    · unfold fillBoxes
      rw [h₁, ok_bind]
      dsimp only
      rw [h₂, ok_bind, h']
    · rw [List.length_cons, Nat.add_comm]
      exact hadds₂.trans hadds'
    · intro j hj
      rw [hbefore j (by omega), hrest₁ j (by omega)]
    · intro i v' hv'
      cases i with
      | zero =>
        cases hv'
        -- later boxes go to other slots, and leave this one alone
        refine ⟨o, e, ?_, hadds'.objects o e hne ?_, ?_⟩
        · unfold Fields.getRef
          rw [Nat.add_zero, Fields.getInt_congr (hbefore slot (Nat.lt_succ_self slot)), hget₁]
          rfl
        · rw [hget₂, if_neg hne.symm, he]
        · apply (hbox.mono ?_).mono hadds'.classes
          rw [hk₂]
      | succ i =>
        rw [List.getElem?_cons_succ] at hv'
        rw [← Nat.add_assoc, Nat.add_right_comm]
        exact hboxes i v' hv'

theorem getElem?_boxValues {low high : Int64} (hlow : low ≤ v) (hhigh : v ≤ high) :
    (boxValues low high)[(v.toInt - low.toInt).toNat]? = some v := by
  rw [Int64.le_iff_toInt_le] at hlow hhigh
  unfold boxValues
  rw [List.getElem?_map, List.getElem?_range (by omega), Option.map_some]
  congr 1
  rw [Int.toNat_of_nonneg (by omega), show low.toInt + (v.toInt - low.toInt) = v.toInt by omega]
  exact Int64.ofInt_toInt v

def BoxIn (k : Kernel) (b : BoxBounds) (array : Ref) (kind : BoxKind) (v : Int64) (r : Ref) : Prop :=
  ∃ a e, k.heap.get? array = some a ∧ (a.weak = false ∧ a.fields.refs = .all) ∧
    a.fields.getRef (v.toInt - (kind.bounds b).1.toInt).toNat = .ok r ∧ k.heap.get? r = some e ∧
    e.IsBox k.classes kind v

theorem BoxIn.adds {k' : Kernel} {array r : Ref} {n : Nat} (h : k.BoxIn b array kind v r)
    (hadds : Adds (fun _ => True) n k k') : k'.BoxIn b array kind v r := by
  obtain ⟨a, e, ha, hplain, hr, he, hbox⟩ := h
  exact ⟨a, e, hadds.objects array a trivial ha, hplain, hr, hadds.objects r e trivial he,
    hbox.mono hadds.classes⟩

theorem newBoxArray_ok (hk : Built (fun _ _ => True) k) (hr : k.classes.ReservesBoxes)
    (ht : k.KnowsCreator (some t)) (kind : BoxKind)
    (hroom : k.heap.Roomy ((boxValues (kind.bounds b).1 (kind.bounds b).2).length + 1)) :
    ∃ array k', k.newBoxArray b t kind = .ok (.ok array, k') ∧
      Adds (fun _ => True) ((boxValues (kind.bounds b).1 (kind.bounds b).2).length + 1) k k' ∧
      array.isNull = false ∧ ∀ v, kind.Caches b v → ∃ r, k'.BoxIn b array kind v r := by
  obtain ⟨values, hvalues⟩ : ∃ values, values = boxValues (kind.bounds b).1 (kind.bounds b).2 := ⟨_, rfl⟩
  rw [← hvalues] at hroom ⊢
  obtain ⟨gid, c, k₁, h₁, hplaces⟩ := newArray_ok ht .reference values.length none
  obtain ⟨array, harray⟩ : ∃ array, array = Ref.ofIndex k.heap.arena.nextFree := ⟨_, rfl⟩
  have hlive := hplaces.get? hroom
  have hindex : array.index? = some k.heap.arena.nextFree := by
    rw [harray]
    exact Ref.index?_ofIndex hroom.nextFree_lt
  rw [← harray] at h₁ hlive
  have hadds₁ : Adds (fun o => (k.heap.get? o).isSome = true) 1 k k₁ := .newArray h₁
  have hsize : 0 + values.length ≤ (Fields.ofArray .reference values.length).size := by
    simp [Fields.ofArray, Fields.size, ValueKind.isReference]
  obtain ⟨k', fs, h', hadds', ha', hrefs, -, hboxes⟩ := fillBoxes_ok (hadds₁.built hk)
    (hadds₁.reserved hr) (hadds₁.knowsCreator ht) (hadds₁.room _ hroom) hlive hsize kind
  refine ⟨array, k', ?_, ?_, ?_, ?_⟩
  · unfold newBoxArray
    dsimp only
    rw [← hvalues]
    exact bind_eq_ok.mpr ⟨_, h₁, bind_eq_ok.mpr ⟨_, h', rfl⟩⟩
  · have hkeeps : Adds (fun o => (k.heap.get? o).isSome = true) values.length k₁ k' := by
      apply hadds'.mono _ (Nat.le_refl _)
      rintro o ho - rfl
      rw [Heap.get?_eq_none_of_nextFree hindex] at ho
      cases ho
    exact (hadds₁.trans hkeeps).mono (fun _ _ ho => ho) (by omega)
  · exact Heap.isNull_of_get? ha'
  · intro v hv
    obtain ⟨r, e, hget, he, hbox⟩ := hboxes _ v (hvalues ▸ getElem?_boxValues hv.1 hv.2)
    rw [Nat.zero_add] at hget
    exact ⟨r, _, e, ha', ⟨rfl, hrefs⟩, hget, he, hbox⟩

end Kernel

end Interleave
