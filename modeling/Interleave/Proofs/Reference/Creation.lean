import Interleave.Proofs.Reference.Linked

/-!
Making objects. Classes, strings and threads are made whenever there is room for them, and no reference
to anything that is not live comes with them.
-/

namespace Interleave

namespace Fields

theorem foldlM_setInt_ok {α : Type} {g : α → Int32} {l : List (α × Nat)} {f : Fields}
    (hl : ∀ p ∈ l, p.2 < f.size) :
    ∃ f', l.foldlM (fun f p => f.setInt p.2 (g p.1)) f = .ok f' ∧ f'.refs = f.refs := by
  induction l generalizing f with
  | nil => exact ⟨f, rfl, rfl⟩
  | cons p l ih =>
    have hp : p.2 < f.size := hl p List.mem_cons_self
    obtain ⟨f', hf', hrefs⟩ := ih (f := { f with values := f.values.setIfInBounds p.2 (g p.1) }) (by
      intro q hq
      simpa [size] using hl q (List.mem_cons_of_mem p hq))
    refine ⟨f', ?_, hrefs⟩
    rw [List.foldlM_cons]
    refine bind_eq_ok.mpr ⟨_, ?_, hf'⟩
    unfold setInt
    rw [if_pos hp]
    rfl

end Fields

namespace Kernel

variable {k k' : Kernel} {creator : Option ThreadId}

theorem register_of_core (h : Registry.core.classes.toList <+: k.classes.classes.toList)
    {c : ClassDescriptor} {i : ClassId} (hi : Registry.core.lookup? c.name = some i) :
    k.register c = (i, k) := by
  unfold Kernel.register
  rw [Registry.register_core h hi]

theorem loadClass_ok (hcore : Registry.core.classes.toList <+: k.classes.classes.toList)
    (hroom : k.heap.Roomy 1) {c : ClassId} (hc : k.statics.contains c = true ∨ c < k.classes.size) :
    ∃ k', k.loadClass c = .ok k' ∧ k.Extends k' := by
  unfold loadClass
  split
  · exact ⟨k, rfl, .refl k⟩
  · next hnew =>
    have hc := hc.resolve_left hnew
    have hclass : k.classes.classes[0]? = some { ClassDescriptor.classClass with id := 0 } :=
      Registry.getElem?_of_prefix hcore rfl
    rw [Registry.get_eq_ok.mpr (Array.getElem?_eq_getElem hc), ok_bind,
      register_of_core hcore (i := 0) (by decide +kernel)]
    dsimp only
    rw [Registry.get_eq_ok.mpr hclass, ok_bind]
    refine ⟨_, rfl, ?_⟩
    have hplaces : k.Places
        (fun r => .fresh r (k.pool.intern (.ofClass c)).1 0 .object (.ofMask []) none)
        ({ k with pool := (k.pool.intern (.ofClass c)).2 }.allocate
          { ClassDescriptor.classClass with id := 0 } none (k.pool.intern (.ofClass c)).1).2 :=
      ⟨rfl, rfl, rfl, id⟩
    have hlive := Option.isSome_of_eq_some (hplaces.get? hroom)
    exact (Extends.places hplaces fun _ => Element.not_traces_object _ _ _ _ _).trans
      ((Extends.addClass _ _ hlive).trans (.of_eq rfl rfl rfl))

theorem isKnown_of_loadClass {c : ClassId} (h : k.loadClass c = .ok k') :
    k.statics.contains c = true ∨ c < k.classes.size := by
  unfold loadClass at h
  split at h
  · next hloaded => exact .inl hloaded
  · obtain ⟨desc, hdesc, -⟩ := bind_eq_ok.mp h
    exact .inr (Array.getElem?_eq_some_iff.mp (Registry.get_eq_ok.mp hdesc)).1

theorem updateElement_chars {chars : Ref} {e : Element} {units : List Nat}
    (he : k.heap.get? chars = some e) (hfields : e.fields = .ofArray .char units.length)
    (hobject : ∀ r, ¬ e.HasClassObject r) :
    ∃ e', k.updateElement chars (fun e => e.updateFields fun f =>
        units.zipIdx.foldlM (fun f (unit, i) => f.setInt i (wordOf unit)) f) =
          .ok { k with heap := k.heap.put chars e' } ∧
      k.Extends { k with heap := k.heap.put chars e' } := by
  obtain ⟨fields, hwritten, hrefs⟩ := Fields.foldlM_setInt_ok (g := wordOf) (l := units.zipIdx)
    (f := e.fields) (by
      intro p hp
      rw [hfields]
      simpa [Fields.ofArray, Fields.size, ValueKind.isReference, ValueKind.width] using
        List.snd_lt_of_mem_zipIdx hp)
  refine ⟨{ e with fields },
    updateElement_eq_ok.mpr ⟨e, _, he, bind_eq_ok.mpr ⟨fields, hwritten, rfl⟩, rfl⟩, .put he fun r hr => ?_⟩
  refine absurd hr (Element.not_traces_of_isNull (e := { e with fields }) ?_ hobject r)
  intro i r hr
  have href := (Fields.holds_iff.mp hr).2
  unfold Fields.isReference at href
  rw [hrefs, hfields] at href
  cases href

theorem updateElement_setInt {o : Ref} {v : Int32} {e : Element} {i : Nat} (he : k.heap.get? o = some e)
    (hi : i < e.fields.size) (hv : e.fields.isReference i = true → k.heap.contains ⟨v⟩ = true) :
    ∃ e', k.updateElement o (·.updateFields (·.setInt i v)) = .ok { k with heap := k.heap.put o e' } ∧
      k.Extends { k with heap := k.heap.put o e' } := by
  obtain ⟨fields, hfields⟩ : ∃ fields, e.fields.setInt i v = .ok fields := by
    unfold Fields.setInt
    rw [if_pos hi]
    exact ⟨_, rfl⟩
  refine ⟨{ e with fields },
    updateElement_eq_ok.mpr ⟨e, _, he, bind_eq_ok.mpr ⟨fields, hfields, rfl⟩, rfl⟩, .put he fun r hr => ?_⟩
  refine hr.of_written (p := (k.heap.contains · = true)) rfl rfl ?_
  intro j r hj _
  refine (Fields.of_holds_setInt hfields hj).imp_right ?_
  rintro ⟨rfl, href, hslot⟩
  rw [← hslot] at hv
  exact hv href

theorem newString_ok (hcore : Registry.core.classes.toList <+: k.classes.classes.toList)
    (hroom : k.heap.Roomy 2) (hcreator : k.KnowsCreator creator) (text : String) :
    ∃ o k', k.newString text creator = .ok (o, k') ∧ k.Extends k' ∧ k'.heap.contains o = true := by
  obtain ⟨gid₁, c, k₁, h₁, hplaces₁⟩ := newArray_ok hcreator .char (utf16 text).length none
  obtain ⟨e₂, h₂, hext₂⟩ := updateElement_chars (hplaces₁.get? hroom) rfl fun r hr => by
    obtain ⟨status, hkind⟩ := hr
    cases hkind
  have hstring : k₁.classes.classes[2]? = some { ClassDescriptor.stringClass with id := 2 } :=
    Registry.getElem?_of_prefix (hplaces₁.core hcore) rfl
  obtain ⟨k₂, hk₂⟩ : ∃ k₂ : Kernel, k₂ =
    { k₁ with heap := k₁.heap.put (.ofIndex k.heap.arena.nextFree) e₂ } := ⟨_, rfl⟩
  rw [← hk₂] at h₂ hext₂
  have hcreator₂ : k₂.KnowsCreator creator := by
    rw [hk₂]
    unfold KnowsCreator
    dsimp only
    rw [hplaces₁.threads]
    exact hcreator
  have hroom₂ : k₂.heap.Roomy 1 := by
    rw [hk₂]
    exact (hplaces₁.roomy hroom).put _ _
  obtain ⟨gid₂, k₃, h₃, hplaces₃⟩ := newObject_ok (k := k₂) (c := 2) hcreator₂
    (by rw [hk₂]; exact hstring) none
  have hdesc : k₃.classes.classes[2]? = some { ClassDescriptor.stringClass with id := 2 } :=
    Registry.getElem?_of_prefix (hplaces₃.core (by rw [hk₂]; exact hplaces₁.core hcore)) rfl
  obtain ⟨e₄, h₄, hext₄⟩ := updateElement_setInt (hplaces₃.get? hroom₂)
    (v := (Ref.ofIndex k.heap.arena.nextFree).slot) (i := 0) Nat.zero_lt_one (by
      intro _
      rw [Heap.contains, hplaces₃.get?_of_some (e := e₂)]
      · rfl
      · rw [hk₂, Heap.get?_put, if_pos rfl, hplaces₁.get? hroom]
        rfl)
  refine ⟨.ofIndex k₂.heap.arena.nextFree,
    { k₃ with heap := k₃.heap.put (.ofIndex k₂.heap.arena.nextFree) e₄ }, ?_, ?_, ?_⟩
  · unfold newString
    refine bind_eq_ok.mpr ⟨_, h₁, bind_eq_ok.mpr ⟨k₂, h₂, ?_⟩⟩
    rw [register_of_core (by rw [hk₂]; exact hplaces₁.core hcore) (i := 2) (by decide +kernel)]
    refine bind_eq_ok.mpr ⟨_, h₃, bind_eq_ok.mpr ⟨_, Registry.get_eq_ok.mpr hdesc, ?_⟩⟩
    exact bind_eq_ok.mpr ⟨_, h₄, rfl⟩
  · exact (Extends.places hplaces₁ fun _ => Element.not_traces_array _ _ _ _ _ _).trans (hext₂.trans
      ((Extends.places hplaces₃ fun _ => Element.not_traces_object _ _ _ _ _).trans hext₄))
  · exact hext₄.live _ (Option.isSome_of_eq_some (hplaces₃.get? hroom₂))

theorem internString_ok (hcore : Registry.core.classes.toList <+: k.classes.classes.toList)
    (hroom : k.heap.Roomy 2) (hcreator : k.KnowsCreator creator) (text : String) :
    ∃ o k', k.internString text creator = .ok (o, k') ∧ k.Extends k' := by
  unfold internString
  split
  · exact ⟨_, k, rfl, .refl k⟩
  · obtain ⟨o, k₁, h₁, hext₁, hlive⟩ := newString_ok hcore hroom hcreator text
    obtain ⟨e, he⟩ := Option.isSome_iff_exists.mp hlive
    refine ⟨o, _, bind_eq_ok.mpr ⟨_, h₁, bind_eq_ok.mpr ⟨_, bind_eq_ok.mpr ⟨e, deref_eq_ok.mpr he, rfl⟩,
      rfl⟩⟩, hext₁.trans ?_⟩
    have hpin : k₁.Extends { k₁ with heap := k₁.heap.put o { e.pin with interned := true } } :=
      .put he fun _ => .inl
    exact hpin.trans (.of_eq rfl rfl rfl)

theorem createThread_ok (hcore : Registry.core.classes.toList <+: k.classes.classes.toList)
    (hroom : k.heap.Roomy 1) (hcreator : k.KnowsCreator creator) (name : String) (site : Option Site) :
    ∃ t k', k.createThread name creator site = .ok (t, k') ∧ k.Extends k' := by
  obtain ⟨gid, pool, tally, hgid⟩ := newGlobalId_ok hcreator site
  have hclass : k.classes.classes[1]? = some { ClassDescriptor.threadClass with id := 1 } :=
    Registry.getElem?_of_prefix hcore rfl
  obtain ⟨k₁, hk₁⟩ : ∃ k₁ : Kernel, k₁ = ({ k with pool, tally }.allocate
      { ClassDescriptor.threadClass with id := 1 } creator gid).2 := ⟨_, rfl⟩
  have hplaces : k.Places (fun r => .fresh r gid 1 .object (.ofMask [false]) creator) k₁ := by
    rw [hk₁]
    exact ⟨rfl, rfl, rfl, id⟩
  have hadd : ∀ info : Thread, info.IsNew k₁.threads.nextId →
      info.object = .ofIndex k.heap.arena.nextFree →
      ∃ t k', (k₁.updateElement (.ofIndex k.heap.arena.nextFree)
            (·.updateFields (·.setInt 0 info.priority)) >>= fun k =>
          k.threads.add info >>= fun p => pure (p.1, { k with threads := p.2 })) = .ok (t, k') ∧
        k.Extends k' := by
    intro info hnew hobject
    obtain ⟨e, h₂, hext₂⟩ := updateElement_setInt (hplaces.get? hroom) (i := 0) (v := info.priority)
      Nat.zero_lt_one nofun
    refine ⟨_, _, bind_eq_ok.mpr ⟨_, h₂, bind_eq_ok.mpr
      ⟨_, Roster.add_eq_ok.mpr ⟨⟨hnew.id, rfl⟩, rfl⟩, rfl⟩⟩, ?_⟩
    refine (Extends.places hplaces fun _ => Element.not_traces_object _ _ _ _ _).trans (hext₂.trans
      (.push _ hnew ?_))
    rw [hobject]
    exact hext₂.live _ (Option.isSome_of_eq_some (hplaces.get? hroom))
  have hthreads : k₁.threads = k.threads := hplaces.threads
  have hregister : { k with pool, tally }.register .threadClass = (1, { k with pool, tally }) :=
    register_of_core (k := { k with pool, tally }) hcore (by decide +kernel)
  unfold createThread
  rw [hgid, ok_bind]
  dsimp only
  rw [hregister]
  dsimp only
  rw [Registry.get_eq_ok.mpr hclass, ok_bind]
  subst hk₁
  cases creator with
  | none => exact hadd _ ⟨rfl, rfl, rfl, rfl, rfl⟩ rfl
  | some parent =>
    obtain ⟨info, hinfo⟩ := Option.isSome_iff_exists.mp (hcreator parent rfl)
    have hparent := get_eq_ok.mpr hinfo
    rw [← hthreads] at hparent
    dsimp only
    rw [hparent]
    exact hadd _ ⟨rfl, rfl, rfl, rfl, rfl⟩ rfl

end Kernel

end Interleave
