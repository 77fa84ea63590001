import Interleave.Proofs.Reference.Creation

/-!
No reference ever dangles. If operations are about threads and objects that exist, and if what they store
is null or live, then every reference that matters stays so, whatever is collected in between, and such
operations fail for want of slots and classes only.
-/

namespace Interleave

def Heap.IsSafe (h : Heap) (r : Ref) : Prop := r.isNull = true ∨ h.contains r = true

instance (h : Heap) (r : Ref) : Decidable (h.IsSafe r) :=
  inferInstanceAs (Decidable (r.isNull = true ∨ h.contains r = true))

structure Written where
  fields : Fields
  slot : Nat
  value : SlotValue

def Written.IsSafe (w : Written) (h : Heap) : Prop :=
  ∀ p ∈ w.value.words.zipIdx, w.fields.isReference (w.slot + p.2) = true → h.IsSafe ⟨p.1⟩

instance (w : Written) (h : Heap) : Decidable (w.IsSafe h) :=
  inferInstanceAs (Decidable (∀ p ∈ w.value.words.zipIdx,
    w.fields.isReference (w.slot + p.2) = true → h.IsSafe ⟨p.1⟩))

namespace Op

def threads : Op → List ThreadId
  | .newName creator _ | .newObject _ creator _ | .newArray _ _ creator _ | .intern _ creator
  | .createThread _ creator _ => creator.toList
  | .notifyThread t _ waiter => [t, waiter]
  | .start t _ | .enter t _ | .exit t | .executed t | .setFrame t _ | .setPriority t _ | .setDaemon t _
  | .sleep t | .endSleep t | .suspend t | .resume t | .terminate t | .lock t _ | .unlock t _ | .wait t _
  | .timedWait t _ | .timeOut t | .notify t _ | .notifyAll t _ | .park t | .unpark t | .interrupt t
  | .beginAtomic t | .endAtomic t => [t]
  | _ => []

theorem subject?_subset (op : Op) : ∀ t ∈ op.subject?, t ∈ op.threads := by
  intro t ht
  cases op <;> simp_all [subject?, threads]

def objects : Op → List Ref
  | .writeField o _ _ | .writeSlot o _ _ | .pin o | .unpin o | .makeWeak o | .cache o _ | .lock _ o
  | .unlock _ o | .wait _ o | .timedWait _ o | .notifyThread _ o _ | .notify _ o | .notifyAll _ o => [o]
  | _ => []

theorem object?_subset (op : Op) : ∀ o ∈ op.object?, o ∈ op.objects := by
  intro o ho
  cases op <;> simp_all [object?, objects]

def caller? : Op → Option ThreadId
  | .enter t _ | .exit t | .beginAtomic t | .endAtomic t => some t
  | _ => none

def allocates : Op → Bool
  | .load _ | .loadNamed _ | .newObject .. | .newArray .. | .intern .. | .createThread .. => true
  | _ => false

def written (k : Kernel) : Op → Option Written
  | .writeField o name value =>
    match k.heap.get? o, k.instanceSlot o name with
    | some e, .ok (.ok slot) => some ⟨e.fields, slot, value⟩
    | _, _ => none
  | .writeStatic c name value =>
    match k.statics.get? c, k.staticSlot c name with
    | some e, .ok (.ok slot) => some ⟨e.fields, slot, value⟩
    | _, _ => none
  | .writeSlot o slot value => (k.heap.get? o).map fun e => ⟨e.fields, slot, value⟩
  | _ => none

def classIds (k : Kernel) : Op → List ClassId
  | .load c | .newObject c _ _ | .writeStatic c _ _ => [c]
  | .writeField o _ _ => ((k.heap.get? o).map (·.classId)).toList
  | _ => []

@[mk_iff]
structure Disciplined (k : Kernel) (op : Op) : Prop where
  turn : op.OnOwnTurn k
  caller : ∀ t ∈ op.caller?, k.CanRun t
  threads : ∀ t ∈ op.threads, (k.threads.get? t).isSome = true
  objects : ∀ o ∈ op.objects, k.heap.contains o = true
  slots : ∀ w ∈ op.written k, w.IsSafe k.heap
  frames : ∀ f ∈ op.frames, ∀ r ∈ f.references, k.heap.contains r = true
  room : op.allocates = true → k.heap.size + 2 ≤ Heap.maxSize

instance (k : Kernel) (op : Op) : Decidable (op.Disciplined k) :=
  decidable_of_iff' _ (disciplined_iff k op)

namespace Disciplined

variable {k : Kernel} {op : Op}

theorem knowsCreator (hd : op.Disciplined k) {creator : Option ThreadId}
    (hcreator : op.threads = creator.toList) : k.KnowsCreator creator := by
  intro t ht
  apply hd.threads t
  rw [hcreator]
  exact Option.mem_toList.mpr ht

theorem live (hd : op.Disciplined k) {o : Ref} (ho : op.objects = [o]) : ∃ e, k.heap.get? o = some e := by
  apply Option.isSome_iff_exists.mp
  apply hd.objects o
  rw [ho]
  exact List.mem_singleton_self o

end Disciplined

/-- Classes are registered and slots exist, also those for the referents of weak holders. -/
structure Feasible (k : Kernel) (op : Op) : Prop where
  classes : ∀ c ∈ op.classIds k, c < k.classes.size
  slots : ∀ w ∈ op.written k, ∃ fields, w.value.write w.fields w.slot = .ok fields
  referents : op matches .collect → k.heap.HasReferents

end Op

def Fault.IsLayout : Fault → Prop
  | slotOutOfBounds | unregisteredClass _ => True
  | _ => False

theorem Registry.failsOnly_get (r : Registry) (c : ClassId) : FailsOnly Fault.IsLayout (r.get c) := by
  unfold Registry.get
  split
  · exact .ok _ _
  · exact .error trivial

namespace Fields

theorem failsOnly_getInt (f : Fields) (i : Nat) : FailsOnly Fault.IsLayout (f.getInt i) := by
  unfold getInt
  split
  · exact .ok _ _
  · exact .error trivial

theorem failsOnly_setInt (f : Fields) (i : Nat) (v : Int32) : FailsOnly Fault.IsLayout (f.setInt i v) := by
  unfold setInt
  split
  · exact .ok _ _
  · exact .error trivial

end Fields

theorem SlotValue.failsOnly_write (v : SlotValue) (f : Fields) (i : Nat) :
    FailsOnly Fault.IsLayout (v.write f i) := by
  cases v with
  | int v => exact f.failsOnly_setInt i v
  | long v => exact (f.failsOnly_setInt i _).bind fun f => f.failsOnly_setInt (i + 1) _
  | ref r => exact f.failsOnly_setInt i r.slot

namespace Element

theorem failsOnly_upkeep (e : Element) (mask : ThreadMask) (live : Ref → Bool) :
    FailsOnly Fault.IsLayout (e.upkeep mask live) := by
  refine FailsOnly.map ?_ _
  unfold hasStaleReferent
  split
  · exact ((e.fields.failsOnly_getInt 0).map _).map _
  · exact .ok _ _

theorem failsOnly_maintain (e : Element) (u : Upkeep) : FailsOnly Fault.IsLayout (e.maintain u) := by
  unfold maintain
  split
  · exact (e.fields.failsOnly_setInt 0 Ref.null.slot).map _
  · exact .ok _ _

end Element

theorem Heap.failsOnly_collect (h : Heap) (roots : Roots) : FailsOnly Fault.IsLayout (h.collect roots) := by
  apply FailsOnly.foldlM
  intro c i
  unfold maintainAt
  split
  · exact .ok _ _
  · next e _ =>
    refine (e.failsOnly_upkeep _ _).bind fun u => ?_
    split
    · exact (e.failsOnly_maintain u).map _
    · exact .ok _ _

theorem Written.IsSafe.of_holds {w : Written} {h : Heap} {fields : Fields} (hw : w.IsSafe h)
    (hwrite : w.value.write w.fields w.slot = .ok fields) (i : Nat) (r : Ref) (hr : fields.Holds i r)
    (hnull : r.isNull = false) : w.fields.Holds i r ∨ h.contains r = true := by
  refine (SlotValue.of_holds_write hwrite hr).imp_right ?_
  rintro ⟨n, rfl, href, hword⟩
  rcases hw (r.slot, n) (List.mem_zipIdx_iff_getElem?.mpr hword) href with hn | hlive
  · rw [hnull] at hn
    cases hn
  · exact hlive

namespace Kernel

theorem failsOnly_loadClass (k : Kernel) (c : ClassId) : FailsOnly Fault.IsLayout (k.loadClass c) := by
  unfold loadClass
  split
  · exact .ok _ _
  · exact (k.classes.failsOnly_get c).bind fun _ => (Registry.failsOnly_get _ _).map _

structure Settles (k : Kernel) (op : Op) (p : Kernel → Prop) : Prop where
  ok : op.Feasible k → ∃ k', k.perform op = .ok k'
  faults : FailsOnly Fault.IsLayout (k.perform op)
  holds : ∀ k', k.perform op = .ok k' → p k'

namespace Settles

variable {k k' : Kernel} {op : Op}

theorem of_iff {p : Prop} (hfeasible : op.Feasible k → p)
    (hfaults : FailsOnly Fault.IsLayout (k.perform op))
    (hok : p → ∃ k', k.perform op = .ok k' ∧ k.Extends k') (hp : ∀ k', k.perform op = .ok k' → p) :
    k.Settles op k.Extends where
  ok := by
    intro hf
    obtain ⟨k', h, -⟩ := hok (hfeasible hf)
    exact ⟨k', h⟩
  faults := hfaults
  holds := by
    intro k' h
    obtain ⟨k'', h'', hext⟩ := hok (hp k' h)
    rw [h] at h''
    cases h''
    exact hext

theorem of_ok (h : k.perform op = .ok k') (hext : k.Extends k') : k.Settles op k.Extends := by
  refine of_iff (p := True) (fun _ => trivial) ?_ (fun _ => ⟨k', h, hext⟩) (fun _ _ => trivial)
  rw [h]
  exact .ok _ k'

theorem snd {α : Type} {x : Except Fault (α × Kernel)} (hop : k.perform op = (x >>= fun p => pure p.2))
    (h : ∃ a k', x = .ok (a, k') ∧ k.Extends k') : k.Settles op k.Extends := by
  obtain ⟨a, k', hx, hext⟩ := h
  exact of_ok (hop.trans (snd_eq_ok.mpr ⟨a, hx⟩)) hext

theorem put {o : Ref} {e e' : Element} (he : k.heap.get? o = some e)
    (h : k.perform op = .ok { k with heap := k.heap.put o e' }) (htraces : ∀ r, e'.Traces r → e.Traces r) :
    k.Settles op k.Extends :=
  of_ok h (.put he fun r hr => .inl (htraces r hr))

theorem load (hk : k.Sited) {c : ClassId} (hd : (Op.load c).Disciplined k) :
    k.Settles (.load c) k.Extends := by
  refine of_iff (p := k.statics.contains c = true ∨ c < k.classes.size) ?_ ?_ ?_ ?_
  · exact fun hf => .inr (hf.classes c (List.mem_singleton_self c))
  · exact k.failsOnly_loadClass c
  · exact loadClass_ok hk.core ((hk.roomy (hd.room rfl)).mono (Nat.le_succ 1))
  · exact fun _ => isKnown_of_loadClass

theorem loadNamed (hk : k.Sited) {name : String} (hd : (Op.loadNamed name).Disciplined k) :
    k.Settles (.loadNamed name) k.Extends := by
  refine snd rfl ?_
  unfold loadClassNamed
  split
  · exact ⟨_, k, rfl, .refl k⟩
  · next c hc =>
    have hlt : c < k.classes.size := (Array.findIdx?_eq_some_iff_getElem.mp hc).1
    obtain ⟨k', h, hext⟩ := loadClass_ok hk.core ((hk.roomy (hd.room rfl)).mono (Nat.le_succ 1)) (.inr hlt)
    exact ⟨_, k', bind_eq_ok.mpr ⟨k', h, rfl⟩, hext⟩

theorem setStatus (c : ClassId) (status : InitStatus) : k.Settles (.setStatus c status) k.Extends := by
  refine of_ok rfl ?_
  obtain h | ⟨e, current, classObject, he, hkind, h⟩ := k.setClassStatus_cases c status
  · rw [h]
    exact .refl k
  · rw [h]
    refine .putStatic he fun r hr => .inl ⟨hr.1, hr.2.imp_right ?_⟩
    rintro ⟨status', hkind'⟩
    cases hkind'
    exact ⟨current, hkind⟩

theorem newObject {c : ClassId} {creator : Option ThreadId} {site : Option Site}
    (hd : (Op.newObject c creator site).Disciplined k) :
    k.Settles (.newObject c creator site) k.Extends := by
  refine of_iff (p := c < k.classes.size) ?_ ?_ ?_ ?_
  · exact fun hf => hf.classes c (List.mem_singleton_self c)
  · obtain ⟨gid, pool, tally, h⟩ := newGlobalId_ok (hd.knowsCreator rfl) site
    refine FailsOnly.map ?_ _
    unfold Kernel.newObject
    rw [h, ok_bind]
    exact (k.classes.failsOnly_get c).map _
  · intro hc
    obtain ⟨gid, k', h, hplaces⟩ := newObject_ok (hd.knowsCreator rfl)
      (Array.getElem?_eq_getElem hc) site
    exact ⟨k', snd_eq_ok.mpr ⟨_, h⟩, .places hplaces fun _ => Element.not_traces_object _ _ _ _ _⟩
  · intro k' h
    obtain ⟨o, h⟩ := snd_eq_ok.mp h
    obtain ⟨⟨gid, k₁⟩, h₁, h⟩ := bind_eq_ok.mp h
    obtain ⟨desc, hdesc, -⟩ := bind_eq_ok.mp h
    rw [classes_newGlobalId h₁] at hdesc
    exact (Array.getElem?_eq_some_iff.mp (Registry.get_eq_ok.mp hdesc)).1

theorem newArray {elem : ValueKind} {length : Nat} {creator : Option ThreadId} {site : Option Site}
    (hd : (Op.newArray elem length creator site).Disciplined k) :
    k.Settles (.newArray elem length creator site) k.Extends := by
  obtain ⟨gid, c, k', h, hplaces⟩ := newArray_ok (hd.knowsCreator rfl)
    elem length site
  exact snd rfl ⟨_, k', h, .places hplaces fun _ => Element.not_traces_array _ _ _ _ _ _⟩

theorem write {o : Ref} {e : Element} {i : Nat} {v : SlotValue} (he : k.heap.get? o = some e)
    (hop : k.perform op = k.updateElement o (·.updateFields (v.write · i)))
    (hwritten : op.written k = some ⟨e.fields, i, v⟩) (hd : op.Disciplined k) : k.Settles op k.Extends := by
  refine of_iff (p := ∃ fields, v.write e.fields i = .ok fields) ?_ ?_ ?_ ?_
  · exact fun hf => hf.slots _ hwritten
  · rw [hop]
    unfold Kernel.updateElement Heap.update
    rw [deref_eq_ok.mpr he, ok_bind]
    exact (((v.failsOnly_write e.fields i).map _).map _).map _
  · rintro ⟨fields, hfields⟩
    refine ⟨_, hop.trans (updateElement_eq_ok.mpr ⟨e, { e with fields }, he,
      bind_eq_ok.mpr ⟨fields, hfields, rfl⟩, rfl⟩), .put he fun r hr => ?_⟩
    exact hr.of_written (e := e) rfl rfl ((hd.slots _ hwritten).of_holds hfields)
  · intro k' h
    obtain ⟨e₁, e', he₁, he', rfl⟩ := updateElement_eq_ok.mp (hop.symm.trans h)
    rw [he] at he₁
    cases he₁
    obtain ⟨fields, hfields, -⟩ := bind_eq_ok.mp he'
    exact ⟨fields, hfields⟩

theorem writeSlot {o : Ref} {i : Nat} {v : SlotValue} (hd : (Op.writeSlot o i v).Disciplined k) :
    k.Settles (.writeSlot o i v) k.Extends := by
  obtain ⟨e, he⟩ := hd.live rfl
  exact write he rfl (by simp [Op.written, he]) hd

theorem field {x : Except Fault (Except KernelError Nat)} {act : Nat → Except Fault (Attempt Unit)}
    (hop : k.perform op = ((x >>= fun slot =>
      match slot with
      | .error e => pure (.error e, k)
      | .ok i => act i) >>= fun p => pure p.2))
    (hslot : op.Feasible k → ∃ r, x = .ok r) (hfaults : FailsOnly Fault.IsLayout x)
    (hact : ∀ i, x = .ok (.ok i) → k.perform op = (act i >>= fun p => pure p.2) →
      k.Settles op k.Extends) :
    k.Settles op k.Extends := by
  cases x with
  | error fault =>
    refine ⟨fun hf => ?_, ?_, fun k' h => ?_⟩
    · obtain ⟨r, hr⟩ := hslot hf
      cases hr
    · rw [hop]
      exact .error (hfaults fault rfl)
    · rw [hop] at h
      cases h
  | ok slot =>
    cases slot with
    | error err => exact of_ok hop (.refl k)
    | ok i => exact hact i rfl hop

theorem writeField {o : Ref} {name : String} {v : SlotValue}
    (hd : (Op.writeField o name v).Disciplined k) : k.Settles (.writeField o name v) k.Extends := by
  obtain ⟨e, he⟩ := hd.live rfl
  refine field (x := k.instanceSlot o name) rfl ?_ ?_ ?_
  · intro hf
    have hclass := hf.classes e.classId (by simp [Op.classIds, he])
    unfold instanceSlot
    rw [deref_eq_ok.mpr he, ok_bind, Registry.get_eq_ok.mpr (Array.getElem?_eq_getElem hclass), ok_bind]
    split <;> exact ⟨_, rfl⟩
  · unfold instanceSlot
    rw [deref_eq_ok.mpr he, ok_bind]
    refine (k.classes.failsOnly_get e.classId).bind fun desc => ?_
    split <;> exact .ok _ _
  · intro i hslot hperform
    refine write (i := i) (v := v) he (hperform.trans ?_) (by simp [Op.written, he, hslot]) hd
    cases k.updateElement o (·.updateFields (v.write · i)) <;> rfl

theorem writeStatic {c : ClassId} {name : String} {v : SlotValue}
    (hd : (Op.writeStatic c name v).Disciplined k) : k.Settles (.writeStatic c name v) k.Extends := by
  refine field (x := k.staticSlot c name) rfl ?_ ?_ ?_
  · intro hf
    have hclass := hf.classes c (List.mem_singleton_self c)
    unfold staticSlot
    rw [Registry.get_eq_ok.mpr (Array.getElem?_eq_getElem hclass), ok_bind]
    split
    · split <;> exact ⟨_, rfl⟩
    · exact ⟨_, rfl⟩
  · refine (k.classes.failsOnly_get c).bind fun desc => ?_
    split
    · split <;> exact .ok _ _
    · exact .ok _ _
  · intro i hslot hperform
    cases he : k.statics.get? c with
    | none =>
      rw [he] at hperform
      exact of_ok hperform (.refl k)
    | some e =>
      rw [he] at hperform
      have hwritten : (Op.writeStatic c name v).written k = some ⟨e.fields, i, v⟩ := by
        simp [Op.written, he, hslot]
      refine of_iff (p := ∃ fields, v.write e.fields i = .ok fields) ?_ ?_ ?_ ?_
      · exact fun hf => hf.slots _ hwritten
      · rw [hperform]
        exact (((v.failsOnly_write e.fields i).map _).map _).map _
      · rintro ⟨fields, hfields⟩
        refine ⟨_, hperform.trans (snd_eq_ok.mpr ⟨_, bind_eq_ok.mpr ⟨{ e with fields },
          bind_eq_ok.mpr ⟨fields, hfields, rfl⟩, rfl⟩⟩), .putStatic he fun r hr => ?_⟩
        exact hr.of_written (e := e) rfl ((hd.slots _ hwritten).of_holds hfields)
      · intro k' h
        obtain ⟨_, h⟩ := snd_eq_ok.mp (hperform.symm.trans h)
        obtain ⟨e', he', -⟩ := bind_eq_ok.mp h
        obtain ⟨fields, hfields, -⟩ := bind_eq_ok.mp he'
        exact ⟨fields, hfields⟩

theorem stir (hk : k.Linked) (howned : k.Owned) (htidy : k.Tidy) (hattentive : k.Attentive)
    (hop : op.stirs = true) (hd : op.Disciplined k) : k.Settles op k.Extends := by
  have hender : ∀ t ∈ op.ender?, ∀ info, k.threads.get? t = some info → info.isAlive = true →
      (k.heap.get? info.object).isSome := by
    intro t _ info ht halive
    refine hk.threads t info ht ?_ info.object ⟨hk.own t info ht, .inl rfl⟩
    intro hs
    unfold Thread.isAlive at halive
    rw [hs] at halive
    cases halive
  obtain ⟨k', h, hturn⟩ := turns_of_args howned hop (fun t ht => hd.threads t (op.subject?_subset t ht))
    (fun o ho => hd.objects o (op.object?_subset o ho)) hender fun _ _ => htidy.lockObject_live
  refine of_ok h (.turn hturn (@perform_stirs False _ _ _ hop nofun h) ?_ ?_)
  -- nobody wakes a thread that has ended, because it is in no wait set
  · intro t ht
    refine (hturn.hasEnded_iff hd.turn.1 ht).mpr fun hroused => ?_
    obtain ⟨o, hwaits⟩ := waits_of_mem_roused hroused
    obtain ⟨info, hinfo, hs⟩ := ht
    exact (hattentive t info hinfo).ended hs o hwaits
  · exact fun f hf i r hr hnull => hd.frames f hf r (Frame.mem_references.mpr ⟨hnull, i, hr⟩)

theorem grow (hk : k.Sited) (hop : op.stirs = false) (hcollect : op ≠ .collect) (hd : op.Disciplined k) :
    k.Settles op k.Extends := by
  cases op with
  | register c => exact of_ok rfl (.of_eq rfl rfl rfl)
  | load c => exact load hk hd
  | loadNamed name => exact loadNamed hk hd
  | setStatus c status => exact setStatus c status
  | newName creator site =>
    obtain ⟨gid, pool, tally, h⟩ := newGlobalId_ok (hd.knowsCreator rfl) site
    exact snd rfl ⟨gid, _, h, .of_eq rfl rfl rfl⟩
  | newObject c creator site => exact newObject hd
  | newArray elem length creator site => exact newArray hd
  | intern text creator =>
    exact snd rfl (internString_ok hk.core (hk.roomy (hd.room rfl))
      (hd.knowsCreator rfl) text)
  | writeField o name v => exact writeField hd
  | writeStatic c name v => exact writeStatic hd
  | writeSlot o i v => exact writeSlot hd
  | pin o =>
    obtain ⟨e, he⟩ := hd.live rfl
    exact put he (updateElement_eq_ok.mpr ⟨e, e.pin, he, rfl, rfl⟩) fun _ => id
  | unpin o =>
    obtain ⟨e, he⟩ := hd.live rfl
    exact put he (bind_eq_ok.mpr ⟨_, bind_eq_ok.mpr ⟨e, deref_eq_ok.mpr he, rfl⟩, rfl⟩) fun _ => id
  | makeWeak o =>
    obtain ⟨e, he⟩ := hd.live rfl
    refine put he (updateElement_eq_ok.mpr ⟨e, { e with weak := true }, he, rfl, rfl⟩) ?_
    exact fun r hr => ⟨hr.1, hr.2.imp_left fun ⟨i, hi, hpos⟩ => ⟨i, hi, fun _ => hpos rfl⟩⟩
  | cache o r =>
    obtain ⟨e, he⟩ := hd.live rfl
    refine put he (updateElement_eq_ok.mpr ⟨e, e.cacheRef r, he, rfl, rfl⟩) fun r' hr => ?_
    unfold Element.cacheRef at hr
    split at hr <;> exact hr
  | setOutOfMemory flag =>
    refine of_ok rfl (.of_eq ?_ rfl rfl)
    dsimp only
    unfold Heap.setOutOfMemory
    split <;> rfl
  | createThread name creator site =>
    exact snd rfl (createThread_ok hk.core ((hk.roomy (hd.room rfl)).mono (Nat.le_succ 1))
      (hd.knowsCreator rfl) name site)
  | collect => exact absurd rfl hcollect
  | snapshot | tell => exact of_ok rfl (.of_eq rfl rfl rfl)
  | acquireTracker =>
    refine of_ok rfl ?_
    unfold acquireTracker
    split <;> exact .of_eq rfl rfl rfl
  | releaseTracker => exact of_ok rfl (.of_eq rfl rfl rfl)
  | _ => cases hop

end Settles

variable {k k' : Kernel} {op : Op}

theorem Settles.collect (hk : k.Linked) (ho : k.Orderly) : k.Settles .collect Linked where
  ok := by
    intro hf
    obtain ⟨c, hc, -⟩ := Heap.collect_ok (hf.referents rfl) k.roots
    exact ⟨_, snd_eq_ok.mpr ⟨c.stats, bind_eq_ok.mpr ⟨c, hc, rfl⟩⟩⟩
  faults := ((k.heap.failsOnly_collect k.roots).map _).map _
  holds := by
    intro k' h
    obtain ⟨stats, h⟩ := snd_eq_ok.mp h
    obtain ⟨c, hc, h⟩ := bind_eq_ok.mp h
    cases h
    exact (hk.collect ho hc).extends (.of_eq rfl rfl rfl)

theorem Linked.perform (hk : k.Linked) (hsited : k.Sited) (howned : k.Owned) (htidy : k.Tidy)
    (hattentive : k.Attentive) (hd : op.Disciplined k) : k.Settles op Linked := by
  have hextends : k.Settles op k.Extends → k.Settles op Linked :=
    fun h => ⟨h.ok, h.faults, fun k' hk' => hk.extends (h.holds k' hk')⟩
  cases hs : op.stirs with
  | true => exact hextends (.stir hk howned htidy hattentive hs hd)
  | false =>
    by_cases hcollect : op = .collect
    · subst hcollect
      exact .collect hk hsited.orderly
    · exact hextends (.grow hsited hs hcollect hd)

theorem Built.attentive (h : Built Op.Disciplined k) : k.Attentive :=
  .built (h.mono fun _ _ hd => hd.turn)

theorem Built.linked (h : Built Op.Disciplined k) : k.Linked := by
  induction h with
  | start limit observers =>
    refine ⟨?_, ?_, ?_, ?_⟩
    · intro i e he
      cases he
    · intro c e he
      cases he
    · intro t info ht
      cases ht
    · intro t info ht
      cases ht
  | perform hk hd h ih => exact (ih.perform hk.sited (.built hk) hk.tidy hk.attentive hd).holds _ h
  | adopt _ _ _ ih _ => exact ⟨ih.objects, ih.statics, ih.threads, ih.own⟩
  | restore _ _ _ _ ih => exact ⟨ih.objects, ih.statics, ih.threads, ih.own⟩

structure NoDangling (k : Kernel) : Prop where
  objects : ∀ e ∈ k.heap.elements, ∀ r, e.Traces r → k.heap.contains r = true
  statics : ∀ e ∈ k.statics.elements, ∀ r, e.Refers r → k.heap.contains r = true
  threads : ∀ t info, k.threads.get? t = some info → info.state ≠ .terminated → ∀ r, info.Holds r →
    k.heap.contains r = true
  monitors : ∀ o m, k.monitor? o = some m → ∀ t, m.owner = some t ∨ t ∈ m.waiters ∨ t ∈ m.requests →
    (k.threads.get? t).isSome = true

theorem Built.noDangling (h : Built Op.Disciplined k) :
    k.NoDangling ∧ ∀ op, op.Disciplined k → (op.Feasible k → ∃ k', k.perform op = .ok k') ∧
      ∀ fault, k.perform op = .error fault → fault.IsLayout := by
  have howned : k.Owned := .built h
  constructor
  · constructor
    case objects =>
      intro e he
      obtain ⟨i, he⟩ := (Arena.mem_elements _ _).mp he
      exact h.linked.objects i e he
    case statics =>
      intro e he
      obtain ⟨c, he⟩ := (Arena.mem_elements _ _).mp he
      exact h.linked.statics c e he
    case threads => exact h.linked.threads
    case monitors =>
      intro o m hm t ht
      obtain ⟨e, he, rfl⟩ := monitor?_eq_some.mp hm
      rcases ht with ht | ht | ht
      · exact howned.owner_known he ht
      · exact howned.waiters_known he t ht
      · exact howned.requests_known he t ht
  · intro op hd
    have hsettles := h.linked.perform h.sited howned h.tidy h.attentive hd
    exact ⟨hsettles.ok, hsettles.faults⟩

def woven : Kernel :=
  (withLimit none).performAll
    [.register
        { name := "Node"
          instances := ⟨[⟨"next", .reference⟩]⟩
          statics := ⟨[⟨"first", .reference⟩]⟩ },
      .load 3, .newObject 3 none none, .newObject 3 none none, .writeField ⟨1⟩ "next" (.ref ⟨2⟩),
      .writeStatic 3 "first" (.ref ⟨1⟩), .createThread "a" none none,
      .start 0 ((Frame.fresh 0 1).pushRef ⟨1⟩), .createThread "b" (some 0) none, .start 1 (.fresh 0 1),
      .lock 1 ⟨2⟩, .wait 1 ⟨2⟩, .collect, .newArray .reference 2 (some 0) none,
      .writeSlot ⟨5⟩ 1 (.ref ⟨1⟩), .lock 0 ⟨2⟩, .notifyAll 0 ⟨2⟩, .unlock 0 ⟨2⟩, .terminate 0,
      .lock 1 ⟨2⟩]

theorem noDangling_woven :
    Built Op.Disciplined woven ∧ woven.HasEnded 0 ∧ woven.NoDangling ∧ Op.collect.Disciplined woven ∧
      Op.collect.Feasible woven ∧ ∃ k', woven.perform .collect = .ok k' := by
  have hbuilt : Built Op.Disciplined woven := (Built.start none {}).performAllowed (by decide +kernel)
  have hdisciplined : Op.collect.Disciplined woven := by decide +kernel
  have hfeasible : Op.collect.Feasible woven := by
    refine ⟨nofun, nofun, fun _ => ?_⟩
    unfold Heap.HasReferents
    decide +kernel
  obtain ⟨hsafe, hok⟩ := hbuilt.noDangling
  exact ⟨hbuilt, by decide +kernel, hsafe, hdisciplined, hfeasible, (hok .collect hdisciplined).1 hfeasible⟩

end Kernel

end Interleave
