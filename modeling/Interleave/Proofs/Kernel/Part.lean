import Interleave.Proofs.Heap.Upkeep
import Interleave.Proofs.Kernel.Shape

/-!
The parts of operations. An operation that does not only stir is a sequence of parts, each of which does
one thing: it registers a class, names and places a new element, writes a slot, collects, and so on. A part
that only few operations have says which.
-/

namespace Interleave

theorem Roster.add_eq_ok {r r' : Roster} {info : Thread} {t : ThreadId} :
    r.add info = .ok (t, r') ↔
      (info.id = r.nextId ∧ t = info.id) ∧
        r' = { threads := r.threads.push info, epoch := r.epoch + 1 } := by
  unfold Roster.add
  split
  · next hid =>
    simp only [pure, Except.pure, Except.ok.injEq, Prod.mk.injEq, hid, true_and]
    constructor
    · intro ⟨h, h'⟩
      exact ⟨h.symm, h'.symm⟩
    · intro ⟨h, h'⟩
      exact ⟨h.symm, h'.symm⟩
  · next hid => simp [hid, throw, throwThe, MonadExceptOf.throw]

structure Thread.IsNew (info : Thread) (t : ThreadId) : Prop where
  id : info.id = t
  state : info.state = .new
  frames : info.frames = #[]
  lockObject : info.lockObject = none
  lockedObjects : info.lockedObjects = []

namespace Op

def touched : Op → List Ref
  | .writeField o _ _ | .writeSlot o _ _ | .unpin o | .makeWeak o => [o]
  | _ => []

def fills : Op → Bool
  | .intern _ _ | .createThread _ _ _ => true
  | _ => false

def changesStatics : Op → Bool
  | .load _ | .loadNamed _ | .setStatus _ _ | .writeStatic _ _ _ => true
  | _ => false

end Op

namespace Kernel

structure Builds (proper : Prop) (k : Kernel) (gid : GlobalId) (build : Ref → Element) : Prop where
  ref : ∀ r, (build r).ref = r
  gid : ∀ r, (build r).gid = gid
  monitor : ∀ r, (build r).monitor = {}
  follows : k.classes.Numbered → ∀ r, (build r).FollowsClass k.classes
  isInstance : proper → ∀ r, (build r).IsInstance k.classes

def introduce (k : Kernel) (build : Ref → Element) (creator : Option ThreadId) : Kernel :=
  { k with heap := (k.heap.place build).2 }.tell (.created creator (k.heap.place build).1)

inductive Part (op : Op) (proper : Prop) (k : Kernel) : Kernel → Prop where
  | tell (e : Event) (he : e.subject? = none ∨ op = .tell e) : Part op proper k (k.tell e)
  | track (tracked : Bool) : Part op proper k { k with tracked }
  | register (c : ClassDescriptor) (hc : proper → c.IsPlain ∨ ∃ elem, c = .array elem) :
    Part op proper k (k.register c).2
  | name {creator : Option ThreadId} {site : Option Site} {gid : GlobalId} {k' : Kernel}
    (h : k.newGlobalId creator site = .ok (gid, k')) : Part op proper k k'
  | object {creator : Option ThreadId} {site : Option Site} {gid : GlobalId} {k' : Kernel}
    {build : Ref → Element} (h : k.newGlobalId creator site = .ok (gid, k'))
    (hbuild : k.Builds proper gid build) : Part op proper k (k'.introduce build creator)
  | thread {name : String} {creator : Option ThreadId} {site : Option Site} {gid : GlobalId} {k' : Kernel}
    {build : Ref → Element} {info : Thread} (hop : op = .createThread name creator site)
    (h : k.newGlobalId creator site = .ok (gid, k')) (hbuild : k.Builds proper gid build)
    (hgid : info.gid = gid) (hnew : info.IsNew k'.threads.nextId) :
    Part op proper k { k'.introduce build creator with
      threads := { threads := k'.threads.threads.push info, epoch := k'.threads.epoch + 1 } }
  | load {c : ClassId} {desc : ClassDescriptor} {build : Ref → Element} {classObject : Ref}
    (hop : op.changesStatics = true) (hnew : k.statics.contains c = false)
    (hdesc : k.classes.classes[c]? = some desc)
    (hbuild : k.Builds proper (k.pool.intern (.ofClass c)).1 build) :
    Part op proper k { k.introduce build none with
      pool := (k.pool.intern (.ofClass c)).2
      statics := k.statics.addClass desc (k.pool.intern (.ofClass c)).1 classObject }
  | write {o : Ref} {e e' : Element} (hop : o ∈ op.touched ∨ op.fills = true ∨ e.Endures e')
    (he : k.heap.get? o = some e) (hkept : e.Kept e') : Part op proper k { k with heap := k.heap.put o e' }
  | flag (flag : Bool) : Part op proper k { k with heap := k.heap.setOutOfMemory flag }
  | strings (hop : op.fills = true) (strings : List Interned) :
    Part op proper k { k with heap := { k.heap with strings } }
  | writeStatic {c : ClassId} {e e' : Element} (hop : op.changesStatics = true)
    (he : k.statics.get? c = some e) (hclass : e'.classId = e.classId) (hstatic : e.IsStatic → e'.IsStatic)
    (hmarks : e'.fields.marks = e.fields.marks) (hweak : e'.weak = e.weak) :
    Part op proper k { k with statics := k.statics.put c e' }
  | collect {stats : CollectionStats} {k' : Kernel} (hop : op = .collect) (h : k.collect = .ok (stats, k')) :
    Part op proper k k'
  | capture : Part op proper k k.snapshot.2

abbrev Parts (op : Op) (proper : Prop) : Kernel → Kernel → Prop := Relation.ReflTransGen (Part op proper)

variable {op : Op} {proper : Prop} {k k' : Kernel}

theorem newGlobalId_eq_ok {creator : Option ThreadId} {site : Option Site} {gid : GlobalId} :
    k.newGlobalId creator site = .ok (gid, k') ↔
      ∃ thread, creator.mapM (fun t => return (← k.threads.get t).gid) = .ok thread ∧
        gid = (k.tally.next k.pool (.ofCreation thread site)).1 ∧
        k' = { k with
          pool := (k.tally.next k.pool (.ofCreation thread site)).2.1
          tally := (k.tally.next k.pool (.ofCreation thread site)).2.2 } := by
  unfold newGlobalId
  rw [bind_eq_ok]
  constructor
  · intro ⟨thread, hthread, h⟩
    cases h
    exact ⟨thread, hthread, rfl, rfl⟩
  · intro ⟨thread, hthread, hgid, hk'⟩
    rw [hgid, hk']
    exact ⟨thread, hthread, rfl⟩

theorem newGlobalId_register {creator : Option ThreadId} {site : Option Site} {gid : GlobalId}
    (h : k.newGlobalId creator site = .ok (gid, k')) (c : ClassDescriptor) :
    (k.register c).2.newGlobalId creator site = .ok (gid, (k'.register c).2) := by
  obtain ⟨thread, hthread, rfl, rfl⟩ := newGlobalId_eq_ok.mp h
  exact newGlobalId_eq_ok.mpr ⟨thread, hthread, rfl, rfl⟩

theorem classes_newGlobalId {creator : Option ThreadId} {site : Option Site} {gid : GlobalId}
    (h : k.newGlobalId creator site = .ok (gid, k')) : k'.classes = k.classes := by
  obtain ⟨thread, _, _, rfl⟩ := newGlobalId_eq_ok.mp h
  rfl

theorem builds_fresh {i : ClassId} {c : ClassDescriptor} (hs : proper → k.classes.Sound)
    (hc : k.classes.classes[i]? = some c) (harr : proper → c.arrayOf = none)
    (creator : Option ThreadId) (gid : GlobalId) :
    k.Builds proper gid fun ref =>
      .fresh ref gid c.id .object (.ofMask c.instances.refMask) creator where
  ref := fun _ => rfl
  gid := fun _ => rfl
  monitor := fun _ => rfl
  follows := by
    intro hids r _
    refine ⟨c, ?_, Fields.marks_ofMask _⟩
    rw [← hids i c hc] at hc
    exact hc
  isInstance := by
    intro hp r
    refine ⟨c, ?_, harr hp, Fields.marks_ofMask _⟩
    rw [← (hs hp).id i c hc] at hc
    exact hc

theorem parts_newObject {c : ClassId} {creator : Option ThreadId} {site : Option Site} {o : Ref}
    (h : k.newObject c creator site = .ok (o, k')) (hs : proper → k.classes.Sound)
    (harr : proper → ∀ desc, k.classes.get c = .ok desc → desc.arrayOf = none) :
    Parts op proper k k' := by
  unfold newObject at h
  obtain ⟨⟨gid, k₁⟩, h₁, h⟩ := bind_eq_ok.mp h
  obtain ⟨desc, hdesc, h⟩ := bind_eq_ok.mp h
  rw [classes_newGlobalId h₁] at hdesc
  cases h
  have hbuild := builds_fresh hs (Registry.get_eq_ok.mp hdesc) (fun hp => harr hp desc hdesc)
    creator gid
  exact .single (.object h₁ hbuild)

theorem parts_newArray {elem : ValueKind} {length : Nat} {creator : Option ThreadId}
    {site : Option Site} {o : Ref} (h : k.newArray elem length creator site = .ok (o, k'))
    (hs : proper → k.classes.Sound) : Parts op proper k k' := by
  unfold newArray at h
  obtain ⟨⟨gid, k₁⟩, h₁, h⟩ := bind_eq_ok.mp h
  have hclasses := classes_newGlobalId h₁
  have hbuild : (k.register (.array elem)).2.Builds proper gid fun ref =>
      .fresh ref gid (k₁.classes.arrayClass elem).1 (.array elem length) (.ofArray elem length)
        creator := by
    refine ⟨fun _ => rfl, fun _ => rfl, fun _ => rfl, fun _ _ => nofun, ?_⟩
    intro hp r
    obtain ⟨desc, hdesc, hname⟩ := k.classes.getElem?_register (.array elem)
    have harr := (((hs hp).register (.inr ⟨elem, rfl⟩)).array _ desc hdesc elem).mp hname
    rw [hclasses]
    exact ⟨desc, hdesc, harr, Fields.marks_ofArray _ _⟩
  cases h
  exact .tail (.single (.register _ fun _ => .inr ⟨elem, rfl⟩)) (.object (newGlobalId_register h₁ _) hbuild)

theorem Part.sound (h : Part op proper k k') (hs : proper → k.classes.Sound) :
    proper → k'.classes.Sound := by
  intro hp
  cases h with
  | register c hc => exact (hs hp).register (hc hp)
  | name h =>
    rw [classes_newGlobalId h]
    exact hs hp
  | object h =>
    obtain ⟨thread, -, -, rfl⟩ := newGlobalId_eq_ok.mp h
    exact hs hp
  | thread _ h =>
    obtain ⟨thread, -, -, rfl⟩ := newGlobalId_eq_ok.mp h
    exact hs hp
  | collect _ h =>
    obtain ⟨c, -, h⟩ := bind_eq_ok.mp h
    cases h
    exact hs hp
  | _ => exact hs hp

theorem Parts.sound (h : Parts op proper k k') (hs : proper → k.classes.Sound) :
    proper → k'.classes.Sound := by
  induction h with
  | refl => exact hs
  | tail _ h ih => exact h.sound ih

theorem kept_updateFields {e e' : Element} {f : Fields → Except Fault Fields}
    (h : e.updateFields f = .ok e') (hf : ∀ fs fs', f fs = .ok fs' → fs'.marks = fs.marks) :
    e.Kept e' := by
  unfold Element.updateFields at h
  obtain ⟨fs, hfs, h⟩ := bind_eq_ok.mp h
  cases h
  exact ⟨rfl, rfl, rfl, rfl, rfl, hf _ _ hfs⟩

theorem parts_updateFields {o : Ref} {f : Fields → Except Fault Fields}
    (h : k.updateElement o (·.updateFields f) = .ok k')
    (hf : ∀ fs fs', f fs = .ok fs' → fs'.marks = fs.marks) (hop : o ∈ op.touched ∨ op.fills = true) :
    Parts op proper k k' := by
  obtain ⟨e, e', he, he', rfl⟩ := updateElement_eq_ok.mp h
  exact .single (.write (hop.imp_right .inl) he (kept_updateFields he' hf))

theorem arrayOf_registered {c desc : ClassDescriptor} (hs : k.classes.Sound) (hc : c.IsPlain)
    (hdesc : (k.register c).2.classes.get (k.register c).1 = .ok desc) : desc.arrayOf = none := by
  obtain ⟨desc', hdesc', hname⟩ := k.classes.getElem?_register c
  rw [Registry.get_eq_ok] at hdesc
  have heq : desc' = desc := Option.some.inj (hdesc'.symm.trans hdesc)
  subst heq
  apply (hs.register (.inl hc)).arrayOf_eq_none hdesc
  intro elem
  rw [hname]
  exact hc.2 elem

theorem parts_newString {text : String} {creator : Option ThreadId} {o : Ref} (hop : op.fills = true)
    (h : k.newString text creator = .ok (o, k')) (hs : proper → k.classes.Sound) :
    Parts op proper k k' := by
  unfold newString at h
  obtain ⟨⟨chars, k₁⟩, h₁, h⟩ := bind_eq_ok.mp h
  obtain ⟨k₂, h₂, h⟩ := bind_eq_ok.mp h
  obtain ⟨⟨string, k₃⟩, h₃, h⟩ := bind_eq_ok.mp h
  obtain ⟨desc, _, h⟩ := bind_eq_ok.mp h
  have hchars : Parts op proper k k₂ := (parts_newArray h₁ hs).trans
    (parts_updateFields h₂ (fun _ _ => Fields.marks_foldlM fun _ _ _ => Fields.marks_setInt) (.inr hop))
  have hs₂ := hchars.sound hs
  have hstring : Parts op proper k k₃ :=
    (hchars.tail (.register _ fun _ => .inl Registry.isPlain_stringClass)).trans
      (parts_newObject h₃ (fun hp => (hs₂ hp).register (.inl Registry.isPlain_stringClass))
        fun hp _ => arrayOf_registered (hs₂ hp) Registry.isPlain_stringClass)
  split at h
  · cases h
    exact hstring
  · obtain ⟨k₄, h₄, h⟩ := bind_eq_ok.mp h
    cases h
    exact hstring.trans (parts_updateFields h₄ (fun _ _ => Fields.marks_setInt) (.inr hop))

theorem parts_internString {text : String} {creator : Option ThreadId} {o : Ref} (hop : op.fills = true)
    (h : k.internString text creator = .ok (o, k')) (hs : proper → k.classes.Sound) :
    Parts op proper k k' := by
  unfold internString at h
  split at h
  · cases h
    exact .refl
  · obtain ⟨⟨string, k₁⟩, h₁, h⟩ := bind_eq_ok.mp h
    obtain ⟨heap, hheap, h⟩ := bind_eq_ok.mp h
    cases h
    unfold Heap.recordInterned at hheap
    obtain ⟨e, he, hheap⟩ := bind_eq_ok.mp hheap
    cases hheap
    have hkept : e.Kept { e.pin with interned := true } := ⟨rfl, rfl, rfl, rfl, rfl, rfl⟩
    exact .tail (.tail (parts_newString hop h₁ hs) (.write (.inr (.inl hop)) (deref_eq_ok.mp he) hkept))
      (.strings hop _)

theorem parts_loadClass {c : ClassId} (hop : op.changesStatics = true) (h : k.loadClass c = .ok k')
    (hs : proper → k.classes.Sound) : Parts op proper k k' := by
  unfold loadClass at h
  split at h
  · cases h
    exact .refl
  · next hnew =>
    obtain ⟨desc, hdesc, h⟩ := bind_eq_ok.mp h
    obtain ⟨classDesc, hclass, h⟩ := bind_eq_ok.mp h
    cases h
    have hdesc' := Registry.getElem?_of_prefix (k.classes.prefix_register .classClass)
      (Registry.get_eq_ok.mp hdesc)
    have hbuild := builds_fresh (k := (k.register .classClass).2)
      (fun hp => (hs hp).register (.inl Registry.isPlain_classClass)) (Registry.get_eq_ok.mp hclass)
      (fun hp => arrayOf_registered (hs hp) Registry.isPlain_classClass hclass) none
      ((k.register .classClass).2.pool.intern (.ofClass c)).1
    have hregister : Parts op proper k (k.register .classClass).2 :=
      .single (.register _ fun _ => .inl Registry.isPlain_classClass)
    exact .tail (.tail hregister (.load hop (Bool.eq_false_iff.mpr hnew) hdesc' hbuild))
      (.tell _ (.inl rfl))

inductive Spawns (k : Kernel) (creator : Option ThreadId) (site : Option Site) (t : ThreadId) :
    Kernel → Prop where
  | intro {gid : GlobalId} {k₁ k₂ k₃ : Kernel} {desc : ClassDescriptor} {info : Thread} {threads : Roster}
    (hgid : k.newGlobalId creator site = .ok (gid, k₁))
    (hdesc : (k₁.register .threadClass).2.classes.get (k₁.register .threadClass).1 = .ok desc)
    (hplaced : k₂ = ((k₁.register .threadClass).2.allocate desc creator gid).2)
    (hobject : info.object = ((k₁.register .threadClass).2.allocate desc creator gid).1)
    (hname : info.gid = gid) (hnew : info.IsNew k₂.threads.nextId)
    (hwritten : k₃ = k₂ ∨
      ∃ slot, k₂.updateElement info.object (·.updateFields (·.setInt slot info.priority)) = .ok k₃)
    (hadd : k₃.threads.add info = .ok (t, threads)) : Spawns k creator site t { k₃ with threads }

theorem spawns_createThread {name : String} {creator : Option ThreadId} {site : Option Site} {t : ThreadId}
    (h : k.createThread name creator site = .ok (t, k')) : Spawns k creator site t k' := by
  obtain ⟨⟨gid, k₁⟩, h₁, h⟩ := bind_eq_ok.mp h
  obtain ⟨desc, hdesc, h⟩ := bind_eq_ok.mp h
  obtain ⟨k₂, hk₂⟩ : ∃ k₂, k₂ = ((k₁.register .threadClass).2.allocate desc creator gid).2 := ⟨_, rfl⟩
  obtain ⟨object, hobject⟩ : ∃ o, o = ((k₁.register .threadClass).2.allocate desc creator gid).1 :=
    ⟨_, rfl⟩
  have hadd : ∀ (info : Thread), info.object = object → info.gid = gid → info.IsNew k₂.threads.nextId →
      (k₂.threads.add info >>= fun p => pure (p.1, { k₂ with threads := p.2 })) = .ok (t, k') →
      Spawns k creator site t k' := by
    intro info hinfo hname hnew h
    obtain ⟨⟨id, threads⟩, hthreads, h⟩ := bind_eq_ok.mp h
    cases h
    exact .intro h₁ hdesc hk₂ (hinfo.trans hobject) hname hnew (.inl rfl) hthreads
  have hwrite : ∀ (info : Thread) (slot : Nat), info.object = object → info.gid = gid →
      info.IsNew k₂.threads.nextId →
      (k₂.updateElement object (·.updateFields (·.setInt slot info.priority)) >>= fun k₃ =>
        k₃.threads.add info >>= fun p => pure (p.1, { k₃ with threads := p.2 })) = .ok (t, k') →
      Spawns k creator site t k' := by
    intro info slot hinfo hname hnew h
    obtain ⟨k₃, h₃, h⟩ := bind_eq_ok.mp h
    obtain ⟨⟨id, threads⟩, hthreads, h⟩ := bind_eq_ok.mp h
    cases h
    exact .intro h₁ hdesc hk₂ (hinfo.trans hobject) hname hnew (.inr ⟨slot, hinfo ▸ h₃⟩) hthreads
  generalize desc.instances.lookup? "priority" = found at h
  cases creator
  case' some => obtain ⟨_, -, h⟩ := bind_eq_ok.mp h
  all_goals
    subst hk₂ hobject
    rcases found with _ | ⟨slot, _⟩
    · exact hadd _ rfl rfl ⟨rfl, rfl, rfl, rfl, rfl⟩ h
    · exact hwrite _ slot rfl rfl ⟨rfl, rfl, rfl, rfl, rfl⟩ h

theorem parts_createThread {name : String} {creator : Option ThreadId} {site : Option Site} {t : ThreadId}
    (h : k.createThread name creator site = .ok (t, k')) (hs : proper → k.classes.Sound) :
    Parts (.createThread name creator site) proper k k' := by
  obtain @⟨gid, k₁, _, _, desc, info, threads, h₁, hdesc, rfl, -, hname, hnew, hwritten, hadd⟩ :=
    spawns_createThread h
  have hclasses := classes_newGlobalId h₁
  have hclass : (k.register .threadClass).2.classes = (k₁.register .threadClass).2.classes := by
    unfold Kernel.register
    rw [hclasses]
  have hbuild := builds_fresh (k := (k.register .threadClass).2)
    (fun hp => (hs hp).register (.inl Registry.isPlain_threadClass))
    (by rw [hclass]; exact Registry.get_eq_ok.mp hdesc)
    (fun hp => arrayOf_registered (hclasses ▸ hs hp) Registry.isPlain_threadClass hdesc) creator gid
  have hregister : Parts (.createThread name creator site) proper k (k.register .threadClass).2 :=
    .single (.register _ fun _ => .inl Registry.isPlain_threadClass)
  have hthread := hregister.tail (.thread rfl (newGlobalId_register h₁ _) hbuild hname hnew)
  obtain rfl | ⟨slot, h₃⟩ := hwritten
  · obtain ⟨_, rfl⟩ := Roster.add_eq_ok.mp hadd
    exact hthread
  · -- the slot for the priority is written before the thread is added, but the two do not interfere
    obtain ⟨e, e', he, he', rfl⟩ := updateElement_eq_ok.mp h₃
    obtain ⟨_, rfl⟩ := Roster.add_eq_ok.mp hadd
    exact hthread.tail
      (.write (.inr (.inl rfl)) he (kept_updateFields he' fun _ _ => Fields.marks_setInt))

theorem parts_writeField {v : SlotValue} {o : Ref} {name : String} {r : Except KernelError Unit}
    (h : k.writeField v.write o name = .ok (r, k')) : Parts (.writeField o name v) proper k k' := by
  unfold writeField at h
  obtain ⟨slot, _, h⟩ := bind_eq_ok.mp h
  split at h
  · cases h
    exact .refl
  · obtain ⟨k₁, h₁, h⟩ := bind_eq_ok.mp h
    cases h
    exact parts_updateFields h₁ (fun _ _ => Fields.marks_write) (.inl (List.mem_singleton_self o))

theorem parts_writeStatic {v : SlotValue} {c : ClassId} {name : String} {r : Except KernelError Unit}
    (h : k.writeStatic v.write c name = .ok (r, k')) : Parts (.writeStatic c name v) proper k k' := by
  unfold writeStatic at h
  obtain ⟨slot, _, h⟩ := bind_eq_ok.mp h
  split at h
  · cases h
    exact .refl
  · split at h
    · next e he =>
      obtain ⟨e', he', h⟩ := bind_eq_ok.mp h
      cases h
      have hkept := kept_updateFields he' fun _ _ => Fields.marks_write
      have hweak : e'.weak = e.weak := by
        obtain ⟨fs, -, he'⟩ := bind_eq_ok.mp he'
        cases he'
        rfl
      apply Relation.ReflTransGen.single
      apply Part.writeStatic rfl he hkept.classId _ hkept.marks hweak
      intro hstatic
      unfold Element.IsStatic
      rw [hkept.kind]
      exact hstatic
    · cases h
      exact .refl

theorem setClassStatus_cases (k : Kernel) (c : ClassId) (status : InitStatus) :
    (k.setClassStatus c status).2 = k ∨ ∃ e current classObject, k.statics.get? c = some e ∧
      e.kind = .static current classObject ∧ (k.setClassStatus c status).2 =
        { k with statics := k.statics.put c { e with kind := .static status classObject } } := by
  unfold setClassStatus Statics.setStatus
  cases hcurrent : k.statics.status? c with
  | none => exact .inl rfl
  | some current =>
    dsimp only
    by_cases hrank : status.rank < current.rank
    · rw [if_pos hrank]
      exact .inl rfl
    · rw [if_neg hrank]
      by_cases hsame : status = current
      · rw [if_pos hsame]
        exact .inl rfl
      · rw [if_neg hsame]
        unfold Statics.status? at hcurrent
        split at hcurrent
        · next e he =>
          split at hcurrent
          · next classObject hkind =>
            refine .inr ⟨e, _, classObject, he, hkind, ?_⟩
            unfold Statics.putStatus
            rw [he]
            dsimp only
            rw [hkind]
            rfl
          · cases hcurrent
        · cases hcurrent

theorem perform_parts (hop : op.stirs = false) (h : k.perform op = .ok k')
    (hs : proper → k.classes.Sound) (hproper : proper → op.IsProper k) : Parts op proper k k' := by
  cases op with
  | register c =>
    cases h
    exact .single (.register c fun hp => (hproper hp).1)
  | load c => exact parts_loadClass rfl h hs
  | loadNamed name =>
    obtain ⟨r, h⟩ := snd_eq_ok.mp h
    unfold loadClassNamed at h
    split at h
    · cases h
      exact .refl
    · obtain ⟨k₁, h₁, h⟩ := bind_eq_ok.mp h
      cases h
      exact parts_loadClass rfl h₁ hs
  | setStatus c status =>
    cases h
    obtain h | ⟨e, _, _, he, _, h⟩ := k.setClassStatus_cases c status
    · rw [h]
    · rw [h]
      exact .single (.writeStatic rfl he rfl (fun _ => ⟨_, _, rfl⟩) rfl rfl)
  | newName creator site =>
    obtain ⟨gid, h⟩ := snd_eq_ok.mp h
    exact .single (.name h)
  | newObject c creator site =>
    obtain ⟨o, h⟩ := snd_eq_ok.mp h
    exact parts_newObject h hs fun hp => (hproper hp).2
  | newArray elem length creator site =>
    obtain ⟨o, h⟩ := snd_eq_ok.mp h
    exact parts_newArray h hs
  | intern text creator =>
    obtain ⟨o, h⟩ := snd_eq_ok.mp h
    exact parts_internString rfl h hs
  | writeField o name v =>
    obtain ⟨r, h⟩ := snd_eq_ok.mp h
    exact parts_writeField h
  | writeStatic c name v =>
    obtain ⟨r, h⟩ := snd_eq_ok.mp h
    exact parts_writeStatic h
  | writeSlot o i v =>
    exact parts_updateFields h (fun _ _ => Fields.marks_write) (.inl (List.mem_singleton_self o))
  | pin o =>
    obtain ⟨heap, hheap, h⟩ := bind_eq_ok.mp h
    obtain ⟨e, he, hheap⟩ := bind_eq_ok.mp hheap
    cases hheap
    cases h
    have hendures : e.Endures e.pin := ⟨rfl, rfl, rfl, rfl, rfl, rfl, Nat.le_succ _⟩
    exact .single (.write (.inr (.inr hendures)) (deref_eq_ok.mp he) ⟨rfl, rfl, rfl, rfl, rfl, rfl⟩)
  | unpin o =>
    obtain ⟨⟨n, heap⟩, hheap, h⟩ := bind_eq_ok.mp h
    obtain ⟨e, he, hheap⟩ := bind_eq_ok.mp hheap
    cases hheap
    cases h
    exact .single (.write (.inl (List.mem_singleton_self o)) (deref_eq_ok.mp he) ⟨rfl, rfl, rfl, rfl, rfl, rfl⟩)
  | makeWeak o =>
    obtain ⟨heap, hheap, h⟩ := bind_eq_ok.mp h
    obtain ⟨e, he, hheap⟩ := bind_eq_ok.mp hheap
    cases hheap
    cases h
    exact .single (.write (.inl (List.mem_singleton_self o)) (deref_eq_ok.mp he) ⟨rfl, rfl, rfl, rfl, rfl, rfl⟩)
  | cache o r =>
    obtain ⟨e, _, he, he', rfl⟩ := updateElement_eq_ok.mp h
    cases he'
    refine .single (.write (.inr (.inr (.cacheRef e r))) he ?_)
    unfold Element.cacheRef
    split
    · exact .refl e
    · exact ⟨rfl, rfl, rfl, rfl, rfl, rfl⟩
  | setOutOfMemory flag =>
    cases h
    exact .single (.flag flag)
  | createThread name creator site =>
    obtain ⟨t, h⟩ := snd_eq_ok.mp h
    exact parts_createThread h hs
  | collect =>
    obtain ⟨stats, h⟩ := snd_eq_ok.mp h
    exact .single (.collect rfl h)
  | snapshot =>
    cases h
    exact .single .capture
  | tell e =>
    cases h
    exact .single (.tell e (.inr rfl))
  | acquireTracker =>
    cases h
    unfold acquireTracker
    split
    · exact .refl
    · exact .single (.track true)
  | releaseTracker =>
    cases h
    exact .single (.track false)
  | _ => cases hop

end Kernel

end Interleave
