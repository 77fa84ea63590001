import Interleave.Proofs.Field.Conformity
import Interleave.Proofs.Field.Slots

/-!
Named fields do not interfere: a value that is written to one is read back from it, and from the other
fields of the object, or of the class in the case of static fields, is read what was read before.
-/

namespace Interleave

def Fields.MarkedBy (fs : Fields) (l : Layout) : Prop :=
  ∀ i < fs.size, fs.isReference i = true ↔ ∃ p ∈ l.placed, p.1.kind = .reference ∧ Layout.Covers p i

theorem Fields.Fits.markedBy {fs : Fields} {l : Layout} (h : fs.Fits l) : fs.MarkedBy l :=
  fun _ => h.isReference_iff

namespace Kernel

def setField (k : Kernel) (o : Ref) (name : String) : SlotValue → Except Fault (Attempt Unit)
  | .int v => k.setInt o name v
  | .long v => k.setLong o name v
  | .ref r => k.setRef o name r

def getField (k : Kernel) (o : Ref) (f : Field) : Except Fault (Except KernelError SlotValue) :=
  match f.kind with
  | .long | .double => return (← k.getLong o f.name).map .long
  | .reference => return (← k.getRef o f.name).map .ref
  | _ => return (← k.getInt o f.name).map .int

def setStatic (k : Kernel) (c : ClassId) (name : String) : SlotValue → Except Fault (Attempt Unit)
  | .int v => k.setStaticInt c name v
  | .long v => k.writeStatic (fun fs slot => fs.setLong slot v) c name
  | .ref r => k.setStaticRef c name r

def getStatic (k : Kernel) (c : ClassId) (f : Field) : Except Fault (Except KernelError SlotValue) :=
  match f.kind with
  | .long | .double => return (← k.readStatic Fields.getLong 0 c f.name).map .long
  | .reference => return (← k.getStaticRef c f.name).map .ref
  | _ => return (← k.getStaticInt c f.name).map .int

/-- Of the fields of `l`, `f` is now read as `v`, and all others as before. -/
def Overwrites (get : Kernel → Field → Except Fault (Except KernelError SlotValue)) (l : Layout) (f : Field)
    (v : SlotValue) (k k' : Kernel) : Prop :=
  get k' f = .ok (.ok v) ∧
    ∀ g ∈ l.fields, g ≠ f → ∃ w, get k g = .ok (.ok w) ∧ get k' g = .ok (.ok w)

variable {k k' : Kernel} {desc : ClassDescriptor} {e : Element} {f : Field} {slot : Nat} {v : SlotValue}
  {fs' : Fields}

theorem overwrites_of_write {get : Kernel → Field → Except Fault (Except KernelError SlotValue)} {l : Layout}
    {fs : Fields} (hfits : fs.Fits l) (hnames : (l.fields.map (·.name)).Nodup) {p : Field × Nat}
    (hp : p ∈ l.placed) (hread : p.1.kind.read fs' p.2 = .ok v)
    (hrest : ∀ q ∈ l.placed, q ≠ p → q.1.kind.read fs' q.2 = q.1.kind.read fs q.2)
    (hget : ∀ g slot, l.lookup? g.name = some (slot, g.kind) →
      get k g = (return .ok (← g.kind.read fs slot)))
    (hget' : ∀ g slot, l.lookup? g.name = some (slot, g.kind) →
      get k' g = (return .ok (← g.kind.read fs' slot))) :
    Overwrites get l p.1 v k k' := by
  constructor
  · rw [hget' _ _ (Layout.lookup?_of_mem hnames hp), hread]
    rfl
  · intro g hg hne
    obtain ⟨offset, hq⟩ := Layout.exists_mem_placed hg
    have hslot := Layout.lookup?_of_mem hnames hq
    obtain ⟨w, hw⟩ := Fields.read_ok (hfits.le_size hq)
    refine ⟨w, ?_, ?_⟩
    · rw [hget _ _ hslot, hw]
      rfl
    · rw [hget' _ _ hslot, hrest _ hq fun h => hne (congrArg Prod.fst h), hw]
      rfl

section Instance

variable {o : Ref}

theorem instanceSlot_of_lookup? (he : k.heap.get? o = some e)
    (hdesc : k.classes.classes[e.classId]? = some desc)
    (hslot : desc.instances.lookup? f.name = some (slot, f.kind)) :
    k.instanceSlot o f.name = .ok (.ok slot) := by
  unfold instanceSlot
  rw [deref_eq_ok.mpr he, ok_bind, Registry.get_eq_ok.mpr hdesc, ok_bind, hslot]
  rfl

theorem readField_eq {α : Type} (read : Fields → Nat → Except Fault α) (he : k.heap.get? o = some e)
    (hdesc : k.classes.classes[e.classId]? = some desc)
    (hslot : desc.instances.lookup? f.name = some (slot, f.kind)) :
    k.readField read o f.name = (return .ok (← read e.fields slot)) := by
  unfold readField
  rw [instanceSlot_of_lookup? he hdesc hslot, ok_bind]
  dsimp only
  rw [deref_eq_ok.mpr he, ok_bind]

theorem getField_eq (he : k.heap.get? o = some e) (hdesc : k.classes.classes[e.classId]? = some desc)
    (hslot : desc.instances.lookup? f.name = some (slot, f.kind)) :
    k.getField o f = (return .ok (← f.kind.read e.fields slot)) := by
  unfold getField getLong getRef getInt
  simp only [readField_eq _ he hdesc hslot]
  cases f.kind <;> simp only [ValueKind.read, bind_assoc, pure_bind] <;> rfl

theorem setField_eq_writeField (name : String) : k.setField o name v = k.writeField v.write o name := by
  cases v <;> rfl

theorem setField_eq_ok (he : k.heap.get? o = some e) (hdesc : k.classes.classes[e.classId]? = some desc)
    (hslot : desc.instances.lookup? f.name = some (slot, f.kind)) (hfs' : v.write e.fields slot = .ok fs') :
    k.setField o f.name v = .ok (.ok (), { k with heap := k.heap.put o { e with fields := fs' } }) := by
  have hupdate : k.updateElement o (·.updateFields (v.write · slot)) =
      .ok { k with heap := k.heap.put o { e with fields := fs' } } :=
    updateElement_eq_ok.mpr ⟨e, _, he, bind_eq_ok.mpr ⟨fs', hfs', rfl⟩, rfl⟩
  rw [setField_eq_writeField]
  unfold writeField
  rw [instanceSlot_of_lookup? he hdesc hslot, ok_bind]
  dsimp only
  rw [hupdate, ok_bind]
  rfl

theorem setField_spec (he : k.heap.get? o = some e) (hdesc : k.classes.classes[e.classId]? = some desc)
    (hfits : e.fields.Fits desc.instances) (hnames : (desc.instances.fields.map (·.name)).Nodup)
    (hf : f ∈ desc.instances.fields) (hv : v.IsOf f.kind) :
    ∃ fs' heap, k.setField o f.name v = .ok (.ok (), { k with heap }) ∧
      heap.get? o = some { e with fields := fs' } ∧ fs'.MarkedBy desc.instances ∧
      (∀ o', o' ≠ o → heap.get? o' = k.heap.get? o') ∧
      Overwrites (·.getField o) desc.instances f v k { k with heap } := by
  obtain ⟨offset, hp⟩ := Layout.exists_mem_placed hf
  obtain ⟨fs', hfs', hfits', hread, hrest⟩ := hfits.write hp hv
  have hslot := Layout.lookup?_of_mem hnames hp
  have he' : (k.heap.put o { e with fields := fs' }).get? o = some { e with fields := fs' } := by
    rw [Heap.get?_put, if_pos rfl, he]
    rfl
  refine ⟨fs', _, setField_eq_ok he hdesc hslot hfs', he', hfits'.markedBy, ?_, ?_⟩
  · intro o' ho'
    rw [Heap.get?_put, if_neg ho'.symm]
  · apply overwrites_of_write hfits hnames hp hread hrest
    · intro g slot hg
      exact getField_eq he hdesc hg
    · intro g slot hg
      exact getField_eq (k := { k with heap := k.heap.put o { e with fields := fs' } }) he' hdesc hg

end Instance

section Static

variable {c : ClassId}

theorem staticSlot_of_lookup? (he : k.statics.get? c = some e) (hdesc : k.classes.classes[c]? = some desc)
    (hslot : desc.statics.lookup? f.name = some (slot, f.kind)) :
    k.staticSlot c f.name = .ok (.ok slot) := by
  have hloaded : k.statics.contains c = true := (Arena.contains_iff _ _).mpr ⟨e, he⟩
  unfold staticSlot
  rw [Registry.get_eq_ok.mpr hdesc, ok_bind, if_pos hloaded, hslot]
  rfl

theorem readStatic_eq {α : Type} (read : Fields → Nat → Except Fault α) (absent : α)
    (he : k.statics.get? c = some e) (hdesc : k.classes.classes[c]? = some desc)
    (hslot : desc.statics.lookup? f.name = some (slot, f.kind)) :
    k.readStatic read absent c f.name = (return .ok (← read e.fields slot)) := by
  unfold readStatic
  rw [staticSlot_of_lookup? he hdesc hslot, ok_bind]
  dsimp only
  rw [he]

theorem getStatic_eq (he : k.statics.get? c = some e) (hdesc : k.classes.classes[c]? = some desc)
    (hslot : desc.statics.lookup? f.name = some (slot, f.kind)) :
    k.getStatic c f = (return .ok (← f.kind.read e.fields slot)) := by
  unfold getStatic getStaticRef getStaticInt
  simp only [readStatic_eq _ _ he hdesc hslot]
  cases f.kind <;> simp only [ValueKind.read, bind_assoc, pure_bind] <;> rfl

theorem setStatic_eq_writeStatic (name : String) : k.setStatic c name v = k.writeStatic v.write c name := by
  cases v <;> rfl

theorem setStatic_eq_ok (he : k.statics.get? c = some e) (hdesc : k.classes.classes[c]? = some desc)
    (hslot : desc.statics.lookup? f.name = some (slot, f.kind)) (hfs' : v.write e.fields slot = .ok fs') :
    k.setStatic c f.name v =
      .ok (.ok (), { k with statics := k.statics.put c { e with fields := fs' } }) := by
  have hupdate : e.updateFields (v.write · slot) = .ok { e with fields := fs' } :=
    bind_eq_ok.mpr ⟨fs', hfs', rfl⟩
  rw [setStatic_eq_writeStatic]
  unfold writeStatic
  rw [staticSlot_of_lookup? he hdesc hslot, ok_bind]
  dsimp only
  rw [he]
  dsimp only
  rw [hupdate]
  rfl

theorem setStatic_spec (he : k.statics.get? c = some e) (hdesc : k.classes.classes[c]? = some desc)
    (hfits : e.fields.Fits desc.statics) (hnames : (desc.statics.fields.map (·.name)).Nodup)
    (hf : f ∈ desc.statics.fields) (hv : v.IsOf f.kind) :
    ∃ fs' statics, k.setStatic c f.name v = .ok (.ok (), { k with statics }) ∧
      statics.get? c = some { e with fields := fs' } ∧ fs'.MarkedBy desc.statics ∧
      (∀ c', c' ≠ c → statics.get? c' = k.statics.get? c') ∧
      Overwrites (·.getStatic c) desc.statics f v k { k with statics } := by
  obtain ⟨offset, hp⟩ := Layout.exists_mem_placed hf
  obtain ⟨fs', hfs', hfits', hread, hrest⟩ := hfits.write hp hv
  have hslot := Layout.lookup?_of_mem hnames hp
  have he' : (k.statics.put c { e with fields := fs' }).get? c = some { e with fields := fs' } := by
    rw [Statics.get?_put, if_pos rfl, he]
    rfl
  refine ⟨fs', _, setStatic_eq_ok he hdesc hslot hfs', he', hfits'.markedBy, ?_, ?_⟩
  · intro c' hc'
    rw [Statics.get?_put, if_neg hc'.symm]
  · apply overwrites_of_write hfits hnames hp hread hrest
    · intro g slot hg
      exact getStatic_eq he hdesc hg
    · intro g slot hg
      exact getStatic_eq (k := { k with statics := k.statics.put c { e with fields := fs' } }) he' hdesc hg

end Static

/-- A write to a named field is seen by reads of this field only. In every state, the slots for references
are those of reference fields. -/
theorem Built.setField_independent {ok : Kernel → Op → Prop} (hk : Built ok k) :
    (∀ o e, k.heap.get? o = some e → e.kind = .object →
      ∃ desc, k.classes.classes[e.classId]? = some desc ∧ e.fields.MarkedBy desc.instances ∧
        ((desc.instances.fields.map (·.name)).Nodup → ∀ f ∈ desc.instances.fields, ∀ v, v.IsOf f.kind →
          ∃ fs' heap, k.setField o f.name v = .ok (.ok (), { k with heap }) ∧
            heap.get? o = some { e with fields := fs' } ∧ fs'.MarkedBy desc.instances ∧
            (∀ o', o' ≠ o → heap.get? o' = k.heap.get? o') ∧
            Overwrites (·.getField o) desc.instances f v k { k with heap })) ∧
    (∀ c e, k.statics.get? c = some e →
      ∃ desc, k.classes.classes[c]? = some desc ∧ e.fields.MarkedBy desc.statics ∧
        ((desc.statics.fields.map (·.name)).Nodup → ∀ f ∈ desc.statics.fields, ∀ v, v.IsOf f.kind →
          ∃ fs' statics, k.setStatic c f.name v = .ok (.ok (), { k with statics }) ∧
            statics.get? c = some { e with fields := fs' } ∧ fs'.MarkedBy desc.statics ∧
            (∀ c', c' ≠ c → statics.get? c' = k.statics.get? c') ∧
            Overwrites (·.getStatic c) desc.statics f v k { k with statics })) := by
  have hconforms := Conforms.built hk
  constructor
  · intro o e he hkind
    obtain ⟨i, _, hi⟩ := Heap.get?_eq_some.mp he
    obtain ⟨desc, hdesc, hmarks⟩ := hconforms.objects i e hi hkind
    have hfits : e.fields.Fits desc.instances := hmarks
    refine ⟨desc, hdesc, hfits.markedBy, ?_⟩
    intro hnames f hf v hv
    exact setField_spec he hdesc hfits hnames hf hv
  · intro c e he
    obtain ⟨desc, hdesc, hmarks⟩ := hconforms.statics c e he
    have hfits : e.fields.Fits desc.statics := hmarks
    refine ⟨desc, hdesc, hfits.markedBy, ?_⟩
    intro hnames f hf v hv
    exact setStatic_spec he hdesc hfits hnames hf hv

def mixedClass : ClassDescriptor where
  name := "Mixed"
  instances := ⟨[⟨"flag", .boolean⟩, ⟨"total", .long⟩, ⟨"next", .reference⟩, ⟨"ratio", .double⟩, ⟨"tag", .char⟩]⟩
  statics := ⟨[⟨"limit", .long⟩, ⟨"head", .reference⟩, ⟨"count", .int⟩]⟩

def mixedState : Kernel :=
  (Kernel.withLimit none).performAll
    [.register mixedClass, .load 3, .newObject 3 none none, .newObject 3 none none]

theorem Built.setField_independent_mixed :
    (∃ heap, mixedState.setField (.ofIndex 2) "total" (.long (-2)) = .ok (.ok (), { mixedState with heap }) ∧
      heap.get? (.ofIndex 1) = mixedState.heap.get? (.ofIndex 1) ∧
      Overwrites (·.getField (.ofIndex 2)) mixedClass.instances ⟨"total", .long⟩ (.long (-2)) mixedState
        { mixedState with heap }) ∧
    ∃ statics, mixedState.setStatic 3 "head" (.ref (.ofIndex 2)) = .ok (.ok (), { mixedState with statics }) ∧
      Overwrites (·.getStatic 3) mixedClass.statics ⟨"head", .reference⟩ (.ref (.ofIndex 2)) mixedState
        { mixedState with statics } := by
  have hbuilt : Built (fun _ _ => True) mixedState :=
    (Built.start none {}).performAll fun _ _ _ => trivial
  obtain ⟨hinstance, hstatic⟩ := hbuilt.setField_independent
  constructor
  · obtain ⟨e, he⟩ := Option.isSome_iff_exists.mp
      (show (mixedState.heap.get? (.ofIndex 2)).isSome = true by decide +kernel)
    have hfacts : (mixedState.heap.get? (.ofIndex 2)).map (fun e => (e.kind, mixedState.classes.classes[e.classId]?)) =
        some (.object, some { mixedClass with id := 3 }) := by decide +kernel
    rw [he, Option.map_some, Option.some.injEq, Prod.mk.injEq] at hfacts
    obtain ⟨desc, hdesc, -, hwrite⟩ := hinstance _ e he hfacts.1
    obtain rfl := Option.some.inj (hdesc.symm.trans hfacts.2)
    obtain ⟨_, heap, hset, -, -, hothers, hreads⟩ := hwrite (by decide) ⟨"total", .long⟩ (by decide)
      (.long (-2)) (by decide)
    exact ⟨heap, hset, hothers _ (by decide), hreads⟩
  · obtain ⟨e, he⟩ := Option.isSome_iff_exists.mp
      (show (mixedState.statics.get? 3).isSome = true by decide +kernel)
    have hclass : mixedState.classes.classes[3]? = some { mixedClass with id := 3 } := by decide +kernel
    obtain ⟨desc, hdesc, -, hwrite⟩ := hstatic 3 e he
    obtain rfl := Option.some.inj (hdesc.symm.trans hclass)
    obtain ⟨_, statics, hset, -, -, -, hreads⟩ := hwrite (by decide) ⟨"head", .reference⟩ (by decide)
      (.ref (.ofIndex 2)) (by decide)
    exact ⟨statics, hset, hreads⟩

end Kernel

end Interleave
