import Interleave.Proofs.Kernel.Grow

/-!
In every state that operations have built, objects have the slots that their classes say, and so have the
static slots of loaded classes.
-/

namespace Interleave

def Element.HoldsStatics (r : Registry) (c : ClassId) (e : Element) : Prop :=
  ∃ desc, r.classes[c]? = some desc ∧ e.fields.marks = desc.statics.refMask

structure Kernel.Conforms (k : Kernel) : Prop where
  ids : k.classes.Numbered
  objects : ∀ i e, k.heap.arena.get? i = some e → e.FollowsClass k.classes
  statics : ∀ c e, k.statics.get? c = some e → e.HoldsStatics k.classes c

namespace Kernel.Conforms

variable {k k' : Kernel}

theorem put (hk : k.Conforms) {o : Ref} {e e' : Element} (he : k.heap.get? o = some e)
    (hshape : e.SameShape e') : { k with heap := k.heap.put o e' }.Conforms where
  ids := hk.ids
  objects := Heap.All.put hk.objects he fun hfollows => hfollows.sameShape hshape
  statics := hk.statics

theorem stirs {calm : Prop} (hk : k.Conforms) (h : k.Stirs calm k') : k'.Conforms := by
  induction h with
  | refl => exact hk
  | tail _ h ih =>
    cases h with
    | monitor f h _ => exact ih.put h ⟨rfl, rfl, rfl⟩
    | _ => exact ⟨ih.ids, ih.objects, ih.statics⟩

theorem mono (hk : k.Conforms) {r : Registry} (hr : r.Numbered)
    (hle : k.classes.classes.toList <+: r.classes.toList) : { k with classes := r }.Conforms where
  ids := hr
  objects := fun i e he => (hk.objects i e he).mono hle
  statics := by
    intro c e he
    obtain ⟨desc, hdesc, hmarks⟩ := hk.statics c e he
    exact ⟨desc, Registry.getElem?_of_prefix hle hdesc, hmarks⟩

theorem place (hk : k.Conforms) {build : Ref → Element} (hbuild : ∀ r, (build r).FollowsClass k.classes) :
    { k with heap := (k.heap.place build).2 }.Conforms where
  ids := hk.ids
  objects := Heap.All.place hk.objects hbuild
  statics := hk.statics

theorem named {proper : Prop} (hk : k.Conforms) {creator : Option ThreadId} {site : Option Site}
    {gid : GlobalId} {build : Ref → Element} (h : k.newGlobalId creator site = .ok (gid, k'))
    (hbuild : k.Builds proper gid build) : { k' with heap := (k'.heap.place build).2 }.Conforms := by
  obtain ⟨thread, _, _, rfl⟩ := newGlobalId_eq_ok.mp h
  have hplaced := hk.place (hbuild.follows hk.ids)
  exact ⟨hplaced.ids, hplaced.objects, hplaced.statics⟩

theorem putStatic (hk : k.Conforms) {c : ClassId} {e e' : Element} (he : k.statics.get? c = some e)
    (hmarks : e'.fields.marks = e.fields.marks) : { k with statics := k.statics.put c e' }.Conforms where
  ids := hk.ids
  objects := hk.objects
  statics := by
    apply Statics.All.put hk.statics he
    rintro ⟨desc, hdesc, hold⟩
    exact ⟨desc, hdesc, hmarks.trans hold⟩

theorem addClass (hk : k.Conforms) {c : ClassId} {desc : ClassDescriptor}
    (hdesc : k.classes.classes[c]? = some desc) (gid : GlobalId) (classObject : Ref) :
    { k with statics := k.statics.addClass desc gid classObject }.Conforms where
  ids := hk.ids
  objects := hk.objects
  statics := by
    apply Statics.All.addClass hk.statics
    refine ⟨desc, ?_, Fields.marks_ofMask _⟩
    rw [hk.ids c desc hdesc]
    exact hdesc

theorem grow {proper : Prop} (hk : k.Conforms) (h : Grow proper k k') : k'.Conforms := by
  cases h with
  | register c _ => exact hk.mono (hk.ids.register c) (Registry.prefix_register _ _)
  | name h =>
    obtain ⟨thread, _, _, rfl⟩ := newGlobalId_eq_ok.mp h
    exact ⟨hk.ids, hk.objects, hk.statics⟩
  | object h hbuild => exact hk.named h hbuild
  | thread h hbuild hgid _ =>
    have hobject := hk.named h hbuild
    exact ⟨hobject.ids, hobject.objects, hobject.statics⟩
  | @load c _ _ classObject hnew hdesc hbuild =>
    have hloaded := (hk.place (hbuild.follows hk.ids)).addClass hdesc (k.pool.intern (.ofClass c)).1
      classObject
    exact ⟨hloaded.ids, hloaded.objects, hloaded.statics⟩
  | write he hkept => exact hk.put he hkept.toSameShape
  | flag flag =>
    refine ⟨hk.ids, ?_, hk.statics⟩
    rw [Heap.arena_setOutOfMemory]
    exact hk.objects
  | writeStatic he _ _ hmarks _ => exact hk.putStatic he hmarks
  | collect h =>
    have hobjects := Heap.All.collect hk.objects h fun _ _ hshape hfollows => hfollows.sameShape hshape
    exact ⟨hk.ids, hobjects, hk.statics⟩
  | _ => exact ⟨hk.ids, hk.objects, hk.statics⟩

theorem grows {proper : Prop} (hk : k.Conforms) (h : Grows proper k k') : k'.Conforms := by
  induction h with
  | refl => exact hk
  | tail _ h ih => exact ih.grow h

theorem perform (hk : k.Conforms) {op : Op} (h : k.perform op = .ok k') : k'.Conforms := by
  cases hs : op.stirs with
  | true => exact hk.stirs (perform_stirs hs False.elim h)
  | false => exact hk.grows (perform_grows hs h False.elim False.elim)

theorem built {ok : Kernel → Op → Prop} (h : Built ok k) : k.Conforms := by
  induction h with
  | start limit observers =>
    refine ⟨Registry.sound_core.id, ?_, ?_⟩
    · intro i e he
      cases he
    · intro c e he
      cases he
  | perform _ _ hk' ih => exact ih.perform hk'
  | adopt _ _ hle ih ihother =>
    have hmono := ih.mono ihother.ids hle.classes
    exact ⟨hmono.ids, hmono.objects, hmono.statics⟩
  | restore _ _ hle ih ihother =>
    have hmono := ihother.mono ih.ids hle.classes
    exact ⟨hmono.ids, hmono.objects, hmono.statics⟩

end Kernel.Conforms

end Interleave
