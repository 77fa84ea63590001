import Interleave.Proofs.Kernel.Grow

/-!
In a state that proper operations have built, every element has the shape that its class says.
-/

namespace Interleave

structure Kernel.WellShaped (k : Kernel) : Prop where
  registry : k.classes.Sound
  objects : ∀ i e, k.heap.arena.get? i = some e → e.IsInstance k.classes
  statics : ∀ c e, k.statics.get? c = some e → e.IsStaticOf k.classes c
  loaded : k.statics.size = k.statics.elements.length

namespace Kernel.WellShaped

variable {k k' : Kernel}

theorem put (hk : k.WellShaped) {o : Ref} {e e' : Element} (he : k.heap.get? o = some e)
    (hshape : e.SameShape e') : { k with heap := k.heap.put o e' }.WellShaped where
  registry := hk.registry
  objects := Heap.All.put hk.objects he fun hinst => hinst.sameShape hshape
  statics := hk.statics
  loaded := hk.loaded

theorem stirs {calm : Prop} (hk : k.WellShaped) (h : k.Stirs calm k') : k'.WellShaped := by
  induction h with
  | refl => exact hk
  | tail _ h ih =>
    cases h with
    | monitor f h _ => exact ih.put h ⟨rfl, rfl, rfl⟩
    | _ => exact ⟨ih.registry, ih.objects, ih.statics, ih.loaded⟩

theorem mono (hk : k.WellShaped) {r : Registry} (hr : r.Sound)
    (hle : k.classes.classes.toList <+: r.classes.toList) : { k with classes := r }.WellShaped where
  registry := hr
  objects := fun i e he => (hk.objects i e he).mono hle
  statics := fun c e he => (hk.statics c e he).mono hle
  loaded := hk.loaded

theorem name (hk : k.WellShaped) {creator : Option ThreadId} {site : Option Site} {gid : GlobalId}
    (h : k.newGlobalId creator site = .ok (gid, k')) : k'.WellShaped := by
  obtain ⟨thread, _, _, rfl⟩ := newGlobalId_eq_ok.mp h
  exact ⟨hk.registry, hk.objects, hk.statics, hk.loaded⟩

theorem place (hk : k.WellShaped) {build : Ref → Element}
    (hbuild : ∀ r, (build r).IsInstance k.classes) :
    { k with heap := (k.heap.place build).2 }.WellShaped where
  registry := hk.registry
  objects := Heap.All.place hk.objects hbuild
  statics := hk.statics
  loaded := hk.loaded

theorem named (hk : k.WellShaped) {creator : Option ThreadId} {site : Option Site} {gid : GlobalId}
    {build : Ref → Element} (h : k.newGlobalId creator site = .ok (gid, k'))
    (hbuild : k.Builds True gid build) :
    { k' with heap := (k'.heap.place build).2 }.WellShaped := by
  apply (hk.name h).place
  rw [classes_newGlobalId h]
  exact hbuild.isInstance trivial

theorem putStatic (hk : k.WellShaped) {c : ClassId} {e e' : Element}
    (he : k.statics.get? c = some e) (hclass : e'.classId = e.classId)
    (hstatic : e.IsStatic → e'.IsStatic) (hmarks : e'.fields.marks = e.fields.marks) :
    { k with statics := k.statics.put c e' }.WellShaped where
  registry := hk.registry
  objects := hk.objects
  statics := by
    apply Statics.All.put hk.statics he
    rintro ⟨hid, hkind, desc, hdesc, hold⟩
    exact ⟨hclass.trans hid, hstatic hkind, desc, hdesc, hmarks.trans hold⟩
  loaded := by
    have hlive : (k.statics.put c e').size = k.statics.size := k.statics.arena.live_modify c _
    have hlength := k.statics.arena.length_elements_replace c e'
    exact hlive.trans (hk.loaded.trans hlength.symm)

theorem addClass (hk : k.WellShaped) {c : ClassId} {desc : ClassDescriptor}
    (hdesc : k.classes.classes[c]? = some desc) (gid : GlobalId) (classObject : Ref) :
    { k with statics := k.statics.addClass desc gid classObject }.WellShaped where
  registry := hk.registry
  objects := hk.objects
  statics := by
    apply Statics.All.addClass hk.statics
    refine ⟨rfl, ⟨_, _, rfl⟩, desc, ?_, Fields.marks_ofMask _⟩
    rw [hk.registry.id c desc hdesc]
    exact hdesc
  loaded := by
    have hloaded := hk.loaded
    unfold Statics.addClass
    split
    · exact hloaded
    · next hnew =>
      have hfree : k.statics.arena.contains desc.id = false := Bool.eq_false_iff.mpr hnew
      unfold Statics.size Statics.elements at *
      dsimp only
      rw [Arena.length_elements_insert hfree, ← hloaded, Arena.live_insert, hfree]
      rfl

theorem grow (hk : k.WellShaped) (h : Grow True k k') : k'.WellShaped := by
  cases h with
  | register c hc => exact hk.mono (hk.registry.register (hc trivial)) (Registry.prefix_register _ _)
  | name h => exact hk.name h
  | object h hbuild => exact hk.named h hbuild
  | thread h hbuild hgid _ =>
    have hobject := hk.named h hbuild
    exact ⟨hobject.registry, hobject.objects, hobject.statics, hobject.loaded⟩
  | @load c _ _ classObject hnew hdesc hbuild =>
    have hloaded := (hk.place (hbuild.isInstance trivial)).addClass hdesc
      (k.pool.intern (.ofClass c)).1 classObject
    exact ⟨hloaded.registry, hloaded.objects, hloaded.statics, hloaded.loaded⟩
  | write he hkept => exact hk.put he hkept.toSameShape
  | flag flag =>
    refine ⟨hk.registry, ?_, hk.statics, hk.loaded⟩
    rw [Heap.arena_setOutOfMemory]
    exact hk.objects
  | writeStatic he hclass hstatic hmarks _ => exact hk.putStatic he hclass hstatic hmarks
  | collect h =>
    have hobjects := Heap.All.collect hk.objects h fun _ _ hshape hinst => hinst.sameShape hshape
    exact ⟨hk.registry, hobjects, hk.statics, hk.loaded⟩
  | _ => exact ⟨hk.registry, hk.objects, hk.statics, hk.loaded⟩

theorem grows (hk : k.WellShaped) (h : Grows True k k') : k'.WellShaped := by
  induction h with
  | refl => exact hk
  | tail _ h ih => exact ih.grow h

theorem perform (hk : k.WellShaped) {op : Op} (hop : op.IsProper k) (h : k.perform op = .ok k') :
    k'.WellShaped := by
  cases hs : op.stirs with
  | true => exact hk.stirs (perform_stirs hs False.elim h)
  | false => exact hk.grows (perform_grows hs h (fun _ => hk.registry) fun _ => hop)

theorem built (h : Built (fun k op => op.IsProper k) k) : k.WellShaped := by
  induction h with
  | start limit observers =>
    refine ⟨Registry.sound_core, ?_, ?_, congrArg List.length Arena.elements_empty.symm⟩
    · intro i e he
      cases he
    · intro c e he
      cases he
  | perform hk hop hk' ih => exact ih.perform hop hk'
  | adopt hk hother hle ih ihother =>
    have hmono := ih.mono ihother.registry hle.classes
    exact ⟨hmono.registry, hmono.objects, hmono.statics, hmono.loaded⟩
  | restore hk hother hle ih ihother =>
    have hmono := ihother.mono ih.registry hle.classes
    exact ⟨hmono.registry, hmono.objects, hmono.statics, hmono.loaded⟩

end Kernel.WellShaped

end Interleave
