import Interleave.Proofs.Kernel.Part

/-!
What operations that do not only stir come to, whichever operation it is. They are sequences of a few kinds
of steps, which register classes, name and place new elements, write slots, and collect.
-/

namespace Interleave

namespace Kernel

inductive Grow (proper : Prop) (k : Kernel) : Kernel → Prop where
  | tell (e : Event) : Grow proper k (k.tell e)
  | tellAll (es : List Event) : Grow proper k (k.tellAll es)
  | track (tracked : Bool) : Grow proper k { k with tracked }
  | register (c : ClassDescriptor) (hc : proper → c.IsPlain ∨ ∃ elem, c = .array elem) :
    Grow proper k (k.register c).2
  | name {creator : Option ThreadId} {site : Option Site} {gid : GlobalId} {k' : Kernel}
    (h : k.newGlobalId creator site = .ok (gid, k')) : Grow proper k k'
  | object {creator : Option ThreadId} {site : Option Site} {gid : GlobalId} {k' : Kernel}
    {build : Ref → Element} (h : k.newGlobalId creator site = .ok (gid, k'))
    (hbuild : k.Builds proper gid build) :
    Grow proper k { k' with heap := (k'.heap.place build).2 }
  | thread {creator : Option ThreadId} {site : Option Site} {gid : GlobalId} {k' : Kernel}
    {build : Ref → Element} {info : Thread} (h : k.newGlobalId creator site = .ok (gid, k'))
    (hbuild : k.Builds proper gid build) (hgid : info.gid = gid) (hnew : info.IsNew k'.threads.nextId) :
    Grow proper k { k' with
      heap := (k'.heap.place build).2
      threads := { threads := k'.threads.threads.push info, epoch := k'.threads.epoch + 1 } }
  | load {c : ClassId} {desc : ClassDescriptor} {build : Ref → Element} {classObject : Ref}
    (hnew : k.statics.contains c = false) (hdesc : k.classes.classes[c]? = some desc)
    (hbuild : k.Builds proper (k.pool.intern (.ofClass c)).1 build) :
    Grow proper k { k with
      pool := (k.pool.intern (.ofClass c)).2
      heap := (k.heap.place build).2
      statics := k.statics.addClass desc (k.pool.intern (.ofClass c)).1 classObject }
  | write {o : Ref} {e e' : Element} (he : k.heap.get? o = some e) (hkept : e.Kept e') :
    Grow proper k { k with heap := k.heap.put o e' }
  | flag (flag : Bool) : Grow proper k { k with heap := k.heap.setOutOfMemory flag }
  | strings (strings : List Interned) : Grow proper k { k with heap := { k.heap with strings } }
  | writeStatic {c : ClassId} {e e' : Element} (he : k.statics.get? c = some e)
    (hclass : e'.classId = e.classId) (hstatic : e.IsStatic → e'.IsStatic)
    (hmarks : e'.fields.marks = e.fields.marks) (hweak : e'.weak = e.weak) :
    Grow proper k { k with statics := k.statics.put c e' }
  | collect {c : Collection}
    (h : k.heap.collect { threads := k.threads.roots, statics := k.statics.roots } = .ok c) :
    Grow proper k { k with heap := c.heap }
  | capture : Grow proper k k.snapshot.2

abbrev Grows (proper : Prop) : Kernel → Kernel → Prop := Relation.ReflTransGen (Grow proper)

variable {proper : Prop} {k k' : Kernel}

theorem grows_collect {stats : CollectionStats} (h : k.collect = .ok (stats, k')) :
    Grows proper k k' := by
  unfold Kernel.collect at h
  obtain ⟨c, hc, h⟩ := bind_eq_ok.mp h
  cases h
  exact .tail (.tail (.tail (.single (.collect hc)) (.tell _)) (.tellAll _)) (.tell _)

theorem Part.grows {op : Op} (h : Part op proper k k') : Grows proper k k' := by
  cases h with
  | tell e => exact .single (.tell e)
  | track tracked => exact .single (.track tracked)
  | register c hc => exact .single (.register c hc)
  | name h => exact .single (.name h)
  | object h hbuild => exact .tail (.single (.object h hbuild)) (.tell _)
  | thread _ h hbuild hgid hnew => exact .tail (.single (.thread h hbuild hgid hnew)) (.tell _)
  | load _ hnew hdesc hbuild => exact .tail (.single (.load hnew hdesc hbuild)) (.tell _)
  | write _ he hkept => exact .single (.write he hkept)
  | flag flag => exact .single (.flag flag)
  | strings _ strings => exact .single (.strings strings)
  | writeStatic _ he hclass hstatic hmarks hweak => exact .single (.writeStatic he hclass hstatic hmarks hweak)
  | collect _ h => exact grows_collect h
  | capture => exact .single .capture

theorem Parts.grows {op : Op} (h : Parts op proper k k') : Grows proper k k' := by
  induction h with
  | refl => exact .refl
  | tail _ h ih => exact ih.trans h.grows

theorem perform_grows {op : Op} (hop : op.stirs = false) (h : k.perform op = .ok k')
    (hs : proper → k.classes.Sound) (hproper : proper → op.IsProper k) : Grows proper k k' :=
  (perform_parts hop h hs hproper).grows

end Kernel

end Interleave
