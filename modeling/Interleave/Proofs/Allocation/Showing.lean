import Interleave.Proofs.Allocation.Estate
import Interleave.Proofs.Kernel.Echo

/-!
States that show what threads have made: beside all that an earlier state holds there is one object for
each thing made, wherever in the heap, and the top frames have the contents that they should have. Every
work of a thread goes through, and takes a state that shows what the threads had before it to one that
shows what they have after it.
-/

namespace Interleave

def Shape.IsOf (r : Registry) (e : Element) : Shape → Prop
  | object desc => e.kind = .object ∧ e.classId = desc.id ∧ r.classes[desc.id]? = some desc
  | array elem length =>
    e.kind = .array elem length ∧ r.lookup? (ClassDescriptor.array elem).name = some e.classId

namespace Item

structure Describes (item : Item) (k : Kernel) (own : List Ref) (e : Element) : Prop where
  key : k.pool.key? e.gid = some item.key
  shape : item.shape.IsOf k.classes e
  cells : e.fields.cells = item.contents.map (·.cell own)

variable {item : Item} {k k' : Kernel} {own : List Ref} {e : Element}

theorem Describes.mono (h : item.Describes k own e) (hle : k.Precedes k') : item.Describes k' own e where
  key := IdPool.key?_of_prefix hle.pool h.key
  shape := by
    have hshape := h.shape
    generalize item.shape = sh at hshape ⊢
    cases sh with
    | object desc =>
      exact ⟨hshape.1, hshape.2.1, Registry.getElem?_of_prefix hle.classes hshape.2.2⟩
    | array elem length => exact ⟨hshape.1, findIdx?_mono hle.classes hshape.2⟩
  cells := h.cells

theorem map_cell_append {s : Kernel} {l : List Content} (hl : ∀ c ∈ l, c.IsKnown s own.length) (r : Ref) :
    l.map (·.cell (own ++ [r])) = l.map (·.cell own) :=
  List.map_congr_left fun c hc => Content.cell_append (hl c hc) r

theorem Describes.append {s : Kernel} (h : item.Describes k own e) (hs : item.Sound s own.length)
    (r : Ref) : item.Describes k (own ++ [r]) e :=
  ⟨h.key, h.shape, h.cells.trans (map_cell_append hs.known r).symm⟩

end Item

namespace Fields

theorem cells_ofMask (mask : List Bool) (own : List Ref) :
    (ofMask mask).cells = (mask.map Content.blank).map (·.cell own) := by
  apply List.ext_getElem?
  intro i
  rw [getElem?_cells, List.getElem?_map, List.getElem?_map]
  cases hi : mask[i]? with
  | none => simp [ofMask, hi]
  | some isRef =>
    cases isRef <;> simp [ofMask, isReference, hi, Content.blank, Content.cell, Target.resolve]

theorem cells_ofArray (elem : ValueKind) (length : Nat) (own : List Ref) :
    (ofArray elem length).cells = ((elem.arrayMarks length).map Content.blank).map (·.cell own) := by
  apply List.ext_getElem?
  intro i
  rw [getElem?_cells, List.getElem?_map, List.getElem?_map]
  unfold ValueKind.arrayMarks
  rw [List.getElem?_replicate]
  cases href : elem.isReference with
  | false =>
    by_cases hi : i < length * elem.width <;>
      simp [ofArray, isReference, href, hi, Content.blank, Content.cell]
  | true =>
    have hwidth : elem.width = 1 := by
      cases elem <;> first | rfl | cases href
    by_cases hi : i < length <;>
      simp [ofArray, isReference, size, href, hwidth, hi, Content.blank, Content.cell, Target.resolve]

end Fields

theorem Heap.overLimit_eq (h : Heap) : h.overLimit = h.limit.any (· < h.size) := by
  unfold overLimit
  cases h.limit <;> rfl

theorem Heap.outOfMemory_place (h : Heap) (build : Ref → Element) :
    (h.place build).2.outOfMemory = (h.outOfMemory || h.limit.any (· < h.size + 1)) := by
  let h' : Heap := { h with arena := (h.arena.allocate fun i => build (.ofIndex i)).2 }
  have hover : h'.overLimit = h.limit.any (· < h.size + 1) := by
    have hsize : h'.size = h.size + 1 := h.arena.live_allocate fun i => build (.ofIndex i)
    rw [h'.overLimit_eq, hsize]
  have hplace : (h.place build).2 = if h'.overLimit then h'.setOutOfMemory true else h' := rfl
  rw [hplace, ← hover]
  cases h'.overLimit with
  | false => simp [h']
  | true =>
    rw [if_pos rfl, Bool.or_true]
    unfold setOutOfMemory
    split
    · assumption
    · rfl

namespace Kernel

structure Allocates (k : Kernel) (o : Origin) (sh : Shape) (build : Ref → Element) (k' : Kernel) :
    Prop where
  heap : k'.heap = (k.heap.place build).2
  threads : k'.threads = k.threads
  statics : k'.statics = k.statics
  atomic : k'.atomic = k.atomic
  precedes : k.Precedes k'
  nodup : k.pool.keys.toList.Nodup → k'.pool.keys.toList.Nodup
  count : ∀ o', k'.tally.count o' = if o' = o then k.tally.count o + 1 else k.tally.count o'
  item : ∀ r own, Item.Describes ⟨sh, ⟨o, k.tally.count o + 1⟩, sh.blank⟩ k' own (build r)

variable {k : Kernel} {t : ThreadId} {info : Thread}

theorem allocates_next {o : Origin} {sh : Shape} {build : Ref → Element} {classes : Registry}
    (hclasses : k.classes.classes.toList <+: classes.classes.toList)
    (hgid : ∀ r, (build r).gid = (k.tally.next k.pool o).1) (hshape : ∀ r, sh.IsOf classes (build r))
    (hcells : ∀ r own, (build r).fields.cells = sh.blank.map (·.cell own)) (observers : Observers) :
    k.Allocates o sh build
      { k with
        classes
        pool := (k.tally.next k.pool o).2.1
        tally := (k.tally.next k.pool o).2.2
        heap := (k.heap.place build).2
        observers } where
  heap := rfl
  threads := rfl
  statics := rfl
  atomic := rfl
  precedes := ⟨hclasses, k.pool.prefix_intern _⟩
  nodup := fun hk => IdPool.nodup_intern hk _
  count := k.tally.count_bump o
  item := by
    intro r own
    refine ⟨?_, hshape r, hcells r own⟩
    have hkey := k.pool.key?_intern ⟨o, (k.tally.bump o).count o⟩
    rw [k.tally.count_bump, if_pos rfl] at hkey
    rw [hgid, Tally.next, k.tally.count_bump, if_pos rfl]
    exact hkey

theorem newGlobalId_of_thread (ht : k.threads.get? t = some info) (site : Option Site) :
    k.newGlobalId (some t) site =
      .ok ((k.tally.next k.pool (.ofCreation (some info.gid) site)).1,
        { k with
          pool := (k.tally.next k.pool (.ofCreation (some info.gid) site)).2.1
          tally := (k.tally.next k.pool (.ofCreation (some info.gid) site)).2.2 }) := by
  refine newGlobalId_eq_ok.mpr ⟨some info.gid, ?_, rfl, rfl⟩
  rw [Option.mapM_some, get_eq_ok.mpr ht]
  rfl

theorem newObject_allocates (ht : k.threads.get? t = some info) {c : ClassId} {desc : ClassDescriptor}
    (hdesc : k.classes.classes[c]? = some desc) (hid : desc.id = c) (site : Option Site) :
    ∃ build k', k.newObject c (some t) site = .ok (.ofIndex k.heap.arena.nextFree, k') ∧
      k.Allocates (.ofCreation (some info.gid) site) (.object desc) build k' := by
  refine ⟨fun r => .fresh r (k.tally.next k.pool (.ofCreation (some info.gid) site)).1 desc.id .object
    (.ofMask desc.instances.refMask) (some t), _, ?_,
    allocates_next List.prefix_rfl (fun _ => rfl) ?_ (fun _ own => Fields.cells_ofMask _ own)
      (k.observers.tell (.created (some t) (.ofIndex k.heap.arena.nextFree)))⟩
  · exact bind_eq_ok.mpr ⟨_, newGlobalId_of_thread ht site,
      bind_eq_ok.mpr ⟨desc, Registry.get_eq_ok.mpr hdesc, rfl⟩⟩
  · exact fun _ => ⟨rfl, rfl, hid ▸ hdesc⟩

theorem newArray_allocates (ht : k.threads.get? t = some info) (elem : ValueKind) (length : Nat)
    (site : Option Site) :
    ∃ build k', k.newArray elem length (some t) site = .ok (.ofIndex k.heap.arena.nextFree, k') ∧
      k.Allocates (.ofCreation (some info.gid) site) (.array elem length) build k' := by
  refine ⟨fun r => .fresh r (k.tally.next k.pool (.ofCreation (some info.gid) site)).1
    (k.classes.arrayClass elem).1 (.array elem length) (.ofArray elem length) (some t), _, ?_,
    allocates_next (k.classes.prefix_register (.array elem)) (fun _ => rfl) ?_
      (fun _ own => Fields.cells_ofArray elem length own)
      (k.observers.tell (.created (some t) (.ofIndex k.heap.arena.nextFree)))⟩
  · exact bind_eq_ok.mpr ⟨_, newGlobalId_of_thread ht site, rfl⟩
  · exact fun _ => ⟨rfl, k.classes.lookup?_register _⟩

structure Carries (s k : Kernel) (n : Nat) : Prop where
  kept : ∀ i e, s.heap.arena.get? i = some e → k.heap.arena.get? i = some e
  packed : k.heap.arena.Packed
  tallied : k.heap.arena.Tallied
  size : k.heap.size = s.heap.size + n
  outOfMemory : k.heap.outOfMemory =
    (s.heap.outOfMemory || (decide (0 < n) && s.heap.limit.any (· < s.heap.size + n)))
  limit : k.heap.limit = s.heap.limit
  statics : k.statics.capture.1 = s.statics.capture.1
  atomic : k.atomic = s.atomic
  precedes : s.Precedes k
  nodup : k.pool.keys.toList.Nodup

namespace Carries

variable {s k k' : Kernel} {n : Nat}

theorem get? (h : s.Carries k n) {r : Ref} {e : Element} (he : s.heap.get? r = some e) :
    k.heap.get? r = some e := by
  obtain ⟨i, hi, he⟩ := Heap.get?_eq_some.mp he
  exact Heap.get?_eq_some.mpr ⟨i, hi, h.kept i e he⟩

theorem roomy (h : s.Carries k n) {m : Nat} (hroom : s.heap.size + n + m ≤ Heap.maxSize) :
    k.heap.Roomy m :=
  ⟨h.packed, h.tallied, h.size ▸ hroom⟩

theorem allocate (h : s.Carries k n) {o : Origin} {sh : Shape} {build : Ref → Element}
    (ha : k.Allocates o sh build k') : s.Carries k' (n + 1) where
  kept := by
    intro i e he
    have hlive := h.kept i e he
    rw [ha.heap, Heap.arena_place, if_neg, hlive]
    rintro rfl
    have hfree := k.heap.arena.contains_nextFree
    rw [Arena.contains_of_get? hlive] at hfree
    cases hfree
  packed := by
    rw [ha.heap]
    exact (k.heap.lasts_place build).packed h.packed
  tallied := by
    rw [ha.heap, Heap.arena_place_eq]
    exact h.tallied.allocate _
  size := by rw [ha.heap, Heap.size_place, h.size, Nat.add_assoc]
  outOfMemory := by
    rw [ha.heap, Heap.outOfMemory_place, h.outOfMemory, h.limit, h.size]
    have hover : (decide (0 < n) && s.heap.limit.any (· < s.heap.size + n)) = true →
        s.heap.limit.any (· < s.heap.size + n + 1) = true := by
      cases s.heap.limit with
      | none => simp
      | some limit =>
        simp only [Option.any_some, Bool.and_eq_true, decide_eq_true_eq]
        omega
    rw [decide_eq_true (Nat.succ_pos n), Bool.true_and, ← Nat.add_assoc, Bool.or_assoc]
    -- once over the limit, always over it
    congr 1
    exact Bool.or_eq_right_iff_imp.mpr hover
  limit := by
    rw [ha.heap]
    exact (k.heap.lasts_place build).limit.trans h.limit
  statics := by rw [ha.statics, h.statics]
  atomic := by rw [ha.atomic, h.atomic]
  precedes := h.precedes.trans ha.precedes
  nodup := ha.nodup h.nodup

theorem put (h : s.Carries k n) {o : Ref} (ho : s.heap.get? o = none) (e : Element) :
    s.Carries { k with heap := k.heap.put o e } n where
  kept := by
    intro i e' he'
    rw [Heap.arena_put, if_neg, h.kept i e' he']
    intro hi
    rw [Heap.get?, hi, Option.bind_some, he'] at ho
    cases ho
  packed := (k.heap.lasts_put o e).packed h.packed
  tallied := by
    unfold Heap.put
    split
    · exact h.tallied.replace _ e
    · exact h.tallied
  size := (k.heap.size_put o e).trans h.size
  outOfMemory := by
    have hflag : (k.heap.put o e).outOfMemory = k.heap.outOfMemory := by
      unfold Heap.put
      split <;> rfl
    rw [hflag, h.outOfMemory]
  limit := (k.heap.lasts_put o e).limit.trans h.limit
  statics := h.statics
  atomic := h.atomic
  precedes := ⟨h.precedes.classes, h.precedes.pool⟩
  nodup := h.nodup

theorem onThreads (h : s.Carries k n) (threads : Roster) : s.Carries { k with threads } n :=
  { h with precedes := ⟨h.precedes.classes, h.precedes.pool⟩ }

theorem mirrors (h : s.Mirrors k) (ht : s.heap.arena.Tallied) (hk : k.pool.keys.toList.Nodup) :
    s.Carries k 0 where
  kept := by
    intro i e he
    rw [h.heap.getSlot?, he]
  packed := h.heap.packed'
  tallied := by
    have hlive : k.heap.arena.live = s.heap.arena.live := congrArg (·.live) h.heap.arena
    unfold Arena.Tallied at ht ⊢
    rw [hlive, ht, Arena.elements_of_capture h.heap.arena]
  size := congrArg (·.live) h.heap.arena
  outOfMemory := by simp [h.heap.outOfMemory]
  limit := h.heap.limit
  statics := h.statics
  atomic := h.atomic
  precedes := h.precedes
  nodup := hk

end Carries

end Kernel

namespace Frame.Shows

variable {f f' : Frame} {own : List Ref} {stack : List Content}

theorem append {s : Kernel} (h : f.Shows own stack f') (hstack : ∀ c ∈ stack, c.IsKnown s own.length)
    (r : Ref) : f.Shows (own ++ [r]) stack f' :=
  { h with cells := h.cells.trans (Item.map_cell_append hstack r).symm }

end Frame.Shows

namespace Thread

inductive Shows (info : Thread) (own : List Ref) (stack : List Content) : Thread → Prop where
  | idle (h : info.topFrame? = none) : Shows info own stack info
  | top {f f' : Frame} (h : info.topFrame? = some f) (hf : f.Shows own stack f') :
    Shows info own stack (info.setTopFrame f')

theorem Shows.gid {info info' : Thread} {own : List Ref} {stack : List Content}
    (h : info.Shows own stack info') : info'.gid = info.gid := by
  cases h <;> rfl

theorem Shows.state {info info' : Thread} {own : List Ref} {stack : List Content}
    (h : info.Shows own stack info') : info'.state = info.state := by
  cases h <;> rfl

theorem Shows.append {info info' : Thread} {own : List Ref} {stack : List Content} {s : Kernel}
    (h : info.Shows own stack info') (hstack : ∀ c ∈ stack, c.IsKnown s own.length) (r : Ref) :
    info.Shows (own ++ [r]) stack info' := by
  cases h with
  | idle h => exact .idle h
  | top h hf => exact .top h (hf.append hstack r)

end Thread

namespace Bench

structure Shows (s : Kernel) (est : ThreadId → Estate) (n : Nat) (b : Bench) : Prop where
  carries : s.Carries b.kernel n
  sound : ∀ t, (est t).Sound s
  length : ∀ t, (b.own t).length = (est t).items.length
  items : ∀ t j item, (est t).items[j]? = some item → ∃ e,
    b.kernel.heap.get? (b.object t j) = some e ∧ item.Describes b.kernel (b.own t) e
  fresh : ∀ t j, j < (est t).items.length → s.heap.get? (b.object t j) = none
  distinct : ∀ t j u l, j < (est t).items.length → l < (est u).items.length →
    b.object t j = b.object u l → t = u ∧ j = l
  threads : b.kernel.threads.size = s.threads.size
  frames : ∀ t info, s.threads.get? t = some info → ∃ info', b.kernel.threads.get? t = some info' ∧
    info.Shows (b.own t) (est t).stack info'
  counts : ∀ t info, s.threads.get? t = some info → ∀ o, o.thread = info.gid →
    b.kernel.tally.count o = s.tally.count o + (est t).made o

variable {s k : Kernel} {est : ThreadId → Estate} {n : Nat} {b : Bench} {t : ThreadId}

theorem kernel_made (r : Ref) : (b.made t r k).kernel = k := rfl

theorem own_made_self (r : Ref) : (b.made t r k).own t = b.own t ++ [r] := Function.update_self ..

theorem own_made_of_ne {u : ThreadId} (hu : u ≠ t) (r : Ref) : (b.made t r k).own u = b.own u :=
  Function.update_of_ne hu ..

theorem object_made (r : Ref) (u : ThreadId) (j : Nat) :
    (b.made t r k).object u j = if u = t ∧ j = (b.own t).length then r else b.object u j := by
  unfold object
  by_cases hu : u = t
  · subst hu
    rw [own_made_self, List.getD_eq_getElem?_getD, List.getD_eq_getElem?_getD, List.getElem?_append]
    rcases Nat.lt_trichotomy j (b.own u).length with hj | hj | hj
    · rw [if_pos hj, if_neg fun h => Nat.ne_of_lt hj h.2]
    · simp [hj]
    · rw [if_neg (Nat.not_lt_of_gt hj), if_neg fun h => Nat.ne_of_gt hj h.2,
        List.getElem?_eq_none (Nat.le_of_lt hj), List.getElem?_eq_none (by simp; omega)]
  · rw [own_made_of_ne hu, if_neg fun h => hu h.1]

theorem apply_update {α : Type} (p : Estate → α) {E : Estate} (hE : p E = p (est t)) (u : ThreadId) :
    p (Function.update est t E u) = p (est u) := by
  by_cases hu : u = t
  · subst hu
    rw [Function.update_self, hE]
  · rw [Function.update_of_ne hu]

theorem sound_update {E : Estate} (hE : E.Sound s) (hest : ∀ u, (est u).Sound s) (u : ThreadId) :
    (Function.update est t E u).Sound s := by
  by_cases hu : u = t
  · subst hu
    rwa [Function.update_self]
  · rw [Function.update_of_ne hu]
    exact hest u

namespace Shows

section

variable {o : Origin} {sh : Shape}

theorem getElem?_add {u : ThreadId} {j : Nat} {item : Item}
    (hj : (Function.update est t ((est t).add s o sh) u).items[j]? = some item) :
    (est u).items[j]? = some item ∨ (u = t ∧ j = (est t).items.length ∧
      item = ⟨sh, ⟨o, s.tally.count o + (est t).made o + 1⟩, sh.blank⟩) := by
  by_cases hu : u = t
  · subst hu
    rw [Function.update_self] at hj
    rcases Nat.lt_or_ge j (est u).items.length with hlt | hge
    · exact .inl ((List.getElem?_append_left hlt).symm.trans hj)
    · obtain ⟨hlt, hitem⟩ := List.getElem?_eq_some_iff.mp
        ((List.getElem?_append_right hge).symm.trans hj)
      rw [List.length_singleton] at hlt
      refine .inr ⟨rfl, by omega, ?_⟩
      rw [← hitem, List.getElem_singleton]
  · rw [Function.update_of_ne hu] at hj
    exact .inl hj

theorem lt_length_add {u : ThreadId} {j : Nat}
    (hj : j < (Function.update est t ((est t).add s o sh) u).items.length) :
    j < (est u).items.length ∨ u = t ∧ j = (est t).items.length := by
  rcases getElem?_add (List.getElem?_eq_getElem hj) with hj | ⟨hu, hj, -⟩
  · exact .inl (List.getElem?_eq_some_iff.mp hj).1
  · exact .inr ⟨hu, hj⟩

end

variable (h : b.Shows s est n)

include h

theorem object_live {j : Nat} (hj : j < (est t).items.length) :
    ∃ e, b.kernel.heap.get? (b.object t j) = some e := by
  obtain ⟨e, he, -⟩ := h.items t j _ (List.getElem?_eq_getElem hj)
  exact ⟨e, he⟩

theorem object_made_of_lt (r : Ref) {u : ThreadId} {j : Nat} (hj : j < (est u).items.length) :
    (b.made t r k).object u j = b.object u j := by
  rw [object_made, if_neg]
  rintro ⟨rfl, rfl⟩
  rw [h.length] at hj
  exact Nat.lt_irrefl _ hj

theorem object_made_self (r : Ref) : (b.made t r k).object t (est t).items.length = r := by
  rw [object_made, if_pos ⟨rfl, (h.length t).symm⟩]

section

variable {o : Origin} {sh : Shape} {build : Ref → Element} {r : Ref}

theorem object_ne (hnew : b.kernel.heap.get? r = none) {u : ThreadId} {j : Nat}
    (hj : j < (est u).items.length) : b.object u j ≠ r := by
  rintro rfl
  obtain ⟨e, he⟩ := h.object_live hj
  rw [hnew] at he
  cases he

theorem distinct_made (hnew : b.kernel.heap.get? r = none) {u v : ThreadId} {j l : Nat}
    (hj : j < (Function.update est t ((est t).add s o sh) u).items.length)
    (hl : l < (Function.update est t ((est t).add s o sh) v).items.length)
    (heq : (b.made t r k).object u j = (b.made t r k).object v l) : u = v ∧ j = l := by
  rcases lt_length_add hj with hj' | ⟨rfl, rfl⟩
  · rw [h.object_made_of_lt r hj'] at heq
    rcases lt_length_add hl with hl' | ⟨rfl, rfl⟩
    · rw [h.object_made_of_lt r hl'] at heq
      exact h.distinct u j v l hj' hl' heq
    · rw [h.object_made_self] at heq
      exact absurd heq (h.object_ne hnew hj')
  · rw [h.object_made_self] at heq
    rcases lt_length_add hl with hl' | ⟨rfl, rfl⟩
    · rw [h.object_made_of_lt r hl'] at heq
      exact absurd heq.symm (h.object_ne hnew hl')
    · exact ⟨rfl, rfl⟩

theorem items_made (ha : b.kernel.Allocates o sh build k)
    (hcount : b.kernel.tally.count o = s.tally.count o + (est t).made o)
    (hlive : k.heap.get? r = some (build r)) {u : ThreadId} {j : Nat} {item : Item}
    (hj : (Function.update est t ((est t).add s o sh) u).items[j]? = some item) :
    ∃ e, k.heap.get? ((b.made t r k).object u j) = some e ∧
      item.Describes k ((b.made t r k).own u) e := by
  rcases getElem?_add hj with hold | ⟨rfl, rfl, rfl⟩
  · obtain ⟨e, he, hdescribes⟩ := h.items u j item hold
    have hmono := hdescribes.mono ha.precedes
    refine ⟨e, ?_, ?_⟩
    · rw [h.object_made_of_lt r (List.getElem?_eq_some_iff.mp hold).1, ha.heap]
      exact Heap.get?_place_of_some he
    · by_cases hu : u = t
      · subst hu
        have hsound := (h.sound u).items item (List.mem_of_getElem? hold)
        rw [← h.length] at hsound
        rw [own_made_self]
        exact hmono.append hsound r
      · rw [own_made_of_ne hu]
        exact hmono
  · rw [h.object_made_self, ← hcount]
    exact ⟨build r, hlive, ha.item r _⟩

theorem frames_made {u : ThreadId} {info : Thread} (hu : s.threads.get? u = some info) :
    ∃ info', b.kernel.threads.get? u = some info' ∧ info.Shows ((b.made t r k).own u)
      (Function.update est t ((est t).add s o sh) u).stack info' := by
  obtain ⟨info', hget, hshows⟩ := h.frames u info hu
  refine ⟨info', hget, ?_⟩
  have hstack : ((est t).add s o sh).stack = (est t).stack := rfl
  rw [apply_update (·.stack) hstack]
  by_cases hut : u = t
  · subst hut
    have hknown := (h.sound u).stack
    rw [← h.length] at hknown
    rw [own_made_self]
    exact hshows.append hknown r
  · rwa [own_made_of_ne hut]

theorem counts_made (hnames : s.threads.DistinctNames) {info : Thread}
    (ht : s.threads.get? t = some info) (ho : o.thread = info.gid)
    (ha : b.kernel.Allocates o sh build k) {u : ThreadId} {info' : Thread}
    (hu : s.threads.get? u = some info') {o' : Origin} (ho' : o'.thread = info'.gid) :
    k.tally.count o' = s.tally.count o' + (Function.update est t ((est t).add s o sh) u).made o' := by
  rw [ha.count]
  by_cases hut : u = t
  · subst hut
    rw [Function.update_self, Estate.made_add, ← Nat.add_assoc, ← h.counts u info' hu o' ho']
    split
    · next hoo => rw [hoo]
    · rfl
  · -- other threads have other names
    have hoo : o' ≠ o := by
      rintro rfl
      exact hut (hnames u t info' info hu ht (ho'.symm.trans ho))
    rw [Function.update_of_ne hut, if_neg hoo]
    exact h.counts u info' hu o' ho'

theorem allocate (hnames : s.threads.DistinctNames) {info : Thread} (ht : s.threads.get? t = some info)
    (ho : o.thread = info.gid) (ha : b.kernel.Allocates o sh build k)
    (hroom : s.heap.size + n + 1 ≤ Heap.maxSize) :
    (b.made t (.ofIndex b.kernel.heap.arena.nextFree) k).Shows s
      (Function.update est t ((est t).add s o sh)) (n + 1) := by
  have hroomy : b.kernel.heap.Roomy 1 := h.carries.roomy hroom
  have hnew := Heap.get?_eq_none_of_nextFree (Ref.index?_ofIndex hroomy.nextFree_lt)
  have hlive := hroomy.get?_place build
  rw [← ha.heap] at hlive
  constructor
  case carries => exact h.carries.allocate ha
  case sound => exact sound_update ((h.sound t).add o sh) h.sound
  case length =>
    intro u
    by_cases hu : u = t
    · subst hu
      rw [own_made_self, Function.update_self, Estate.add, List.length_append, List.length_append, h.length]
      rfl
    · rw [own_made_of_ne hu, Function.update_of_ne hu]
      exact h.length u
  case items => exact fun u j item => h.items_made ha (h.counts t info ht o ho) hlive
  case fresh =>
    intro u j hj
    rcases lt_length_add hj with hj | ⟨rfl, rfl⟩
    · rw [h.object_made_of_lt _ hj]
      exact h.fresh u j hj
    · rw [h.object_made_self, Option.eq_none_iff_forall_ne_some]
      intro e he
      rw [h.carries.get? he] at hnew
      cases hnew
  case distinct => exact fun u j v l => h.distinct_made hnew
  case threads => exact (congrArg Roster.size ha.threads).trans h.threads
  case frames =>
    intro u info' hu
    rw [kernel_made, ha.threads]
    exact h.frames_made hu
  case counts => exact fun u info' hu o' => h.counts_made hnames ht ho ha hu

end

omit h in
theorem getElem?_write {u : ThreadId} {i j slot : Nat} {cs : List Content} {item : Item}
    (hi : (Function.update est t ((est t).write j slot cs) u).items[i]? = some item) :
    ((est u).items[i]? = some item ∧ ¬ (u = t ∧ i = j)) ∨ (u = t ∧ i = j ∧ ∃ old,
      (est t).items[j]? = some old ∧ item = { old with contents := overwrite old.contents slot cs }) := by
  by_cases hu : u = t
  · subst hu
    rw [Function.update_self, Estate.write, List.getElem?_modify] at hi
    obtain ⟨old, hold, rfl⟩ := Option.map_eq_some_iff.mp hi
    by_cases hij : j = i
    · subst hij
      rw [if_pos rfl]
      exact .inr ⟨rfl, rfl, old, hold, rfl⟩
    · rw [if_neg hij]
      exact .inl ⟨hold, fun h => hij h.2.symm⟩
  · rw [Function.update_of_ne hu] at hi
    exact .inl ⟨hi, fun h => hu h.1⟩

theorem put {j slot : Nat} {cs : List Content} {item : Item} {e : Element} {f : Fields}
    (hitem : (est t).items[j]? = some item) (he : b.kernel.heap.get? (b.object t j) = some e)
    (hdescribes : item.Describes b.kernel (b.own t) e)
    (hf : f.cells = (overwrite item.contents slot cs).map (·.cell (b.own t)))
    (hsound : ((est t).write j slot cs).Sound s) :
    { b with kernel := { b.kernel with
        heap := b.kernel.heap.put (b.object t j) { e with fields := f } } }.Shows s
      (Function.update est t ((est t).write j slot cs)) n := by
  have hj : j < (est t).items.length := (List.getElem?_eq_some_iff.mp hitem).1
  have hlength : ∀ u, (Function.update est t ((est t).write j slot cs) u).items.length =
      (est u).items.length :=
    apply_update (·.items.length) (Estate.length_write cs)
  constructor
  case carries => exact h.carries.put (h.fresh t j hj) _
  case sound => exact sound_update hsound h.sound
  case length => exact fun u => (h.length u).trans (hlength u).symm
  case items =>
    intro u i item' hi
    rcases getElem?_write hi with ⟨hold, hne⟩ | ⟨rfl, rfl, old, hold, rfl⟩
    · obtain ⟨e', he', hdescribes'⟩ := h.items u i item' hold
      refine ⟨e', ?_, hdescribes'.key, hdescribes'.shape, hdescribes'.cells⟩
      have hother : b.object t j ≠ b.object u i := by
        intro heq
        obtain ⟨rfl, rfl⟩ := h.distinct t j u i hj (List.getElem?_eq_some_iff.mp hold).1 heq
        exact hne ⟨rfl, rfl⟩
      exact (Heap.get?_put ..).trans ((if_neg hother).trans he')
    · rw [hitem] at hold
      cases hold
      refine ⟨{ e with fields := f }, ?_, hdescribes.key, hdescribes.shape, hf⟩
      have hget := b.kernel.heap.get?_put (b.object u i) (b.object u i) { e with fields := f }
      rwa [if_pos rfl, he] at hget
  case fresh =>
    intro u i hi
    rw [hlength] at hi
    exact h.fresh u i hi
  case distinct =>
    intro u i v l hi hl
    rw [hlength] at hi hl
    exact h.distinct u i v l hi hl
  case threads => exact h.threads
  case frames =>
    intro u info hu
    have hstack : ((est t).write j slot cs).stack = (est t).stack := rfl
    rw [apply_update (·.stack) hstack]
    exact h.frames u info hu
  case counts =>
    intro u info hu o ho
    rw [apply_update (·.made o) (Estate.made_write cs o)]
    exact h.counts u info hu o ho

theorem setTop {info : Thread} {f f' : Frame} (ht : s.threads.get? t = some info)
    (hf : info.topFrame? = some f) {stack : List Content} (hf' : f.Shows (b.own t) stack f')
    (hknown : ∀ c ∈ stack, c.IsKnown s (est t).items.length) :
    { b with kernel := { b.kernel with
        threads := b.kernel.threads.put t (info.setTopFrame f') } }.Shows s
      (Function.update est t { est t with stack }) n := by
  have hitems : ∀ u, (Function.update est t { est t with stack } u).items = (est u).items :=
    apply_update (·.items) rfl
  constructor
  case carries => exact h.carries.onThreads _
  case sound => exact sound_update ⟨(h.sound t).items, hknown⟩ h.sound
  case length => exact fun u => (h.length u).trans (congrArg List.length (hitems u).symm)
  case items =>
    intro u j item hj
    rw [hitems] at hj
    obtain ⟨e, he, hdescribes⟩ := h.items u j item hj
    exact ⟨e, he, hdescribes.key, hdescribes.shape, hdescribes.cells⟩
  case fresh =>
    intro u j hj
    rw [hitems] at hj
    exact h.fresh u j hj
  case distinct =>
    intro u j v l hj hl
    rw [hitems] at hj hl
    exact h.distinct u j v l hj hl
  case threads => exact (Array.size_setIfInBounds ..).trans h.threads
  case frames =>
    intro u info' hu
    obtain ⟨info'', hget, hshows⟩ := h.frames u info' hu
    have hput := b.kernel.threads.get?_put t u (info.setTopFrame f')
    by_cases hut : u = t
    · subst hut
      rw [ht] at hu
      cases hu
      rw [if_pos rfl, hget] at hput
      rw [Function.update_self]
      exact ⟨_, hput, .top hf hf'⟩
    · rw [if_neg (Ne.symm hut), hget] at hput
      rw [Function.update_of_ne hut]
      exact ⟨info'', hput, hshows⟩
  case counts =>
    intro u info' hu o ho
    have hmade : Estate.made { est t with stack } o = (est t).made o := rfl
    rw [apply_update (·.made o) hmade]
    exact h.counts u info' hu o ho

theorem onTop {info : Thread} {f : Frame} (ht : s.threads.get? t = some info)
    (hf : info.topFrame? = some f) {g : Frame → Except Fault Frame} {stack : List Content}
    (hg : ∀ f₀, f.Shows (b.own t) (est t).stack f₀ → ∃ f', g f₀ = .ok f' ∧ f.Shows (b.own t) stack f')
    (hknown : ∀ c ∈ stack, c.IsKnown s (est t).items.length) :
    ∃ b', b.onTop t g = .ok b' ∧ b'.Shows s (Function.update est t { est t with stack }) n := by
  obtain ⟨info', hinfo', hshows⟩ := h.frames t info ht
  cases hshows with
  | idle hnone =>
    rw [hf] at hnone
    cases hnone
  | @top f₁ f₀ hf₁ hf₀ =>
    rw [hf] at hf₁
    cases hf₁
    obtain ⟨f', hf', hshows⟩ := hg f₀ hf₀
    have htop : (info.setTopFrame f₀).topFrame? = some f₀ := by
      simp [Thread.topFrame?, Thread.setTopFrame]
    have hset : b.kernel.perform (.setFrame t f') =
        .ok { b.kernel with threads := b.kernel.threads.put t (info.setTopFrame f') } := by
      refine Kernel.updateThread_eq_ok.mpr ⟨info.setTopFrame f₀, hinfo', ?_⟩
      simp [Thread.setTopFrame]
    refine ⟨_, bind_eq_ok.mpr ⟨_, Kernel.get_eq_ok.mpr hinfo', ?_⟩, h.setTop ht hf hshows hknown⟩
    rw [htop]
    exact bind_eq_ok.mpr ⟨f', hf', bind_eq_ok.mpr ⟨_, hset, rfl⟩⟩

end Shows

end Bench

end Interleave
