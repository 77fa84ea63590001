import Interleave.Proofs.Reference.Safety

/-!
Who is in the slot of the object of a thread. As long as the thread has not terminated, its own object is.
A thread that has terminated keeps the reference, but it does not keep the object: a collection may free
the slot, and then any new object may move in. No operation brings the own object back.
-/

namespace Interleave

namespace Heap

variable {h : Heap}

theorem nameOf?_eq_some {o : Ref} {g : GlobalId} :
    h.nameOf? o = some g ↔ ∃ e, h.get? o = some e ∧ e.gid = g :=
  Option.map_eq_some_iff

theorem nameOf?_put {o : Ref} {e e' : Element} (he : h.get? o = some e) (hgid : e'.gid = e.gid) :
    (h.put o e').nameOf? = h.nameOf? := by
  funext o'
  unfold nameOf?
  rw [get?_put]
  split
  · next hoo =>
    subst hoo
    rw [he]
    exact congrArg some hgid
  · rfl

theorem nameOf?_place (h : Heap) (build : Ref → Element) (o : Ref) :
    (h.place build).2.nameOf? o =
      if o.index? = some h.arena.nextFree then some (build o).gid else h.nameOf? o := by
  unfold nameOf?
  rw [get?_place]
  split <;> rfl

theorem nameOf?_place_of_some (build : Ref → Element) {o : Ref} {g : GlobalId} (hg : h.nameOf? o = some g) :
    (h.place build).2.nameOf? o = some g := by
  obtain ⟨e, he, rfl⟩ := nameOf?_eq_some.mp hg
  exact nameOf?_eq_some.mpr ⟨e, get?_place_of_some he, rfl⟩

theorem nameOf?_setOutOfMemory (h : Heap) (flag : Bool) : (h.setOutOfMemory flag).nameOf? = h.nameOf? := by
  funext o
  unfold nameOf? get?
  rw [arena_setOutOfMemory]

theorem nameOf?_of_collect {roots : Roots} {c : Collection} (hc : h.collect roots = .ok c) {o : Ref}
    {g : GlobalId} (hg : c.heap.nameOf? o = some g) : h.nameOf? o = some g := by
  obtain ⟨e', he', rfl⟩ := nameOf?_eq_some.mp hg
  obtain ⟨i, hi, he'⟩ := get?_eq_some.mp he'
  obtain ⟨e, he, hkept⟩ := (collect_spec hc).1.kept i e' he'
  exact nameOf?_eq_some.mpr ⟨e, get?_eq_some.mpr ⟨i, hi, he⟩, hkept.gid.symm⟩

end Heap

def Op.HasRoom (k : Kernel) (op : Op) : Prop := op.allocates = true → k.heap.size + 2 ≤ Heap.maxSize

instance (k : Kernel) (op : Op) : Decidable (op.HasRoom k) :=
  inferInstanceAs (Decidable (op.allocates = true → k.heap.size + 2 ≤ Heap.maxSize))

namespace Kernel

variable {k k' k'' : Kernel} {op : Op}

structure Inherits (k k' : Kernel) : Prop where
  knows : ∀ g, k.Knows g → k'.Knows g
  names : ∀ o g, k'.heap.nameOf? o = some g → k.Knows g → k.heap.nameOf? o = some g

namespace Inherits

theorem of_eq (hknows : ∀ g, k.Knows g → k'.Knows g) (hnames : k'.heap.nameOf? = k.heap.nameOf?) :
    k.Inherits k' :=
  ⟨hknows, fun _ _ hg _ => hnames ▸ hg⟩

theorem trans (h : k.Inherits k') (h' : k'.Inherits k'') : k.Inherits k'' where
  knows := fun g hg => h'.knows g (h.knows g hg)
  names := fun o g hg hknown => h.names o g (h'.names o g hg (h.knows g hknown)) hknown

theorem place {build : Ref → Element} {gid : GlobalId} (hknows : ∀ g, k.Knows g → k'.Knows g)
    (hheap : k'.heap = (k.heap.place build).2) (hbuild : ∀ r, (build r).gid = gid)
    (hnew : ¬ k.Knows gid) : k.Inherits k' := by
  refine ⟨hknows, ?_⟩
  intro o g hg hknown
  rw [hheap, Heap.nameOf?_place] at hg
  split at hg
  · cases hg
    rw [hbuild] at hknown
    exact absurd hknown hnew
  · exact hg

theorem stir {calm : Prop} (h : k.Stir calm k') : k.Inherits k' := by
  cases h with
  | monitor f he => exact of_eq (fun _ => id) (Heap.nameOf?_put he rfl)
  | _ => exact of_eq (fun _ => id) rfl

theorem grow {proper : Prop} (h : Grow proper k k') : k.Inherits k' := by
  cases h with
  | name h =>
    have hknows := (knows_newGlobalId h).2.2
    obtain ⟨thread, -, -, rfl⟩ := newGlobalId_eq_ok.mp h
    exact of_eq hknows rfl
  | object h hbuild =>
    obtain ⟨-, hnew, hknows⟩ := knows_newGlobalId h
    obtain ⟨thread, -, -, rfl⟩ := newGlobalId_eq_ok.mp h
    exact place hknows rfl hbuild.gid hnew
  | thread h hbuild =>
    obtain ⟨-, hnew, hknows⟩ := knows_newGlobalId h
    obtain ⟨thread, -, -, rfl⟩ := newGlobalId_eq_ok.mp h
    exact place hknows rfl hbuild.gid hnew
  | load hnew _ hbuild =>
    refine place ?_ rfl hbuild.gid (knows_ofClass hnew)
    intro g hg
    refine hg.mono (k.pool.prefix_intern _) (fun _ => Nat.le_refl _) fun d hd => ?_
    rw [Statics.contains_addClass, hd]
    rfl
  | write he hkept => exact of_eq (fun _ => id) (Heap.nameOf?_put he hkept.gid)
  | flag flag => exact of_eq (fun _ => id) (k.heap.nameOf?_setOutOfMemory flag)
  | writeStatic =>
    refine of_eq (fun g hg => ?_) rfl
    refine hg.mono List.prefix_rfl (fun _ => Nat.le_refl _) fun c hc => ?_
    rwa [Statics.contains_put]
  | collect h => exact ⟨fun _ => id, fun _ _ hg _ => Heap.nameOf?_of_collect h hg⟩
  | _ => exact of_eq (fun _ => id) rfl

theorem stirs {calm : Prop} (h : k.Stirs calm k') : k.Inherits k' := by
  induction h with
  | refl => exact of_eq (fun _ => id) rfl
  | tail _ h ih => exact ih.trans (stir h)

theorem grows {proper : Prop} (h : Grows proper k k') : k.Inherits k' := by
  induction h with
  | refl => exact of_eq (fun _ => id) rfl
  | tail _ h ih => exact ih.trans (grow h)

theorem perform (h : k.perform op = .ok k') : k.Inherits k' := by
  cases hs : op.stirs with
  | true => exact stirs (perform_stirs hs False.elim h)
  | false => exact grows (perform_grows hs h False.elim False.elim)

end Inherits

def Houses (k k' : Kernel) : Prop := ∀ o g, k.heap.nameOf? o = some g → k'.heap.nameOf? o = some g

structure Retains (k k' : Kernel) : Prop where
  houses : k.Houses k'
  threads : k'.threads = k.threads

namespace Retains

theorem of_eq (hnames : k'.heap.nameOf? = k.heap.nameOf?) (hthreads : k'.threads = k.threads) :
    k.Retains k' :=
  ⟨fun _ _ hg => hnames ▸ hg, hthreads⟩

theorem refl (k : Kernel) : k.Retains k := of_eq rfl rfl

theorem trans (h : k.Retains k') (h' : k'.Retains k'') : k.Retains k'' :=
  ⟨fun o g hg => h'.houses o g (h.houses o g hg), h'.threads.trans h.threads⟩

theorem place (build : Ref → Element) (hheap : k'.heap = (k.heap.place build).2)
    (hthreads : k'.threads = k.threads) : k.Retains k' := by
  refine ⟨fun o g hg => ?_, hthreads⟩
  rw [hheap]
  exact Heap.nameOf?_place_of_some build hg

theorem updateFields {o : Ref} {f : Fields → Except Fault Fields}
    (h : k.updateElement o (·.updateFields f) = .ok k') : k.Retains k' := by
  obtain ⟨e, e', he, he', rfl⟩ := updateElement_eq_ok.mp h
  obtain ⟨fields, -, he'⟩ := bind_eq_ok.mp he'
  cases he'
  exact of_eq (Heap.nameOf?_put he rfl) rfl

theorem part {proper : Prop} (hcollect : op ≠ .collect)
    (hcreate : ∀ name creator site, op ≠ .createThread name creator site) (h : Part op proper k k') :
    k.Retains k' := by
  cases h with
  | name h =>
    obtain ⟨thread, -, -, rfl⟩ := newGlobalId_eq_ok.mp h
    exact of_eq rfl rfl
  | object h =>
    obtain ⟨thread, -, -, rfl⟩ := newGlobalId_eq_ok.mp h
    exact place _ rfl rfl
  | thread heq => exact absurd heq (hcreate _ _ _)
  | load => exact place _ rfl rfl
  | write _ he hkept => exact of_eq (Heap.nameOf?_put he hkept.gid) rfl
  | flag flag => exact of_eq (k.heap.nameOf?_setOutOfMemory flag) rfl
  | collect heq => exact absurd heq hcollect
  | _ => exact of_eq rfl rfl

theorem parts {proper : Prop} (hcollect : op ≠ .collect)
    (hcreate : ∀ name creator site, op ≠ .createThread name creator site) (h : Parts op proper k k') :
    k.Retains k' := by
  induction h with
  | refl => exact refl k
  | tail _ h ih => exact ih.trans (part hcollect hcreate h)

theorem grow (hop : op.stirs = false) (hcollect : op ≠ .collect)
    (hcreate : ∀ name creator site, op ≠ .createThread name creator site) (h : k.perform op = .ok k') :
    k.Retains k' :=
  parts hcollect hcreate (perform_parts hop h False.elim False.elim)

end Retains

theorem createThread_spec {name : String} {creator : Option ThreadId} {site : Option Site} {t : ThreadId}
    (hroom : k.heap.Roomy 1) (h : k.createThread name creator site = .ok (t, k')) :
    k.Houses k' ∧ ∃ info epoch, k'.threads = { threads := k.threads.threads.push info, epoch } ∧
      k'.heap.nameOf? info.object = some info.gid := by
  obtain @⟨gid, _, k₂, k₃, desc, info, _, h₁, -, hk₂, hobject, hname, -, hwritten, hadd⟩ :=
    spawns_createThread h
  obtain ⟨thread, -, -, rfl⟩ := newGlobalId_eq_ok.mp h₁
  have hplaces : k.Places
      (fun ref => .fresh ref gid desc.id .object (.ofMask desc.instances.refMask) creator) k₂ := by
    rw [hk₂]
    exact ⟨rfl, rfl, rfl, fun hcore => hcore.trans (k.classes.prefix_register .threadClass)⟩
  have hown : k₂.heap.nameOf? info.object = some gid := by
    rw [hobject]
    exact Heap.nameOf?_eq_some.mpr ⟨_, hplaces.get? hroom, rfl⟩
  have hk₃ : k₂.Retains k₃ := by
    obtain rfl | ⟨slot, h₃⟩ := hwritten
    · exact .refl _
    · exact .updateFields h₃
  obtain ⟨-, rfl⟩ := Roster.add_eq_ok.mp hadd
  have hboth := (Retains.place _ hplaces.heap hplaces.threads).trans hk₃
  refine ⟨hboth.houses, info, _, congrArg (Roster.mk · _) ?_, ?_⟩
  · rw [hboth.threads]
  · rw [hname]
    exact hk₃.houses _ _ hown

theorem Stirs.gid {calm : Prop} (h : k.Stirs calm k') {t : ThreadId} {info' : Thread}
    (ht : k'.threads.get? t = some info') : ∃ info, k.threads.get? t = some info ∧ info'.gid = info.gid := by
  induction h generalizing info' with
  | refl => exact ⟨info', ht, rfl⟩
  | tail _ h ih =>
    cases h with
    | @thread u info f hinfo hgid =>
      rw [Roster.get?_put] at ht
      split at ht
      · next hut =>
        subst hut
        rw [hinfo] at ht
        cases ht
        obtain ⟨info₀, hinfo₀, hgid₀⟩ := ih hinfo
        exact ⟨info₀, hinfo₀, hgid.trans hgid₀⟩
      · exact ih ht
    | _ => exact ih ht

theorem Stirs.nameOf? {calm : Prop} (h : k.Stirs calm k') : k'.heap.nameOf? = k.heap.nameOf? := by
  induction h with
  | refl => rfl
  | tail _ h ih =>
    cases h with
    | monitor f he =>
      rw [← ih]
      exact Heap.nameOf?_put he rfl
    | _ => exact ih

/-- What an operation can make of the name in the slot of the object of a thread. -/
inductive Lodges (k : Kernel) (op : Op) (info : Thread) : Option GlobalId → Prop where
  | stays : Lodges k op info (k.heap.nameOf? info.object)
  | leaves (hop : op = .collect) (hended : info.state = .terminated) : Lodges k op info none
  | enters {g : GlobalId} (hfree : k.heap.nameOf? info.object = none) (hnew : ¬ k.Knows g)
    (hne : g ≠ info.gid) : Lodges k op info (some g)

theorem Lodges.houses {info : Thread} (hhouses : k.Houses k') (hinherits : k.Inherits k')
    (hknown : k.Knows info.gid) : k.Lodges op info (k'.heap.nameOf? info.object) := by
  cases hname : k.heap.nameOf? info.object with
  | some g =>
    rw [hhouses _ g hname, ← hname]
    exact .stays
  | none =>
    cases hname' : k'.heap.nameOf? info.object with
    | none =>
      rw [← hname]
      exact .stays
    | some g =>
      have hnew : ¬ k.Knows g := by
        intro hg
        rw [hinherits.names _ g hname' hg] at hname
        cases hname
      exact .enters hname hnew fun heq => hnew (heq ▸ hknown)

theorem Lodges.collect {c : Collection} {t : ThreadId} {info : Thread}
    (h : k.heap.collect k.roots = .ok c) (ht : k.threads.get? t = some info) :
    k.Lodges .collect info (c.heap.nameOf? info.object) := by
  cases hname' : c.heap.nameOf? info.object with
  | some g =>
    rw [← Heap.nameOf?_of_collect h hname']
    exact .stays
  | none =>
    cases hname : k.heap.nameOf? info.object with
    | none =>
      rw [← hname]
      exact .stays
    | some g =>
      refine .leaves rfl ?_
      by_contra hstate
      obtain ⟨e, he, -⟩ := Heap.nameOf?_eq_some.mp hname
      have hnull : info.object.isNull = false := isNull_of_monitor? (monitor?_of_get? he)
      have hroot : (info.id, info.object) ∈ k.roots.threads :=
        mem_threadRoots.mpr ⟨info, Roster.mem_toList_of_get? ht, hstate, rfl, hnull, .inl rfl⟩
      obtain ⟨e', he'⟩ := Heap.contains_collect h hroot he
      rw [Heap.nameOf?_eq_some.mpr ⟨e', he', rfl⟩] at hname'
      cases hname'

theorem perform_lodges {ok : Kernel → Op → Prop} (hk : Built ok k) (hroom : op.HasRoom k)
    (h : k.perform op = .ok k') {t : ThreadId} {info' : Thread} (ht : k'.threads.get? t = some info') :
    (k.threads.get? t = none ∧ k'.heap.nameOf? info'.object = some info'.gid) ∨
      ∃ info, k.threads.get? t = some info ∧ info'.object = info.object ∧ info'.gid = info.gid ∧
        k.Lodges op info (k'.heap.nameOf? info.object) := by
  have hold : ∀ {info : Thread}, k.Houses k' → k.threads.get? t = some info →
      k.Lodges op info (k'.heap.nameOf? info.object) := fun hhouses ht =>
    .houses hhouses (.perform h) ((Named.built hk).threads t _ ht)
  cases hs : op.stirs with
  | true =>
    have hstirs := perform_stirs hs False.elim h
    have hturns := turns_of_perform (Owned.built hk) (fun _ _ => hk.tidy.lockObject_live) hs h
    obtain ⟨info, hinfo, hadds⟩ := (hturns.turn h).adds (p := fun _ => True) (fun _ _ => trivial)
      (fun _ _ _ _ _ _ => trivial) ht
    obtain ⟨info₀, hinfo₀, hgid⟩ := hstirs.gid ht
    rw [hinfo] at hinfo₀
    cases hinfo₀
    exact .inr ⟨info, hinfo, hadds.object, hgid, hold (fun _ _ hg => hstirs.nameOf? ▸ hg) hinfo⟩
  | false =>
    by_cases hcollect : op = .collect
    · subst hcollect
      obtain ⟨stats, h⟩ := snd_eq_ok.mp h
      obtain ⟨c, hc, h⟩ := bind_eq_ok.mp h
      cases h
      exact .inr ⟨info', ht, rfl, rfl, .collect hc ht⟩
    · by_cases hcreate : ∃ name creator site, op = .createThread name creator site
      · obtain ⟨name, creator, site, rfl⟩ := hcreate
        obtain ⟨u, hu⟩ := snd_eq_ok.mp h
        have hroomy := (hk.sited.roomy (hroom rfl)).mono (Nat.le_succ 1)
        obtain ⟨hhouses, info, epoch, hthreads, hown⟩ := createThread_spec hroomy hu
        rw [hthreads, Roster.get?_push] at ht
        split at ht
        · next hnew =>
          cases ht
          subst hnew
          exact .inl ⟨Array.getElem?_eq_none (Nat.le_refl _), hown⟩
        · exact .inr ⟨info', ht, rfl, rfl, hold hhouses ht⟩
      · have hretains : k.Retains k' :=
          .grow hs hcollect (fun name creator site hop => hcreate ⟨name, creator, site, hop⟩) h
        rw [hretains.threads] at ht
        exact .inr ⟨info', ht, rfl, rfl, hold hretains.houses ht⟩

theorem Built.hasEnded_perform (hk : Built Op.OnOwnTurn k) (hop : op.OnOwnTurn k)
    (h : k.perform op = .ok k') {t : ThreadId} (ht : k.HasEnded t) : k'.HasEnded t := by
  refine (hasEnded_perform_iff (Owned.built hk) hk.tidy hop.1 h ht).mpr fun hroused => ?_
  obtain ⟨info, hinfo, hstate⟩ := ht
  obtain ⟨o, hwaits⟩ := waits_of_mem_roused hroused
  exact (Attentive.built hk t info hinfo).ended hstate o hwaits

def Lodged (k : Kernel) : Prop :=
  ∀ t info, k.threads.get? t = some info → info.state ≠ .terminated →
    k.heap.nameOf? info.object = some info.gid

theorem Lodged.perform (hlodged : k.Lodged) (hk : Built Op.OnOwnTurn k) (hop : op.OnOwnTurn k)
    (hroom : op.HasRoom k) (h : k.perform op = .ok k') : k'.Lodged := by
  intro t info' ht' hstate'
  rcases perform_lodges hk hroom h ht' with ⟨-, hown⟩ | ⟨info, ht, hobject, hgid, hlodges⟩
  · exact hown
  · have hstate : info.state ≠ .terminated := by
      intro hended
      exact hstate' ((hasEnded_iff_of_get? ht').mp (hk.hasEnded_perform hop h ⟨info, ht, hended⟩))
    have hown := hlodged t info ht hstate
    rw [hobject, hgid]
    generalize k'.heap.nameOf? info.object = name at hlodges
    cases hlodges with
    | stays => exact hown
    | leaves _ hended => exact absurd hended hstate
    | enters hfree =>
      rw [hown] at hfree
      cases hfree

theorem Lodged.built {ok : Kernel → Op → Prop} (hroom : ∀ k op, ok k op → op.HasRoom k)
    (hturn : ∀ k op, ok k op → op.OnOwnTurn k) (h : Built ok k) : k.Lodged := by
  induction h with
  | start limit observers =>
    intro t info ht
    cases ht
  | perform hk hop h ih => exact ih.perform (hk.mono hturn) (hturn _ _ hop) (hroom _ _ hop) h
  | adopt _ _ _ ih _ => exact ih
  | restore _ _ _ _ ihother => exact ihother

/-- If threads act and end on their own turn only, then whoever has not terminated has its own object, and
so the encoding writes the name of the thread. An operation leaves in the slot what is there. But a
collection may free the slot of a thread that has terminated, and then an object with a new name, which is
never that of the thread, may take it. -/
theorem Built.tenancy {ok : Kernel → Op → Prop} (hroom : ∀ k op, ok k op → op.HasRoom k)
    (hk : Built ok k) :
    ((∀ k op, ok k op → op.OnOwnTurn k) → ∀ t info, k.threads.get? t = some info →
        info.state ≠ .terminated →
          k.heap.nameOf? info.object = some info.gid ∧ k.heap.refWord info.object = wordOf info.gid) ∧
      ∀ op k', ok k op → k.perform op = .ok k' → ∀ t info', k'.threads.get? t = some info' →
        (k.threads.get? t = none ∧ k'.heap.nameOf? info'.object = some info'.gid) ∨
          ∃ info, k.threads.get? t = some info ∧ info'.object = info.object ∧ info'.gid = info.gid ∧
            k.Lodges op info (k'.heap.nameOf? info.object) := by
  constructor
  · intro hturn t info ht hstate
    have hown := Lodged.built hroom hturn hk t info ht hstate
    refine ⟨hown, ?_⟩
    rw [Heap.refWord_eq, hown]
    rfl
  · exact fun op k' hop h t info' ht' => perform_lodges hk (hroom k op hop) h ht'

def sublet : Kernel :=
  (withLimit none).performAll
    [.createThread "a" none none, .start 0 (.fresh 0 1), .createThread "b" none none,
      .start 1 (.fresh 0 1), .terminate 0, .collect, .newArray .int 1 none none]

theorem sublet_built : Built (fun k op => op.OnOwnTurn k ∧ op.HasRoom k) sublet :=
  (Built.start none {}).performAllowed (by decide +kernel)

theorem tenancy_sublet :
    Built (fun k op => op.OnOwnTurn k ∧ op.HasRoom k) sublet ∧
      (sublet.threads.get? 1).map (·.state) = some .running ∧
      ∀ info ∈ sublet.threads.get? 1, sublet.heap.nameOf? info.object = some info.gid := by
  refine ⟨sublet_built, by decide +kernel, ?_⟩
  intro info hinfo
  have hstate : ∀ info ∈ sublet.threads.get? 1, info.state ≠ .terminated := by decide +kernel
  exact ((sublet_built.tenancy fun _ _ hop => hop.2).1 (fun _ _ hop => hop.1) 1 info hinfo
    (hstate info hinfo)).1

theorem other_sublet :
    Built (fun k op => op.OnOwnTurn k ∧ op.HasRoom k) sublet ∧
      ∃ info ∈ sublet.threads.get? 0, ∃ e ∈ sublet.heap.get? info.object, e.gid ≠ info.gid ∧
        sublet.heap.refWord info.object ≠ wordOf info.gid ∧ sublet.heap.refWord info.object ≠ -1 :=
  ⟨sublet_built, by decide +kernel⟩

end Kernel

end Interleave
