import Interleave.Proofs.Kernel.Grow

/-!
Names. Every object and every thread carries a name whose key has been handed out on the path to the
state, and a key is handed out once on a path. Hence no two live objects have the same name, and no two
threads.
-/

namespace Interleave

theorem IdPool.key?_intern (p : IdPool) (key : IdKey) :
    (p.intern key).2.key? (p.intern key).1 = some key := by
  unfold intern key?
  split
  · next i hi =>
    rw [Array.findIdx?_eq_some_iff_getElem] at hi
    obtain ⟨hlt, hkey, _⟩ := hi
    rw [Array.getElem?_eq_getElem hlt]
    exact congrArg some (by simpa using hkey)
  · simp [size]

theorem IdPool.prefix_intern (p : IdPool) (key : IdKey) :
    p.keys.toList <+: (p.intern key).2.keys.toList := by
  unfold intern
  split
  · exact List.prefix_rfl
  · rw [Array.toList_push]
    exact List.prefix_append _ _

theorem IdPool.key?_of_prefix {p p' : IdPool} (h : p.keys.toList <+: p'.keys.toList) {gid : GlobalId}
    {key : IdKey} (hkey : p.key? gid = some key) : p'.key? gid = some key := by
  unfold key? at *
  rw [← Array.getElem?_toList] at hkey ⊢
  obtain ⟨l, hl⟩ := h
  rw [← hl, List.getElem?_append_left (List.getElem?_eq_some_iff.mp hkey).1]
  exact hkey

theorem lookup_filter_ne {α β : Type} [BEq α] [LawfulBEq α] {a b : α} (h : b ≠ a)
    (l : List (α × β)) : (l.filter (·.1 != a)).lookup b = l.lookup b := by
  induction l with
  | nil => rfl
  | cons p l ih =>
    obtain ⟨x, y⟩ := p
    by_cases hx : x = a
    · have hb : (b == x) = false := by
        rw [hx]
        exact beq_false_of_ne h
      rw [List.filter_cons_of_neg (by simp [hx]), List.lookup_cons, hb, ih]
    · rw [List.filter_cons_of_pos (by simpa using hx), List.lookup_cons, List.lookup_cons, ih]

theorem Tally.count_bump (t : Tally) (o o' : Origin) :
    (t.bump o).count o' = if o' = o then t.count o + 1 else t.count o' := by
  by_cases ho : o' = o
  · simp [ho, bump, count]
  · have hne : (o' == o) = false := beq_false_of_ne ho
    simp only [bump, count, List.lookup_cons, hne, lookup_filter_ne ho, if_neg ho]

theorem Statics.contains_put (s : Statics) (c d : ClassId) (e : Element) :
    (s.put c e).contains d = s.contains d := by
  exact s.arena.contains_replace c d e

theorem Statics.contains_addClass (s : Statics) (desc : ClassDescriptor) (gid : GlobalId)
    (classObject : Ref) (c : ClassId) :
    (s.addClass desc gid classObject).contains c = (s.contains c || decide (desc.id = c)) := by
  unfold addClass
  split
  · next hid =>
    by_cases hc : desc.id = c
    · subst hc
      simp [hid]
    · simp [hc]
  · exact Arena.contains_insert ..

def Heap.DistinctNames (h : Heap) : Prop :=
  ∀ i j e e', h.arena.get? i = some e → h.arena.get? j = some e' → e.gid = e'.gid → i = j

def Roster.DistinctNames (r : Roster) : Prop :=
  ∀ t u info info', r.get? t = some info → r.get? u = some info' → info.gid = info'.gid → t = u

namespace Kernel

def Counts (k : Kernel) (key : IdKey) : Prop :=
  (1 ≤ key.count ∧ key.count ≤ k.tally.count key.origin) ∨
    ∃ c, key = .ofClass c ∧ k.statics.contains c = true

def Knows (k : Kernel) (gid : GlobalId) : Prop := ∃ key, k.pool.key? gid = some key ∧ k.Counts key

structure Named (k : Kernel) : Prop where
  ids : k.classes.Numbered
  objects : ∀ i e, k.heap.arena.get? i = some e → k.Knows e.gid
  threads : ∀ t info, k.threads.get? t = some info → k.Knows info.gid
  distinctObjects : k.heap.DistinctNames
  distinctThreads : k.threads.DistinctNames

theorem Knows.mono {k k' : Kernel} {gid : GlobalId} (h : k.Knows gid)
    (hpool : k.pool.keys.toList <+: k'.pool.keys.toList)
    (htally : ∀ o, k.tally.count o ≤ k'.tally.count o)
    (hstatics : ∀ c, k.statics.contains c = true → k'.statics.contains c = true) : k'.Knows gid := by
  obtain ⟨key, hkey, hcounts⟩ := h
  refine ⟨key, IdPool.key?_of_prefix hpool hkey, ?_⟩
  rcases hcounts with ⟨hpos, hle⟩ | ⟨c, hc, hloaded⟩
  · exact .inl ⟨hpos, Nat.le_trans hle (htally _)⟩
  · exact .inr ⟨c, hc, hstatics c hloaded⟩

theorem ofClass_inj {c d : ClassId} (h : IdKey.ofClass c = .ofClass d) : c = d := by
  have hinsn := congrArg (·.origin.insn) h
  exact Int.ofNat.inj hinsn

variable {k k' : Kernel}

theorem knows_newGlobalId {creator : Option ThreadId} {site : Option Site} {gid : GlobalId}
    (h : k.newGlobalId creator site = .ok (gid, k')) :
    k'.Knows gid ∧ ¬ k.Knows gid ∧ ∀ g, k.Knows g → k'.Knows g := by
  obtain ⟨thread, _, rfl, rfl⟩ := newGlobalId_eq_ok.mp h
  generalize Origin.ofCreation thread site = o
  unfold Tally.next
  have hkey := k.pool.key?_intern ⟨o, (k.tally.bump o).count o⟩
  have hprefix := k.pool.prefix_intern ⟨o, (k.tally.bump o).count o⟩
  rw [Tally.count_bump, if_pos rfl] at hkey hprefix
  dsimp only
  rw [Tally.count_bump, if_pos rfl]
  refine ⟨⟨_, hkey, .inl ⟨by simp, ?_⟩⟩, ?_, ?_⟩
  · simp [Tally.count_bump]
  · intro ⟨key, hold, hcounts⟩
    rw [IdPool.key?_of_prefix hprefix hold] at hkey
    cases hkey
    rcases hcounts with ⟨_, hle⟩ | ⟨c, hc, _⟩
    · exact Nat.not_succ_le_self _ hle
    · simp [IdKey.ofClass] at hc
  · intro g hg
    apply hg.mono hprefix
    · intro o'
      rw [Tally.count_bump]
      split
      · next ho => simp [ho]
      · exact Nat.le_refl _
    · exact fun _ => id

theorem knows_ofClass {c : ClassId} (hnew : k.statics.contains c = false) :
    ¬ k.Knows (k.pool.intern (.ofClass c)).1 := by
  intro ⟨key, hold, hcounts⟩
  have hkey := k.pool.key?_intern (.ofClass c)
  rw [IdPool.key?_of_prefix (k.pool.prefix_intern _) hold] at hkey
  cases hkey
  rcases hcounts with ⟨hpos, _⟩ | ⟨d, hd, hloaded⟩
  · -- creations are counted from 1
    exact Nat.not_succ_le_zero _ hpos
  · rw [ofClass_inj hd, hloaded] at hnew
    cases hnew

namespace Named

theorem keep (hk : k.Named)
    (hids : k'.classes.Numbered) (hknows : ∀ g, k.Knows g → k'.Knows g)
    (harena : ∀ i e', k'.heap.arena.get? i = some e' → ∃ e, k.heap.arena.get? i = some e ∧ e'.gid = e.gid)
    (hthreads : ∀ t info', k'.threads.get? t = some info' →
      ∃ info, k.threads.get? t = some info ∧ info'.gid = info.gid) : k'.Named where
  ids := hids
  objects := by
    intro i e' he'
    obtain ⟨e, he, hgid⟩ := harena i e' he'
    exact hgid ▸ hknows _ (hk.objects i e he)
  threads := by
    intro t info' hinfo'
    obtain ⟨info, hinfo, hgid⟩ := hthreads t info' hinfo'
    exact hgid ▸ hknows _ (hk.threads t info hinfo)
  distinctObjects := by
    intro i j e₁ e₂ he₁ he₂ heq
    obtain ⟨e₁', he₁', hgid₁⟩ := harena i e₁ he₁
    obtain ⟨e₂', he₂', hgid₂⟩ := harena j e₂ he₂
    exact hk.distinctObjects i j e₁' e₂' he₁' he₂' (hgid₁.symm.trans (heq.trans hgid₂))
  distinctThreads := by
    intro t u i₁ i₂ hi₁ hi₂ heq
    obtain ⟨i₁', hi₁', hgid₁⟩ := hthreads t i₁ hi₁
    obtain ⟨i₂', hi₂', hgid₂⟩ := hthreads u i₂ hi₂
    exact hk.distinctThreads t u i₁' i₂' hi₁' hi₂' (hgid₁.symm.trans (heq.trans hgid₂))

theorem place (hk : k.Named) {gid : GlobalId} {build : Ref → Element} (hbuild : ∀ r, (build r).gid = gid)
    (hnew : ∀ i e, k.heap.arena.get? i = some e → e.gid ≠ gid) (hknown : k.Knows gid) :
    { k with heap := (k.heap.place build).2 }.Named where
  ids := hk.ids
  objects := by
    intro i e he
    rw [Heap.arena_place] at he
    split at he
    · cases he
      rw [hbuild]
      exact hknown
    · exact hk.objects i e he
  threads := hk.threads
  distinctObjects := by
    intro i j e₁ e₂ he₁ he₂ heq
    rw [Heap.arena_place] at he₁ he₂
    split at he₁
    · next hi =>
      cases he₁
      split at he₂
      · next hj => exact hi.symm.trans hj
      · exact absurd (heq.symm.trans (hbuild _)) (hnew j e₂ he₂)
    · split at he₂
      · cases he₂
        exact absurd (heq.trans (hbuild _)) (hnew i e₁ he₁)
      · exact hk.distinctObjects i j e₁ e₂ he₁ he₂ heq
  distinctThreads := hk.distinctThreads

theorem push (hk : k.Named) {info : Thread} {epoch : Nat} (hknown : k.Knows info.gid)
    (hnew : ∀ t i, k.threads.get? t = some i → i.gid ≠ info.gid) :
    { k with threads := { threads := k.threads.threads.push info, epoch } }.Named := by
  have hget : ∀ t i, (Roster.mk (k.threads.threads.push info) epoch).get? t = some i →
      (t = k.threads.size ∧ i = info) ∨ k.threads.get? t = some i := by
    intro t i hi
    rw [Roster.get?_push] at hi
    split at hi
    · next ht =>
      cases hi
      exact .inl ⟨ht, rfl⟩
    · exact .inr hi
  refine ⟨hk.ids, hk.objects, ?_, hk.distinctObjects, ?_⟩
  · intro t i hi
    rcases hget t i hi with ⟨_, rfl⟩ | hi
    · exact hknown
    · exact hk.threads t i hi
  · intro t u i i' hi hi' heq
    rcases hget t i hi with ⟨ht, hinfo⟩ | hold
    · rcases hget u i' hi' with ⟨hu, _⟩ | hold'
      · exact ht.trans hu.symm
      · exact absurd (heq.symm.trans (by rw [hinfo])) (hnew u i' hold')
    · rcases hget u i' hi' with ⟨_, hinfo'⟩ | hold'
      · exact absurd (heq.trans (by rw [hinfo'])) (hnew t i hold)
      · exact hk.distinctThreads t u i i' hold hold' heq

theorem put (hk : k.Named) {o : Ref} {e e' : Element} (he : k.heap.get? o = some e)
    (hgid : e'.gid = e.gid) : { k with heap := k.heap.put o e' }.Named := by
  refine hk.keep hk.ids (fun _ => id) ?_ (fun _ info h => ⟨info, h, rfl⟩)
  intro i e₁ he₁
  rw [Heap.arena_put] at he₁
  split at he₁
  · next hi =>
    obtain ⟨_, _, rfl⟩ := Option.map_eq_some_iff.mp he₁
    obtain ⟨j, hj, hget⟩ := Heap.get?_eq_some.mp he
    rw [hi] at hj
    cases hj
    exact ⟨e, hget, hgid⟩
  · exact ⟨e₁, he₁, rfl⟩

theorem stir {calm : Prop} (hk : k.Named) (h : k.Stir calm k') : k'.Named := by
  cases h with
  | tell e => exact ⟨hk.ids, hk.objects, hk.threads, hk.distinctObjects, hk.distinctThreads⟩
  | atomic a => exact ⟨hk.ids, hk.objects, hk.threads, hk.distinctObjects, hk.distinctThreads⟩
  | @thread t info f hinfo hgid _ =>
    refine hk.keep hk.ids (fun _ => id) (fun _ e he => ⟨e, he, rfl⟩) ?_
    intro u info' hu
    rw [Roster.get?_put] at hu
    split at hu
    · next htu =>
      subst htu
      rw [hinfo] at hu
      cases hu
      exact ⟨info, hinfo, hgid⟩
    · exact ⟨info', hu, rfl⟩
  | monitor f he _ => exact hk.put he rfl

theorem name (hk : k.Named) {creator : Option ThreadId} {site : Option Site} {gid : GlobalId}
    (h : k.newGlobalId creator site = .ok (gid, k')) : k'.Named := by
  have hknows := (knows_newGlobalId h).2.2
  obtain ⟨thread, _, _, rfl⟩ := newGlobalId_eq_ok.mp h
  exact hk.keep hk.ids hknows (fun _ e he => ⟨e, he, rfl⟩) (fun _ info hi => ⟨info, hi, rfl⟩)

theorem object (hk : k.Named) {creator : Option ThreadId} {site : Option Site} {gid : GlobalId}
    {build : Ref → Element} (h : k.newGlobalId creator site = .ok (gid, k'))
    (hbuild : ∀ r, (build r).gid = gid) : { k' with heap := (k'.heap.place build).2 }.Named := by
  obtain ⟨hknown, hfresh, _⟩ := knows_newGlobalId h
  apply (hk.name h).place hbuild _ hknown
  intro i e he hgid
  obtain ⟨thread, _, _, rfl⟩ := newGlobalId_eq_ok.mp h
  exact hfresh (hgid ▸ hk.objects i e he)

theorem grow {proper : Prop} (hk : k.Named) (h : Grow proper k k') : k'.Named := by
  cases h with
  | register c _ =>
    exact hk.keep (hk.ids.register c) (fun _ => id) (fun _ e he => ⟨e, he, rfl⟩)
      (fun _ info hi => ⟨info, hi, rfl⟩)
  | name h => exact hk.name h
  | object h hbuild => exact hk.object h hbuild.gid
  | @thread creator site gid k₁ build info h hbuild hgid _ =>
    obtain ⟨hknown, hfresh, _⟩ := knows_newGlobalId h
    apply (hk.object h hbuild.gid).push
    · exact hgid ▸ hknown
    · intro t i hi heq
      obtain ⟨thread, _, _, rfl⟩ := newGlobalId_eq_ok.mp h
      rw [hgid] at heq
      exact hfresh (heq ▸ hk.threads t i hi)
  | @load c desc build classObject hnew hdesc hbuild =>
    have hstatics : ∀ d, k.statics.contains d = true →
        (k.statics.addClass desc (k.pool.intern (.ofClass c)).1 classObject).contains d = true := by
      intro d hd
      rw [Statics.contains_addClass, hd]
      rfl
    let k₁ : Kernel := { k with
      pool := (k.pool.intern (.ofClass c)).2
      statics := k.statics.addClass desc (k.pool.intern (.ofClass c)).1 classObject }
    -- with the class loaded its name is known, and only then the class object is placed
    have hk₁ : k₁.Named := by
      refine hk.keep hk.ids ?_ (fun _ e he => ⟨e, he, rfl⟩) (fun _ info hi => ⟨info, hi, rfl⟩)
      intro g hg
      exact hg.mono (k.pool.prefix_intern _) (fun _ => Nat.le_refl _) hstatics
    refine hk₁.place hbuild.gid ?_ ⟨_, k.pool.key?_intern _, .inr ⟨c, rfl, ?_⟩⟩
    · intro i e he hgid
      exact knows_ofClass hnew (hgid ▸ hk.objects i e he)
    · rw [Statics.contains_addClass, hk.ids c desc hdesc]
      simp
  | write he hkept => exact hk.put he hkept.gid
  | writeStatic he =>
    refine hk.keep hk.ids ?_ (fun _ e he => ⟨e, he, rfl⟩) (fun _ info hi => ⟨info, hi, rfl⟩)
    intro g hg
    refine hg.mono List.prefix_rfl (fun _ => Nat.le_refl _) ?_
    intro c hc
    rw [Statics.contains_put]
    exact hc
  | flag flag =>
    refine hk.keep hk.ids (fun _ => id) ?_ (fun _ info hi => ⟨info, hi, rfl⟩)
    intro i e he
    rw [Heap.arena_setOutOfMemory] at he
    exact ⟨e, he, rfl⟩
  | collect h =>
    refine hk.keep hk.ids (fun _ => id) ?_ (fun _ info hi => ⟨info, hi, rfl⟩)
    intro i e' he'
    obtain ⟨e, he, hkept⟩ := (Heap.collect_spec h).1.kept i e' he'
    exact ⟨e, he, hkept.gid⟩
  | _ => exact ⟨hk.ids, hk.objects, hk.threads, hk.distinctObjects, hk.distinctThreads⟩

theorem stirs {calm : Prop} (hk : k.Named) (h : k.Stirs calm k') : k'.Named := by
  induction h with
  | refl => exact hk
  | tail _ h ih => exact ih.stir h

theorem grows {proper : Prop} (hk : k.Named) (h : Grows proper k k') : k'.Named := by
  induction h with
  | refl => exact hk
  | tail _ h ih => exact ih.grow h

theorem perform (hk : k.Named) {op : Op} (h : k.perform op = .ok k') : k'.Named := by
  cases hs : op.stirs with
  | true => exact hk.stirs (perform_stirs hs False.elim h)
  | false => exact hk.grows (perform_grows hs h False.elim False.elim)

theorem built {ok : Kernel → Op → Prop} (h : Built ok k) : k.Named := by
  induction h with
  | start limit observers =>
    refine ⟨Registry.sound_core.id, ?_, ?_, ?_, ?_⟩
    · intro i e he
      cases he
    · intro t info hinfo
      cases hinfo
    · intro i j e e' he
      cases he
    · intro t u info info' hinfo
      cases hinfo
  | perform _ _ h ih => exact ih.perform h
  | adopt _ _ hle ih ihother =>
    refine ih.keep ihother.ids ?_ (fun _ e he => ⟨e, he, rfl⟩) (fun _ info hi => ⟨info, hi, rfl⟩)
    intro g hg
    exact hg.mono hle.pool (fun _ => Nat.le_refl _) fun _ => id
  | restore _ _ hle ih ihother =>
    refine ihother.keep ih.ids ?_ (fun _ e he => ⟨e, he, rfl⟩) (fun _ info hi => ⟨info, hi, rfl⟩)
    intro g hg
    exact hg.mono hle.pool (fun _ => Nat.le_refl _) fun _ => id

end Named

/-- In every state that operations can build, beside others over the same id pool too, no two live
objects have the same name, and no two threads. -/
theorem Built.distinctNames {ok : Kernel → Op → Prop} (h : Built ok k) :
    k.heap.DistinctNames ∧ k.threads.DistinctNames :=
  ⟨(Named.built h).distinctObjects, (Named.built h).distinctThreads⟩

def sown : Kernel :=
  (withLimit none).performAll
    [.createThread "main" none none, .start 0 (.fresh 0 1), .newArray .int 2 (some 0) (some ⟨7, 3⟩),
      .intern "a" (some 0)]

def grafted : Kernel :=
  ((withLimit none).adopt sown).performAll
    [.register { name := "Node" }, .loadNamed "Node", .createThread "main" none none,
      .createThread "worker" (some 0) (some ⟨7, 3⟩), .newArray .int 2 (some 1) (some ⟨7, 3⟩)]

def replanted : Kernel :=
  (grafted.restore sown.snapshot.1).performAll
    [.newArray .int 2 (some 0) (some ⟨7, 3⟩), .collect, .createThread "worker" (some 0) (some ⟨7, 3⟩),
      .newArray .int 2 (some 1) (some ⟨7, 3⟩), .loadNamed "Node"]

theorem distinctNames_replanted :
    Built (fun _ _ => True) replanted ∧
      (List.range 7).map (fun i => (replanted.heap.arena.get? i).map (·.gid)) =
        [some 0, some 7, some 2, some 3, some 8, some 4, none] ∧
      replanted.heap.DistinctNames ∧ replanted.threads.DistinctNames := by
  have hsown : Built (fun _ _ => True) sown := (Built.start none {}).performAll fun _ _ _ => trivial
  have hgrafted : Built (fun _ _ => True) grafted := by
    apply Built.performAll _ fun _ _ _ => trivial
    exact .adopt (.start none {}) hsown ⟨by decide +kernel, by decide +kernel⟩
  have hreplanted : Built (fun _ _ => True) replanted := by
    apply Built.performAll _ fun _ _ _ => trivial
    exact .restore hgrafted hsown ⟨by decide +kernel, by decide +kernel⟩
  exact ⟨hreplanted, by decide +kernel, hreplanted.distinctNames⟩

end Kernel

end Interleave
