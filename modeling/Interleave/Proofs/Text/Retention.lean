import Interleave.Proofs.Heap.Upkeep
import Interleave.Proofs.Reference.Safety

/-!
What operations leave as it is. An object that is not written to keeps its name, its class and its slots,
and no operation but interning touches the table of interned strings.
-/

namespace Interleave

namespace Heap

theorem strings_put (h : Heap) (o : Ref) (e : Element) : (h.put o e).strings = h.strings := by
  unfold put
  split <;> rfl

theorem strings_setOutOfMemory (h : Heap) (flag : Bool) : (h.setOutOfMemory flag).strings = h.strings := by
  unfold setOutOfMemory
  split <;> rfl

theorem strings_place (h : Heap) (build : Ref → Element) : (h.place build).2.strings = h.strings := by
  unfold place
  dsimp only
  split
  · exact strings_setOutOfMemory _ _
  · rfl

theorem strings_collect {h : Heap} {roots : Roots} {c : Collection} (hc : h.collect roots = .ok c) :
    c.heap.strings = h.strings := by
  unfold collect at hc
  apply foldlM_induction (motive := fun c => c.heap.strings = h.strings) hc
  · rfl
  · intro i _ c₁ c₂ h₁ h₂
    obtain rfl | ⟨_, _, _, _, _, -, -, rfl⟩ := maintainAt_cases h₂
    · exact h₁
    · exact h₁

end Heap

namespace Kernel

def Keeps (p : Ref → Prop) (k k' : Kernel) : Prop :=
  ∀ o e, p o → k.heap.get? o = some e → ∃ e', k'.heap.get? o = some e' ∧ e.Endures e'

structure Leaves (p : Ref → Prop) (k k' : Kernel) : Prop where
  keeps : Keeps p k k'
  strings : k'.heap.strings = k.heap.strings

variable {p : Ref → Prop} {k k' k'' : Kernel} {op : Op}

theorem Keeps.trans (h : Keeps p k k') (h' : Keeps p k' k'') : Keeps p k k'' := by
  intro o e ho he
  obtain ⟨e', he', hend⟩ := h o e ho he
  obtain ⟨e'', he'', hend'⟩ := h' o e' ho he'
  exact ⟨e'', he'', hend.trans hend'⟩

theorem Keeps.putNew (h : Keeps p k k') {o : Ref} (hnew : k.heap.get? o = none) (e : Element) :
    Keeps p k { k' with heap := k'.heap.put o e } := by
  intro o' e' ho' he'
  dsimp only
  rw [Heap.get?_put, if_neg]
  · exact h o' e' ho' he'
  · rintro rfl
    rw [hnew] at he'
    cases he'

namespace Leaves

theorem of_eq (h : k'.heap.get? = k.heap.get?) (hstrings : k'.heap.strings = k.heap.strings) :
    Leaves p k k' := by
  refine ⟨?_, hstrings⟩
  intro o e _ he
  exact ⟨e, by rw [h, he], .refl e⟩

theorem refl (p : Ref → Prop) (k : Kernel) : Leaves p k k := of_eq rfl rfl

theorem trans (h : Leaves p k k') (h' : Leaves p k' k'') : Leaves p k k'' :=
  ⟨h.keeps.trans h'.keeps, h'.strings.trans h.strings⟩

theorem place (build : Ref → Element) (h : k'.heap = (k.heap.place build).2) : Leaves p k k' := by
  refine ⟨?_, by rw [h, Heap.strings_place]⟩
  intro o e _ he
  exact ⟨e, by rw [h, Heap.get?_place_of_some he], .refl e⟩

theorem putNew (h : Leaves p k k') {o : Ref} (hnew : k.heap.get? o = none) (e : Element) :
    Leaves p k { k' with heap := k'.heap.put o e } :=
  ⟨h.keeps.putNew hnew e, (k'.heap.strings_put o e).trans h.strings⟩

theorem put {o : Ref} {e e' : Element} (he : k.heap.get? o = some e) (h : p o → e.Endures e') :
    Leaves p k { k with heap := k.heap.put o e' } := by
  refine ⟨?_, k.heap.strings_put o e'⟩
  intro o' e₁ ho' he₁
  dsimp only
  rw [Heap.get?_put]
  split
  · next hoo =>
    subst hoo
    rw [he] at he₁
    cases he₁
    exact ⟨e', by rw [he]; rfl, h ho'⟩
  · exact ⟨e₁, he₁, .refl e₁⟩

theorem stir {calm : Prop} (h : k.Stir calm k') : Leaves p k k' := by
  cases h with
  | monitor f he => exact put he fun _ => ⟨rfl, rfl, rfl, rfl, rfl, rfl, Nat.le_refl _⟩
  | _ => exact of_eq rfl rfl

theorem stirs {calm : Prop} (h : k.Stirs calm k') : Leaves p k k' := by
  induction h with
  | refl => exact refl p k
  | tail _ h ih => exact ih.trans (stir h)

theorem part {proper : Prop} (hcollect : op ≠ .collect) (hfills : op.fills = false)
    (htouched : ∀ o ∈ op.touched, ¬ p o) (h : Part op proper k k') : Leaves p k k' := by
  cases h with
  | name h =>
    obtain ⟨thread, -, -, rfl⟩ := newGlobalId_eq_ok.mp h
    exact of_eq rfl rfl
  | object h =>
    obtain ⟨thread, -, -, rfl⟩ := newGlobalId_eq_ok.mp h
    exact place _ rfl
  | thread heq =>
    rw [heq] at hfills
    cases hfills
  | load => exact place _ rfl
  | write hop he =>
    apply put he
    intro ho
    obtain hmem | hop | hendures := hop
    · exact absurd ho (htouched _ hmem)
    · rw [hop] at hfills
      cases hfills
    · exact hendures
  | flag flag =>
    refine of_eq ?_ (Heap.strings_setOutOfMemory _ _)
    unfold Heap.get?
    rw [Heap.arena_setOutOfMemory]
  | strings hop =>
    rw [hop] at hfills
    cases hfills
  | collect heq => exact absurd heq hcollect
  | _ => exact of_eq rfl rfl

theorem parts {proper : Prop} (hcollect : op ≠ .collect) (hfills : op.fills = false)
    (htouched : ∀ o ∈ op.touched, ¬ p o) (h : Parts op proper k k') : Leaves p k k' := by
  induction h with
  | refl => exact refl p k
  | tail _ h ih => exact ih.trans (part hcollect hfills htouched h)

theorem createThread {name : String} {creator : Option ThreadId} {site : Option Site} {t : ThreadId}
    (hroom : k.heap.Roomy 1) (h : k.createThread name creator site = .ok (t, k')) : Leaves p k k' := by
  obtain @⟨gid, _, _, _, desc, info, _, h₁, -, rfl, hobject, -, -, hwritten, -⟩ := spawns_createThread h
  obtain ⟨thread, -, -, rfl⟩ := newGlobalId_eq_ok.mp h₁
  have hplaced : Leaves p k (({ k with
      pool := (k.tally.next k.pool (.ofCreation thread site)).2.1
      tally := (k.tally.next k.pool (.ofCreation thread site)).2.2 : Kernel }.register
        .threadClass).2.allocate desc creator gid).2 :=
    place (fun ref => .fresh ref gid desc.id .object (.ofMask desc.instances.refMask) creator) rfl
  obtain rfl | ⟨slot, h₃⟩ := hwritten
  · exact ⟨hplaced.keeps, hplaced.strings⟩
  · obtain ⟨e, e', -, -, rfl⟩ := updateElement_eq_ok.mp h₃
    have hnew : k.heap.get? info.object = none := by
      rw [hobject]
      exact Heap.get?_eq_none_of_nextFree (Ref.index?_ofIndex hroom.nextFree_lt)
    exact ⟨(hplaced.putNew hnew e').keeps, (hplaced.putNew hnew e').strings⟩

theorem grow (hop : op.stirs = false) (hcollect : op ≠ .collect)
    (hintern : ∀ text creator, op ≠ .intern text creator) (htouched : ∀ o ∈ op.touched, ¬ p o)
    (hroom : op.allocates = true → k.heap.Roomy 1) (h : k.perform op = .ok k') : Leaves p k k' := by
  cases hfills : op.fills with
  | false => exact parts hcollect hfills htouched (perform_parts hop h False.elim False.elim)
  | true =>
    cases op with
    | createThread name creator site =>
      obtain ⟨t, h⟩ := snd_eq_ok.mp h
      exact createThread (hroom rfl) h
    | intern text creator => exact absurd rfl (hintern text creator)
    | _ => cases hfills

end Leaves

theorem Alive.endures {c : Collection} {i : Nat} {e : Element} (hi : k.Alive i) (hk : k.Orderly)
    (hc : k.heap.collect k.roots = .ok c) (he : k.heap.arena.get? i = some e) (hweak : e.weak = false) :
    ∃ e', c.heap.arena.get? i = some e' ∧ e.Endures e' := by
  apply Heap.collect_endures hc he hweak
  rw [(Heap.collect_spec hc).2, Arena.contains_of_get? he]
  exact (alive_iff hk).mp hi

end Kernel

end Interleave
