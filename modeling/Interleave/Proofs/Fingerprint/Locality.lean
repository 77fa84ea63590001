import Interleave.Encoding.StateTable
import Interleave.Proofs.Except
import Interleave.Proofs.Fingerprint.Reduction
import Interleave.Proofs.Kernel.Operation

/-!
Differences that fingerprints never miss. A shift loses nothing, because the polynomial has a constant term,
and a window of 64 bits is shifted out before any of it is reduced twice. So two lists of words that differ
within two adjacent places have different fingerprints, whatever stands before and after.
-/

namespace Interleave

namespace Fingerprint

theorem eq_zero_of_shift {t : UInt64} (h : shift t = 0) : t = 0 := by
  have htop : (t >>> 1).toBitVec.getLsbD 63 = false := by
    change (t.toBitVec >>> 1).getLsbD 63 = false
    simp
  cases hlow : t.toBitVec.getLsbD 0 with
  | true =>
    -- the highest bit is the constant term of the polynomial
    rw [shift_eq, hlow, if_pos rfl] at h
    have hbit := congrArg (·.toBitVec.getLsbD 63) h
    simp only [UInt64.toBitVec_xor, BitVec.getLsbD_xor, htop] at hbit
    exact absurd hbit (by decide)
  | false =>
    rw [shift_eq, hlow] at h
    simp only [Bool.false_eq_true, if_false, UInt64.xor_zero] at h
    apply UInt64.toBitVec_inj.mp
    apply BitVec.eq_of_getLsbD_eq
    intro i hi
    cases i with
    | zero => simpa using hlow
    | succ i =>
      have hbit : (t.toBitVec >>> 1).getLsbD i = false := by
        change (t >>> 1).toBitVec.getLsbD i = false
        rw [h]
        simp
      rw [BitVec.getLsbD_ushiftRight, Nat.add_comm] at hbit
      simpa using hbit

theorem shift_injective : Function.Injective shift := by
  intro a b h
  apply UInt64.xor_eq_zero_iff.mp
  apply eq_zero_of_shift
  rw [shift_xor, h, UInt64.xor_self]

theorem iterate_shift_injective (n : Nat) : Function.Injective shift^[n] := shift_injective.iterate n

theorem extend_injective (w : Int32) : Function.Injective (extend · w) := by
  intro a b h
  simp only [extend_eq] at h
  exact UInt64.xor_left_inj _ |>.mp (iterate_shift_injective 32 h)

theorem eq_zero_of_iterate_shift {d e : UInt64} (hd : d.toNat < 2 ^ 32) (he : e.toNat < 2 ^ 32)
    (h : shift^[32] d = e) : d = 0 := by
  have hhigh : ∀ {t : UInt64} {i : Nat}, t.toNat < 2 ^ 32 → 32 ≤ i → t.toBitVec.getLsbD i = false := by
    intro t i ht hi
    exact Nat.testBit_lt_two_pow (Nat.lt_of_lt_of_le ht (Nat.pow_le_pow_right (by decide) hi))
  have hup : ∀ i < 32, (e.toBitVec <<< 32).getLsbD i = false := by
    intro i hi
    simp [BitVec.getLsbD_shiftLeft, hi]
  have hdown : shift^[32] (.ofBitVec (e.toBitVec <<< 32)) = e := by
    apply UInt64.toBitVec_inj.mp
    rw [toBitVec_iterate_shift hup]
    apply BitVec.eq_of_getLsbD_eq
    intro i hi
    by_cases hi' : i < 32
    · rw [BitVec.getLsbD_ushiftRight, BitVec.getLsbD_shiftLeft]
      simp [show 32 + i < 64 by omega]
    · rw [hhigh he (by omega), BitVec.getLsbD_ushiftRight]
      exact BitVec.getLsbD_of_ge _ _ (by omega)
  have heq : d = .ofBitVec (e.toBitVec <<< 32) := iterate_shift_injective 32 (h.trans hdown.symm)
  apply UInt64.toBitVec_inj.mp
  apply BitVec.eq_of_getLsbD_eq
  intro i _
  by_cases hi : i < 32
  · rw [heq, hup i hi]
    simp
  · rw [hhigh hd (by omega)]
    simp

theorem xor_eq_of_xor_eq {x p q r s : UInt64} (h : x ^^^ p ^^^ r = x ^^^ q ^^^ s) : p ^^^ q = r ^^^ s := by
  calc p ^^^ q
    _ = (x ^^^ x) ^^^ (r ^^^ r) ^^^ (s ^^^ s) ^^^ (p ^^^ q) := by simp
    _ = (x ^^^ p ^^^ r) ^^^ (x ^^^ q ^^^ s) ^^^ (r ^^^ s) := by ac_rfl
    _ = r ^^^ s := by simp [h]

theorem extend_extend_inj {fp : UInt64} {a b a' b' : Int32}
    (h : extend (extend fp a) b = extend (extend fp a') b') : a = a' ∧ b = b' := by
  have hxor_lt : ∀ u v : UInt32, (u.toUInt64 ^^^ v.toUInt64).toNat < 2 ^ 32 := by
    intro u v
    rw [UInt64.toNat_xor]
    exact Nat.xor_lt_two_pow u.toNat_lt v.toNat_lt
  have hword : ∀ {v w : Int32}, v.toUInt32.toUInt64 = w.toUInt32.toUInt64 → v = w := by
    intro v w hvw
    exact Int32.toBitVec_inj.mp (UInt32.toBitVec_inj.mpr (UInt32.toUInt64_inj.mp hvw))
  have hfirst : a = a' := by
    simp only [extend_eq] at h
    have hsum := iterate_shift_injective 32 h
    rw [iterate_shift_xor, iterate_shift_xor] at hsum
    apply hword
    apply UInt64.xor_eq_zero_iff.mp
    apply eq_zero_of_iterate_shift (hxor_lt _ _) (hxor_lt b.toUInt32 b'.toUInt32)
    rw [iterate_shift_xor]
    exact xor_eq_of_xor_eq hsum
  subst hfirst
  refine ⟨rfl, hword ?_⟩
  rw [extend_eq, extend_eq _ b'] at h
  exact (UInt64.xor_right_inj _).mp (iterate_shift_injective 32 h)

/-- The lists have the same length, and agree except perhaps in places `i` and `i + 1`. -/
structure AgreeBut (i : Nat) (ws ws' : List Int32) : Prop where
  length : ws.length = ws'.length
  elsewhere : ∀ j, j ≠ i → j ≠ i + 1 → ws[j]? = ws'[j]?

theorem agreeBut_append (before after : List Int32) (a b a' b' : Int32) :
    AgreeBut before.length (before ++ a :: b :: after) (before ++ a' :: b' :: after) := by
  refine ⟨by simp, ?_⟩
  intro j hj hj'
  rw [List.getElem?_append, List.getElem?_append]
  split
  · rfl
  · obtain ⟨m, hm⟩ : ∃ m, j - before.length = m + 2 := ⟨j - before.length - 2, by omega⟩
    rw [hm]
    rfl

theorem foldl_extend_injective (ws : List Int32) : Function.Injective (ws.foldl extend ·) := by
  induction ws with
  | nil => exact Function.injective_id
  | cons w ws ih => exact ih.comp (extend_injective w)

theorem AgreeBut.tail {i : Nat} {w w' : Int32} {ws ws' : List Int32}
    (h : AgreeBut (i + 1) (w :: ws) (w' :: ws')) : w = w' ∧ AgreeBut i ws ws' := by
  refine ⟨?_, ?_, ?_⟩
  · simpa using h.elsewhere 0 (by omega) (by omega)
  · simpa using h.length
  · intro j hj hj'
    simpa using h.elsewhere (j + 1) (by omega) (by omega)

theorem eq_of_foldl_extend {i : Nat} {fp : UInt64} {ws ws' : List Int32} (h : AgreeBut i ws ws')
    (hfold : ws.foldl extend fp = ws'.foldl extend fp) : ws = ws' := by
  induction i generalizing fp ws ws' with
  | zero =>
    match ws, ws', h.length with
    | [], [], _ => rfl
    | [a], [a'], _ =>
      have hpair : extend (extend fp a) 0 = extend (extend fp a') 0 := congrArg (extend · 0) hfold
      rw [(extend_extend_inj hpair).1]
    | a :: b :: rest, a' :: b' :: rest', _ =>
      have hrest : rest = rest' := by
        apply List.ext_getElem?
        intro j
        simpa using h.elsewhere (j + 2) (by omega) (by omega)
      subst hrest
      have hpair : rest.foldl extend (extend (extend fp a) b) = rest.foldl extend (extend (extend fp a') b') :=
        hfold
      obtain ⟨rfl, rfl⟩ := extend_extend_inj (foldl_extend_injective rest hpair)
      rfl
  | succ i ih =>
    match ws, ws', h.length with
    | [], [], _ => rfl
    | w :: ws, w' :: ws', _ =>
      obtain ⟨rfl, htail⟩ := h.tail
      rw [ih htail hfold]

end Fingerprint

namespace StateTable

def visitAll (t : StateTable) (sigs : List Signature) : StateTable := sigs.foldl (fun t sig => (t.visit sig).2) t

theorem visit_spec (t : StateTable) (sig : Signature) :
    (t.visit sig).2.matching = t.matching ∧ t.states.toList <+: (t.visit sig).2.states.toList ∧
      ∃ s, (t.visit sig).2.states[(t.visit sig).1.id]? = some s ∧ t.matching.same sig s = true := by
  unfold visit
  cases hfind : t.find? sig with
  | some id =>
    obtain ⟨hlt, hsame, -⟩ := Array.findIdx?_eq_some_iff_getElem.mp hfind
    exact ⟨rfl, List.prefix_rfl, _, Array.getElem?_eq_getElem hlt, hsame⟩
  | none =>
    refine ⟨rfl, ?_, sig, ?_, ?_⟩
    · simp
    · simp [Visit.id, size]
    · cases t.matching with
      | hashed => exact beq_self_eq_true sig.hash
      | exact => exact beq_self_eq_true sig.words

theorem visitAll_spec (t : StateTable) (sigs : List Signature) :
    (t.visitAll sigs).matching = t.matching ∧ t.states.toList <+: (t.visitAll sigs).states.toList := by
  induction sigs generalizing t with
  | nil => exact ⟨rfl, List.prefix_rfl⟩
  | cons sig sigs ih =>
    obtain ⟨hmatching, hprefix, -⟩ := t.visit_spec sig
    obtain ⟨hmatching', hprefix'⟩ := ih (t.visit sig).2
    exact ⟨hmatching'.trans hmatching, hprefix.trans hprefix'⟩

theorem hash_eq_of_id_eq {t : StateTable} (ht : t.matching = .hashed) {sig sig' : Signature}
    {between : List Signature}
    (h : (t.visit sig).1.id = (((t.visit sig).2.visitAll between).visit sig').1.id) :
    sig.hash = sig'.hash := by
  obtain ⟨hmatching, -, s, hs, hsame⟩ := t.visit_spec sig
  obtain ⟨hmatching', hprefix⟩ := (t.visit sig).2.visitAll_spec between
  obtain ⟨-, hprefix', s', hs', hsame'⟩ := ((t.visit sig).2.visitAll between).visit_spec sig'
  rw [hmatching', hmatching, ht] at hsame'
  rw [ht] at hsame
  have hlater : (((t.visit sig).2.visitAll between).visit sig').2.states[(t.visit sig).1.id]? = some s := by
    rw [← Array.getElem?_toList] at hs ⊢
    obtain ⟨later, hlater⟩ := hprefix.trans hprefix'
    rw [← hlater, List.getElem?_append_left (List.getElem?_eq_some_iff.mp hs).1, hs]
  rw [← h, hlater] at hs'
  cases hs'
  exact (beq_iff_eq.mp hsame).trans (beq_iff_eq.mp hsame').symm

end StateTable

namespace Fingerprint

/-- Lists that differ within two adjacent places have different fingerprints. So states whose encodings
differ there get different numbers from a table that goes by fingerprints, whatever it is shown before and in
between. -/
theorem ofWords_ne_of_agreeBut {i : Nat} {ws ws' : List Int32} (h : AgreeBut i ws ws') (hne : ws ≠ ws') :
    ofWords ws ≠ ofWords ws' ∧
      ∀ (k k' : Kernel) (t : StateTable) (between : List Signature),
        k.encode = .ok ws → k'.encode = .ok ws' → t.matching = .hashed →
        ∃ sig sig', k.signature = .ok sig ∧ k'.signature = .ok sig' ∧
          (t.visit sig).1.id ≠ (((t.visit sig).2.visitAll between).visit sig').1.id := by
  have hhash : ofWords ws ≠ ofWords ws' := fun heq => hne (eq_of_foldl_extend h heq)
  refine ⟨hhash, fun k k' t between hk hk' ht => ⟨.ofWords ws, .ofWords ws', ?_, ?_, ?_⟩⟩
  · exact bind_eq_ok.mpr ⟨ws, hk, rfl⟩
  · exact bind_eq_ok.mpr ⟨ws', hk', rfl⟩
  · intro hid
    exact hhash (StateTable.hash_eq_of_id_eq ht hid)

def wideLocal (high low : Int32) : Kernel :=
  (Kernel.withLimit none).performAll
    [.createThread "main" none none, .start 0 { Frame.fresh 0 2 with slots := #[high, low] }]

theorem ofWords_ne_of_agreeBut_wideLocal :
    ∃ ws ws', (wideLocal 0 5).encode = .ok ws ∧ (wideLocal (-1) (-1)).encode = .ok ws' ∧
      AgreeBut 5 ws ws' ∧ ws ≠ ws' ∧ ofWords ws ≠ ofWords ws' ∧
      ∃ sig sig', (wideLocal 0 5).signature = .ok sig ∧ (wideLocal (-1) (-1)).signature = .ok sig' ∧
        (StateTable.visit ⟨.hashed, #[]⟩ sig).1.id ≠
          ((StateTable.visit ⟨.hashed, #[]⟩ sig).2.visit sig').1.id := by
  have hfirst : (wideLocal 0 5).encode =
      .ok ([0, 1, 0, 0, 2] ++ 0 :: 5 :: [0, 1, 5, 0, 1, 0, 1, -1, 0, 0, -1]) :=
    toOption_eq_some.mp (by decide +kernel)
  have hsecond : (wideLocal (-1) (-1)).encode =
      .ok ([0, 1, 0, 0, 2] ++ -1 :: -1 :: [0, 1, 5, 0, 1, 0, 1, -1, 0, 0, -1]) :=
    toOption_eq_some.mp (by decide +kernel)
  have hagree := agreeBut_append [0, 1, 0, 0, 2] [0, 1, 5, 0, 1, 0, 1, -1, 0, 0, -1] 0 5 (-1) (-1)
  obtain ⟨hhash, htable⟩ := ofWords_ne_of_agreeBut hagree (by decide)
  exact ⟨_, _, hfirst, hsecond, hagree, by decide, hhash, htable _ _ _ [] hfirst hsecond rfl⟩

end Fingerprint

end Interleave
