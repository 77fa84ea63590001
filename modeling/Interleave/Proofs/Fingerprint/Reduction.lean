import Interleave.Encoding.Fingerprint
import Mathlib

/-!
What the table of remainders computes. Taking a byte in by the table is the same as adding it in the lowest
place and multiplying by `x` eight times, one bit after the other. So a fingerprint is the remainder of a
polynomial whose coefficients are the bits of all words, in the order in which they are taken in.
-/

namespace Interleave.Fingerprint

section Shift

theorem and_one_eq_zero_iff (t : UInt64) : t &&& 1 = 0 ↔ t.toBitVec.getLsbD 0 = false := by
  rw [← UInt64.toBitVec_inj, UInt64.toBitVec_and]
  change t.toBitVec &&& 1#64 = 0#64 ↔ _
  rw [BitVec.and_one_eq_setWidth_ofBool_getLsbD]
  cases t.toBitVec.getLsbD 0 <;> simp

theorem shift_eq (t : UInt64) :
    shift t = (t >>> 1) ^^^ (if t.toBitVec.getLsbD 0 then poly else 0) := by
  unfold shift
  cases h : t.toBitVec.getLsbD 0 with
  | false =>
    rw [if_pos ((and_one_eq_zero_iff t).mpr h)]
    rfl
  | true =>
    rw [if_neg (by rw [and_one_eq_zero_iff, h]; exact nofun)]
    rfl

theorem shift_xor (a b : UInt64) : shift (a ^^^ b) = shift a ^^^ shift b := by
  have hcancel : (a >>> 1) ^^^ poly ^^^ ((b >>> 1) ^^^ poly) = (a >>> 1) ^^^ (b >>> 1) := by
    rw [show (a >>> 1) ^^^ poly ^^^ ((b >>> 1) ^^^ poly) = (a >>> 1) ^^^ (b >>> 1) ^^^ (poly ^^^ poly) by
      ac_rfl, UInt64.xor_self, UInt64.xor_zero]
  rw [shift_eq, shift_eq, shift_eq, UInt64.shiftRight_xor, UInt64.toBitVec_xor, BitVec.getLsbD_xor]
  cases a.toBitVec.getLsbD 0 <;> cases b.toBitVec.getLsbD 0
  · simp
  · simp [UInt64.xor_assoc]
  · simp only [Bool.true_xor, Bool.not_false, Bool.false_eq_true, if_true, if_false, UInt64.xor_zero]
    ac_rfl
  · simpa using hcancel.symm

theorem iterate_shift_xor (n : Nat) (a b : UInt64) :
    shift^[n] (a ^^^ b) = shift^[n] a ^^^ shift^[n] b := by
  induction n generalizing a b with
  | zero => rfl
  | succ n ih =>
    simp only [Function.iterate_succ_apply]
    rw [shift_xor, ih]

theorem iterate_shift_zero (n : Nat) : shift^[n] 0 = 0 := Function.iterate_fixed (by decide) n

theorem toBitVec_iterate_shift {n : Nat} {t : UInt64} (h : ∀ i < n, t.toBitVec.getLsbD i = false) :
    (shift^[n] t).toBitVec = t.toBitVec >>> n := by
  -- as long as the low bits are clear, nothing has to be reduced
  induction n with
  | zero => simp
  | succ n ih =>
    have hn := ih fun i hi => h i (Nat.lt_succ_of_lt hi)
    have hlow : (shift^[n] t).toBitVec.getLsbD 0 = false := by
      rw [hn, BitVec.getLsbD_ushiftRight]
      exact h n (Nat.lt_succ_self n)
    calc (shift^[n + 1] t).toBitVec
      _ = (shift (shift^[n] t)).toBitVec := by rw [Function.iterate_succ_apply']
      _ = ((shift^[n] t) >>> 1).toBitVec := by rw [shift_eq, hlow]; simp
      _ = (t.toBitVec >>> n) >>> 1 := by rw [← hn]; rfl
      _ = t.toBitVec >>> (n + 1) := (BitVec.shiftRight_add _ _ _).symm

end Shift

section Table

def bit (n : Nat) : UInt64 := .ofBitVec (BitVec.twoPow 64 n)

def low (n : Nat) (t : UInt64) : UInt64 := .ofBitVec ((t.toBitVec.setWidth n).setWidth 64)

theorem getLsbD_low (n : Nat) (t : UInt64) (i : Nat) :
    (low n t).toBitVec.getLsbD i = (decide (i < n) && t.toBitVec.getLsbD i) := by
  unfold low
  simp only [BitVec.getLsbD_setWidth]
  cases h : t.toBitVec.getLsbD i with
  | false => simp
  | true => simp [BitVec.lt_of_getLsbD h]

theorem low_zero (t : UInt64) : low 0 t = 0 := by
  apply UInt64.toBitVec_inj.mp
  apply BitVec.eq_of_getLsbD_eq
  intro i _
  rw [getLsbD_low]
  simp

theorem low_succ {n : Nat} (hn : n < 64) (t : UInt64) :
    low (n + 1) t = low n t ^^^ (if t.toBitVec.getLsbD n then bit n else 0) := by
  apply UInt64.toBitVec_inj.mp
  apply BitVec.eq_of_getLsbD_eq
  intro i _
  rw [UInt64.toBitVec_xor, BitVec.getLsbD_xor, getLsbD_low, getLsbD_low]
  have hbit : (if t.toBitVec.getLsbD n then bit n else 0).toBitVec.getLsbD i =
      (t.toBitVec.getLsbD n && decide (n = i)) := by
    cases t.toBitVec.getLsbD n with
    | false => simp
    | true => simp [bit, BitVec.getLsbD_twoPow, hn]
  rw [hbit]
  by_cases hi : n = i
  · subst hi
    simp
  · have hlt : i < n + 1 ↔ i < n := by omega
    simp [hi, hlt]

theorem iterate_shift_bit {n m : Nat} (h : n + m < 64) : shift^[n] (bit (n + m)) = bit m := by
  apply UInt64.toBitVec_inj.mp
  rw [toBitVec_iterate_shift]
  · apply BitVec.eq_of_getLsbD_eq
    intro i _
    simp only [bit, BitVec.getLsbD_ushiftRight, BitVec.getLsbD_twoPow, h, show m < 64 by omega]
    simp
  · intro i hi
    simp only [bit, BitVec.getLsbD_twoPow]
    simp
    omega

theorem iterate_shift_eq (n : Nat) (t : UInt64) :
    shift^[n] t = .ofBitVec (t.toBitVec >>> n) ^^^ shift^[n] (low n t) := by
  have hsplit : t = (t ^^^ low n t) ^^^ low n t := by
    rw [UInt64.xor_assoc, UInt64.xor_self, UInt64.xor_zero]
  have hhigh : ∀ i, (t ^^^ low n t).toBitVec.getLsbD i = (decide (n ≤ i) && t.toBitVec.getLsbD i) := by
    intro i
    rw [UInt64.toBitVec_xor, BitVec.getLsbD_xor, getLsbD_low]
    by_cases hi : i < n
    · simp [hi, Nat.not_le.mpr hi]
    · simp [hi, Nat.not_lt.mp hi]
  have hshifted : shift^[n] (t ^^^ low n t) = .ofBitVec (t.toBitVec >>> n) := by
    apply UInt64.toBitVec_inj.mp
    rw [toBitVec_iterate_shift (fun i hi => by rw [hhigh]; simp [hi])]
    apply BitVec.eq_of_getLsbD_eq
    intro i _
    rw [BitVec.getLsbD_ushiftRight, hhigh]
    simp
  conv_lhs => rw [hsplit]
  rw [iterate_shift_xor, hshifted]

theorem power_eq (n : Nat) : power n = shift^[n] (bit 63) := by
  induction n with
  | zero => rfl
  | succ n ih => rw [power, ih, Function.iterate_succ_apply']

theorem power_eq_iterate_shift_bit {k : Nat} (hk : k < 64) : power (71 - k) = shift^[8] (bit k) := by
  rw [power_eq, show 71 - k = 8 + (63 - k) by omega, Function.iterate_add_apply,
    show bit 63 = bit (63 - k + k) by rw [Nat.sub_add_cancel (by omega)], iterate_shift_bit (by omega)]

theorem remainder_toNat (t : UInt64) : remainder t.toNat = shift^[8] (low 8 t) := by
  -- after `n` rounds the sum is what the lowest `n` bits contribute
  have hrounds : ∀ n ≤ 8, (List.range n).foldl
      (fun v k => if t.toNat.testBit k then v ^^^ power (71 - k) else v) 0 = shift^[8] (low n t) := by
    intro n hn
    induction n with
    | zero =>
      rw [low_zero]
      rfl
    | succ n ih =>
      rw [List.range_succ, List.foldl_append, ih (by omega), low_succ (by omega), iterate_shift_xor,
        List.foldl_cons, List.foldl_nil, power_eq_iterate_shift_bit (by omega)]
      change (if t.toBitVec.getLsbD n then _ else _) = _
      cases t.toBitVec.getLsbD n with
      | false => simp [iterate_shift_zero]
      | true => rfl
  exact hrounds 8 (Nat.le_refl 8)

theorem remainders_getD {i : Nat} (hi : i < 256) : remainders.getD i 0 = remainder i := by
  simp [remainders, Array.getD_eq_getD_getElem?, hi]

theorem low_and_mask (t : UInt64) : low 8 (t &&& 0xFF) = low 8 t := by
  apply UInt64.toBitVec_inj.mp
  apply BitVec.eq_of_getLsbD_eq
  intro i _
  have hmask : (0xFF : UInt64).toBitVec.getLsbD i = decide (i < 8) := by
    change (2 ^ 8 - 1).testBit i = _
    exact Nat.testBit_two_pow_sub_one 8 i
  rw [getLsbD_low, getLsbD_low, UInt64.toBitVec_and, BitVec.getLsbD_and, hmask]
  cases decide (i < 8) <;> simp

theorem extendByte_eq (fp : UInt64) (b : UInt8) :
    extendByte fp b = shift^[8] (fp ^^^ b.toUInt64) := by
  have hlt : ((fp ^^^ b.toUInt64) &&& 0xFF).toNat < 256 := by
    rw [UInt64.toNat_and]
    exact Nat.lt_succ_of_le Nat.and_le_right
  have hhigh : UInt64.ofBitVec ((fp ^^^ b.toUInt64).toBitVec >>> 8) = fp >>> 8 := by
    apply UInt64.toBitVec_inj.mp
    apply BitVec.eq_of_getLsbD_eq
    intro i _
    simp [BitVec.getLsbD_ushiftRight]
  rw [extendByte, remainders_getD hlt, remainder_toNat, low_and_mask, iterate_shift_eq 8 (fp ^^^ b.toUInt64),
    hhigh]

end Table

section Bits

/-- Take one bit in: it is added in the lowest place, and the sum is multiplied by `x` and reduced. -/
def takeBit (fp : UInt64) (b : Bool) : UInt64 := shift (fp ^^^ b.toUInt64)

def bitsOf (ws : List Int32) : List Bool := ws.flatMap fun w => (List.range 32).map w.toBitVec.getLsbD

theorem foldl_takeBit {n : Nat} (hn : n ≤ 64) (fp t : UInt64) :
    ((List.range n).map t.toBitVec.getLsbD).foldl takeBit fp = shift^[n] (fp ^^^ low n t) := by
  induction n with
  | zero => simp [low_zero]
  | succ n ih =>
    have hbit : shift^[n] (if t.toBitVec.getLsbD n then bit n else 0) = (t.toBitVec.getLsbD n).toUInt64 := by
      cases t.toBitVec.getLsbD n with
      | false => exact iterate_shift_zero n
      | true => exact iterate_shift_bit (m := 0) (by omega)
    rw [List.range_succ, List.map_append, List.foldl_append, ih (by omega), low_succ (by omega),
      Function.iterate_succ_apply', ← UInt64.xor_assoc, iterate_shift_xor n (fp ^^^ low n t), hbit]
    rfl

theorem low_of_lt {n : Nat} {t : UInt64} (h : t.toNat < 2 ^ n) : low n t = t := by
  apply UInt64.toBitVec_inj.mp
  apply BitVec.eq_of_getLsbD_eq
  intro i _
  rw [getLsbD_low]
  by_cases hi : i < n
  · simp [hi]
  · have hclear : t.toBitVec.getLsbD i = false :=
      Nat.testBit_lt_two_pow (Nat.lt_of_lt_of_le h (Nat.pow_le_pow_right (by decide) (by omega)))
    simp [hclear]

theorem map_getLsbD_setWidth {n w : Nat} (hn : n ≤ 64) (v : BitVec w) :
    (List.range n).map (v.setWidth 64).getLsbD = (List.range n).map v.getLsbD := by
  apply List.map_congr_left
  intro i hi
  have hlt : i < 64 := Nat.lt_of_lt_of_le (List.mem_range.mp hi) hn
  simp [hlt]

theorem flatMap_bytes (w : Int32) :
    (bytes w).flatMap (fun b => (List.range 8).map b.toBitVec.getLsbD) =
      (List.range 32).map w.toBitVec.getLsbD := by
  have hbyte : ∀ n, (List.range 8).map ((w.toBitVec >>> n).setWidth 8).getLsbD =
      ((List.range 8).map (n + ·)).map w.toBitVec.getLsbD := by
    intro n
    rw [List.map_map]
    apply List.map_congr_left
    intro i hi
    simp [List.mem_range.mp hi]
  have hrange : List.range 32 = (List.range 8).map (0 + ·) ++ ((List.range 8).map (8 + ·) ++
      ((List.range 8).map (16 + ·) ++ ((List.range 8).map (24 + ·) ++ []))) := by decide
  rw [hrange, List.map_append, List.map_append, List.map_append, List.map_append, ← hbyte, ← hbyte, ← hbyte,
    ← hbyte]
  rfl

theorem extendByte_eq_foldl (fp : UInt64) (b : UInt8) :
    extendByte fp b = ((List.range 8).map b.toBitVec.getLsbD).foldl takeBit fp := by
  rw [← map_getLsbD_setWidth (by decide), ← UInt8.toBitVec_toUInt64, foldl_takeBit (by decide), extendByte_eq,
    low_of_lt]
  exact b.toNat_lt

theorem extend_eq_foldl (fp : UInt64) (w : Int32) :
    extend fp w = ((List.range 32).map w.toBitVec.getLsbD).foldl takeBit fp := by
  rw [← flatMap_bytes, List.foldl_flatMap]
  unfold extend
  congr 1
  funext fp b
  exact extendByte_eq_foldl fp b

theorem extend_eq (fp : UInt64) (w : Int32) : extend fp w = shift^[32] (fp ^^^ w.toUInt32.toUInt64) := by
  rw [extend_eq_foldl, ← map_getLsbD_setWidth (by decide)]
  change ((List.range 32).map w.toUInt32.toUInt64.toBitVec.getLsbD).foldl takeBit fp = _
  rw [foldl_takeBit (by decide), low_of_lt]
  exact w.toUInt32.toNat_lt

theorem ofWords_eq_foldl (ws : List Int32) : ofWords ws = (bitsOf ws).foldl takeBit poly := by
  rw [bitsOf, List.foldl_flatMap]
  unfold ofWords
  congr 1
  funext fp w
  exact extend_eq_foldl fp w

end Bits

section Remainder

open Polynomial

/-- The polynomial for which a word stands. The constant term is the highest bit. -/
noncomputable def toPoly (t : UInt64) : (ZMod 2)[X] :=
  ∑ i ∈ Finset.range 64, if t.toBitVec.getMsbD i then X ^ i else 0

noncomputable def modulus : (ZMod 2)[X] := X ^ 64 + toPoly poly

noncomputable def ofBits (bs : List Bool) : (ZMod 2)[X] :=
  bs.foldl (fun p b => X * p + if b then 1 else 0) 0

theorem degree_toPoly (t : UInt64) : (toPoly t).degree < (64 : Nat) := by
  rw [← mem_degreeLT]
  apply Submodule.sum_mem
  intro i hi
  rw [mem_degreeLT]
  split
  · rw [degree_X_pow]
    exact_mod_cast Finset.mem_range.mp hi
  · exact degree_zero.trans_lt (WithBot.bot_lt_coe _)

theorem monic_modulus : modulus.Monic := monic_X_pow_add (degree_toPoly poly)

theorem degree_modulus : modulus.degree = (64 : Nat) := by
  rw [modulus, degree_add_eq_left_of_degree_lt, degree_X_pow]
  rw [degree_X_pow]
  exact degree_toPoly poly

theorem toPoly_xor (a b : UInt64) : toPoly (a ^^^ b) = toPoly a + toPoly b := by
  unfold toPoly
  rw [← Finset.sum_add_distrib]
  apply Finset.sum_congr rfl
  intro i _
  rw [UInt64.toBitVec_xor, BitVec.getMsbD_xor]
  cases a.toBitVec.getMsbD i <;> cases b.toBitVec.getMsbD i <;> simp [CharTwo.add_self_eq_zero]

theorem X_mul_toPoly (t : UInt64) :
    X * toPoly t = toPoly (t >>> 1) + if t.toBitVec.getLsbD 0 then X ^ 64 else 0 := by
  have hbit : ∀ i < 63, (t >>> 1).toBitVec.getMsbD (i + 1) = t.toBitVec.getMsbD i := by
    intro i hi
    change (t.toBitVec >>> 1).getMsbD (i + 1) = _
    rw [BitVec.getMsbD_ushiftRight]
    simp
    omega
  have hfirst : (t >>> 1).toBitVec.getMsbD 0 = false := by
    change (t.toBitVec >>> 1).getMsbD 0 = false
    simp [BitVec.getMsbD_ushiftRight]
  have hlast : t.toBitVec.getMsbD 63 = t.toBitVec.getLsbD 0 := by simp [BitVec.getMsbD]
  have hmul : ∀ i, X * (if t.toBitVec.getMsbD i then X ^ i else 0 : (ZMod 2)[X]) =
      if t.toBitVec.getMsbD i then X ^ (i + 1) else 0 := by
    intro i
    rw [mul_ite, mul_zero, ← pow_succ']
  unfold toPoly
  rw [Finset.mul_sum, Finset.sum_range_succ _ 63, Finset.sum_range_succ' _ 63, hfirst, hmul 63, hlast]
  simp only [Bool.false_eq_true, if_false, add_zero]
  rw [add_left_inj]
  apply Finset.sum_congr rfl
  intro i hi
  rw [hmul, hbit i (Finset.mem_range.mp hi)]

theorem toPoly_one : toPoly 1 = X ^ 63 := by
  have hbit : ∀ i ∈ Finset.range 64, (1 : UInt64).toBitVec.getMsbD i = decide (i = 63) := by decide
  unfold toPoly
  rw [Finset.sum_congr rfl fun i hi => by rw [hbit i hi]]
  simp

theorem modulus_dvd_shift (t : UInt64) : modulus ∣ X * toPoly t - toPoly (shift t) := by
  rw [X_mul_toPoly, shift_eq, toPoly_xor, add_sub_add_left_eq_sub]
  cases t.toBitVec.getLsbD 0 with
  | false => simp [toPoly]
  | true =>
    rw [if_pos rfl, if_pos rfl, CharTwo.sub_eq_add]
    exact dvd_rfl

theorem modulus_dvd_takeBit (fp : UInt64) (b : Bool) :
    modulus ∣ X * toPoly fp + X ^ 64 * (if b then 1 else 0) - toPoly (takeBit fp b) := by
  have hbit : toPoly b.toUInt64 = X ^ 63 * if b then 1 else 0 := by
    cases b with
    | false => simp [toPoly]
    | true => exact toPoly_one.trans (mul_one _).symm
  have hsum : X * toPoly (fp ^^^ b.toUInt64) = X * toPoly fp + X ^ 64 * if b then 1 else 0 := by
    rw [toPoly_xor, hbit]
    ring
  rw [← hsum, takeBit]
  exact modulus_dvd_shift _

theorem modulus_dvd_foldl_takeBit (fp : UInt64) (bs : List Bool) :
    modulus ∣ X ^ bs.length * toPoly fp + X ^ 64 * ofBits bs - toPoly (bs.foldl takeBit fp) := by
  induction bs using List.reverseRecOn with
  | nil => simp [ofBits]
  | append_singleton bs b ih =>
    have hbits : ofBits (bs ++ [b]) = X * ofBits bs + if b then 1 else 0 := by
      rw [ofBits, List.foldl_append]
      rfl
    have hstep := dvd_add (ih.mul_left X) (modulus_dvd_takeBit (bs.foldl takeBit fp) b)
    rw [List.foldl_append, List.length_append, hbits]
    convert hstep using 1
    simp only [List.foldl_cons, List.foldl_nil, List.length_singleton]
    ring

theorem toPoly_eq_modByMonic {p : (ZMod 2)[X]} {t : UInt64} (h : modulus ∣ p - toPoly t) :
    toPoly t = p %ₘ modulus := by
  have hself : toPoly t %ₘ modulus = toPoly t := by
    rw [modByMonic_eq_self_iff monic_modulus, degree_modulus]
    exact degree_toPoly t
  have hzero := (modByMonic_eq_zero_iff_dvd monic_modulus).mpr h
  rw [sub_modByMonic, hself, sub_eq_zero] at hzero
  exact hzero.symm

theorem length_bitsOf (ws : List Int32) : (bitsOf ws).length = 32 * ws.length := by
  induction ws with
  | nil => rfl
  | cons w ws ih =>
    rw [bitsOf, List.flatMap_cons, List.length_append, ← bitsOf, ih]
    simp
    omega

/-- Taking a byte in by the table is the same as eight shifts. So the fingerprint is what comes of shifting all
bits out, one after the other, and this is the remainder of the polynomial that they are the coefficients
of. -/
theorem ofWords_eq_reduction (fp : UInt64) (b : UInt8) (ws : List Int32) :
    extendByte fp b = shift^[8] (fp ^^^ b.toUInt64) ∧
      ofWords ws = (ws.flatMap bytes).foldl (fun fp b => shift^[8] (fp ^^^ b.toUInt64)) poly ∧
      ofWords ws = (bitsOf ws).foldl takeBit poly ∧
      toPoly (ofWords ws) =
        (X ^ (32 * ws.length) * toPoly poly + X ^ 64 * ofBits (bitsOf ws)) %ₘ modulus := by
  refine ⟨extendByte_eq fp b, ?_, ofWords_eq_foldl ws, ?_⟩
  · rw [List.foldl_flatMap]
    unfold ofWords extend
    simp only [← extendByte_eq]
  · rw [ofWords_eq_foldl, ← length_bitsOf]
    exact toPoly_eq_modByMonic (modulus_dvd_foldl_takeBit poly (bitsOf ws))

end Remainder

end Interleave.Fingerprint
