import DeskCalculator.Proofs.ExactValue
import Mathlib

namespace DeskCalculator.Binary64

open Float.Model.UnpackedFloat

variable {x y : Float}

abbrev double : Float.Model.Format := Float.Model.Format.binary64

variable (b : BitVec 64)

theorem toNat_unpackMantissa : (@unpackMantissa double b).toNat = b.toNat % 2 ^ 52 := by
  simp [unpackMantissa]

theorem toNat_unpackExponent : (@unpackExponent double b).toNat = b.toNat / 2 ^ 52 % 2 ^ 11 := by
  simp [unpackExponent, Nat.shiftRight_eq_div_pow]

theorem toNat_unpackSign : (@unpackSign double b).toNat = b.toNat / 2 ^ 63 := by
  have hlt := b.isLt
  simp [unpackSign, Nat.shiftRight_eq_div_pow]
  omega

theorem toNat_leading_one_append (m : BitVec 52) : (1#1 ++ m).toNat = 2 ^ 52 + m.toNat := by
  rw [BitVec.toNat_append, ← Nat.shiftLeft_add_eq_or_of_lt m.isLt]
  simp [Nat.shiftLeft_eq]

def sign (x : Float) : Sign := bif isNegative x then .negative else .positive

theorem unpackSign_eq (x : Float) : Sign.ofBitVec (@unpackSign double x.toBits.toBitVec) = sign x := by
  have hlt := x.toBits.toNat_lt
  have hbit := toNat_unpackSign x.toBits.toBitVec
  have hpositive : @unpackSign double x.toBits.toBitVec = 0#1 ↔ x.toBits.toNat < 2 ^ 63 := by
    rw [← BitVec.toNat_inj, hbit]
    change x.toBits.toNat / 2 ^ 63 = 0 ↔ _
    omega
  simp only [sign, isNegative, Sign.ofBitVec, Nat.pow_eq, hpositive, cond_eq_ite, decide_eq_true_eq,
    ← Nat.not_lt, ite_not]

theorem exists_finite_eq {s : Sign} {m m' : ℕ} {e e' : ℤ} {hpos : 0 < m} (hm : m = m') (he : e = e') :
    ∃ hpos', finite s m e hpos = finite s m' e' hpos' := by
  subst hm he
  exact ⟨hpos, rfl⟩

/-- The library unpacks a number into the same significand and shift, but keeps zero apart. -/
theorem unpack_of_isFinite (h : x.isFinite = true) :
    (significand (pattern x) = 0 ∧ x.toModel.unpack = .zero (sign x)) ∨
      ∃ hpos, x.toModel.unpack =
        .finite (sign x) (significand (pattern x)) (shift (pattern x) - 1074) hpos := by
  revert h
  change (unpack double x.toBits.toBitVec).isFinite = true →
    (_ ∧ unpack double x.toBits.toBitVec = _) ∨ ∃ _, unpack double x.toBits.toBitVec = _
  rw [← unpackSign_eq]
  have hmantissa := toNat_unpackMantissa x.toBits.toBitVec
  have hexponent := toNat_unpackExponent x.toBits.toBitVec
  have hfraction := fractionField_eq x
  have hfield := exponentField_eq x
  rw [fractionField, ← UInt64.toNat_toBitVec, ← hmantissa] at hfraction
  rw [exponentField, ← UInt64.toNat_toBitVec, ← hexponent] at hfield
  have hzero : @unpackExponent double x.toBits.toBitVec = 0#11 ↔ pattern x < 2 ^ 52 := by
    rw [← BitVec.toNat_inj, hfield]
    exact Nat.div_eq_zero_iff_lt (by decide)
  simp only [significand, shift, Nat.pow_eq]
  fun_cases unpack double x.toBits.toBitVec with
  | case1 =>
    intro h
    cases h
  | case2 =>
    intro h
    cases h
  | case3 mantissa exponent _ _ _ hexp hman =>
    intro
    left
    have hsmall := hzero.mp hexp
    have hnone : pattern x % 2 ^ 52 = 0 := hfraction.symm.trans (congrArg BitVec.toNat hman)
    rw [if_pos hsmall, ← Nat.mod_eq_of_lt hsmall]
    exact ⟨hnone, rfl⟩
  | case4 mantissa exponent _ _ _ _ hexp _ =>
    intro
    right
    have hsmall := hzero.mp hexp
    apply exists_finite_eq
    · rw [if_pos hsmall]
      exact hfraction.trans (Nat.mod_eq_of_lt hsmall)
    · change ((@unpackExponent double x.toBits.toBitVec).toNat : ℤ) - (1023 + 52) + 1 = _
      omega
  | case5 mantissa exponent _ _ _ _ hexp =>
    intro
    right
    have hlarge := mt hzero.mpr hexp
    apply exists_finite_eq
    · rw [if_neg hlarge, ← hfraction]
      exact toNat_leading_one_append _
    · change ((@unpackExponent double x.toBits.toBitVec).toNat : ℤ) - (1023 + 52) = _
      omega

theorem exponentField_ne_of_isFinite (h : x.isFinite = true) : exponentField x ≠ 2047 := by
  intro hfield
  have hexponent : @unpackExponent double x.toBits.toBitVec = -1#11 := by
    apply BitVec.eq_of_toNat_eq
    rw [toNat_unpackExponent]
    exact hfield
  change (unpack double x.toBits.toBitVec).isFinite = true at h
  rw [unpack, if_pos hexponent] at h
  split at h <;> cases h

theorem pattern_lt_infinity (h : x.isFinite = true) : pattern x < infinity := by
  have hfield := exponentField_ne_of_isFinite h
  have hbound : exponentField x < 2 ^ 11 := Nat.mod_lt _ (by decide)
  rw [exponentField_eq] at hfield hbound
  rw [infinity, Nat.pow_eq]
  omega

theorem parts_of_isFinite (h : x.isFinite = true) :
    parts x = .finite (isNegative x) (significand (pattern x)) (shift (pattern x)) := by
  have hlt := pattern_lt_infinity h
  rw [parts, if_neg hlt.not_gt, if_neg hlt.ne]

theorem value_of_significand_eq_zero (h : significand (pattern x) = 0) : value x = 0 := by
  rw [← abs_eq_zero, abs_value, magnitude_eq, count, units, h, Nat.zero_mul, Nat.cast_zero, zero_div]

theorem magnitude_le_magnitude
    (h : ((compare ((shift (pattern x) : ℤ) - 1074) (shift (pattern y) - 1074)).then
      (compare (significand (pattern x)) (significand (pattern y)))).isLE = true) :
    magnitude x ≤ magnitude y := by
  rw [magnitude_eq, magnitude_eq]
  apply div_le_div_of_nonneg_right _ (Nat.cast_nonneg one)
  apply Nat.cast_le.mpr
  apply count_le_count
  rw [Ordering.isLE_then_iff_or, Nat.isLE_compare, compare_lt_iff_lt, compare_eq_iff_eq] at h
  omega

/-- The library compares exponents before it compares mantissas. That is the order of the numbers,
since only the least exponent has mantissas without a leading bit. -/
theorem value_le_value (hx : x.isFinite = true) (hy : y.isFinite = true) (h : x ≤ y) :
    value x ≤ value y := by
  have hle : x.toModel.unpack.le y.toModel.unpack = true := of_decide_eq_true h
  rcases unpack_of_isFinite hx with ⟨hxzero, hux⟩ | ⟨hxpos, hux⟩ <;>
    rcases unpack_of_isFinite hy with ⟨hyzero, huy⟩ | ⟨hypos, huy⟩ <;>
    rw [hux, huy, sign, sign] at hle
  · rw [value_of_significand_eq_zero hxzero, value_of_significand_eq_zero hyzero]
  · rw [value_of_significand_eq_zero hxzero]
    cases hsy : isNegative y with
    | true =>
      rw [hsy] at hle
      exact absurd hle Bool.false_ne_true
    | false =>
      rw [value_of_positive hsy]
      exact magnitude_nonneg y
  · rw [value_of_significand_eq_zero hyzero]
    cases hsx : isNegative x with
    | true =>
      rw [value_of_negative hsx]
      exact neg_nonpos.mpr (magnitude_nonneg x)
    | false =>
      rw [hsx] at hle
      exact absurd hle Bool.false_ne_true
  · cases hsx : isNegative x <;> cases hsy : isNegative y <;> rw [hsx, hsy] at hle
    · rw [value_of_positive hsx, value_of_positive hsy]
      exact magnitude_le_magnitude hle
    · exact absurd hle Bool.false_ne_true
    · rw [value_of_negative hsx, value_of_positive hsy]
      exact (neg_nonpos.mpr (magnitude_nonneg x)).trans (magnitude_nonneg y)
    · rw [value_of_negative hsx, value_of_negative hsy]
      apply neg_le_neg
      apply magnitude_le_magnitude
      change Ordering.isLE (Ordering.swap _) = true at hle
      rw [Ordering.swap_then, Int.compare_swap, Nat.compare_swap] at hle
      exact hle

/-- No part of the library has its lemma that the bits of a number make it up again. -/
theorem ofPattern_pattern (x : Float) : ofPattern (isNegative x) (pattern x) = x := by
  have hlt := x.toBits.toNat_lt
  have hbits : (if isNegative x then Nat.pow 2 63 + pattern x else pattern x) = x.toBits.toNat := by
    simp only [isNegative, pattern, Nat.pow_eq, decide_eq_true_eq]
    split <;> omega
  rw [ofPattern, hbits, UInt64.ofNat_toNat, Float.ofBits_toBits]

end DeskCalculator.Binary64
