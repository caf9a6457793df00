import DeskCalculator.Binary64
import Mathlib.Algebra.Order.Field.Basic
import Mathlib.Data.Rat.Cast.Order
import Mathlib.Tactic.Positivity
import Mathlib.Tactic.Ring

namespace DeskCalculator

namespace Binary64

def exponentField (x : Float) : ℕ := x.toBits.toNat / 2 ^ 52 % 2 ^ 11

def fractionField (x : Float) : ℕ := x.toBits.toNat % 2 ^ 52

def magnitude (x : Float) : ℚ :=
  if exponentField x = 0 then fractionField x * 2 ^ (-1074 : ℤ)
  else (2 ^ 52 + fractionField x) * 2 ^ ((exponentField x : ℤ) - 1075)

/-- The number that the bits of a finite number denote. -/
def value (x : Float) : ℚ := if isNegative x then -magnitude x else magnitude x

def count (x : Float) : ℕ := units (significand (pattern x)) (shift (pattern x))

variable {x y : Float}

theorem one_pos : 0 < one := by
  rw [one, Nat.pow_eq]
  positivity

theorem exponentField_eq (x : Float) : exponentField x = pattern x / 2 ^ 52 := by
  simp only [exponentField, pattern, Nat.pow_eq]
  omega

theorem fractionField_eq (x : Float) : fractionField x = pattern x % 2 ^ 52 := by
  simp only [fractionField, pattern, Nat.pow_eq]
  omega

theorem significand_lt (p : ℕ) : significand p < 2 ^ 53 := by
  simp only [significand, Nat.pow_eq]
  split <;> omega

theorem le_significand {p : ℕ} (h : 0 < shift p) : 2 ^ 52 ≤ significand p := by
  simp only [significand, shift, Nat.pow_eq] at h ⊢
  split <;> omega

theorem units_div_two (m s e : ℕ) : (units m s / Nat.pow 2 e : ℚ) = m * 2 ^ ((s : ℤ) - e) := by
  rw [units, Nat.pow_eq, Nat.pow_eq, zpow_sub₀ two_ne_zero, zpow_natCast, zpow_natCast]
  push_cast
  rw [mul_div_assoc]

theorem units_div_one (m s : ℕ) : (units m s / one : ℚ) = m * 2 ^ ((s : ℤ) - 1074) :=
  units_div_two m s 1074

theorem magnitude_eq (x : Float) : magnitude x = count x / one := by
  rw [count, units_div_one, magnitude, exponentField_eq, fractionField_eq]
  simp only [significand, shift, Nat.pow_eq]
  split
  next hzero =>
    have hsmall : pattern x < 2 ^ 52 := by omega
    rw [if_pos hsmall, hzero, Nat.mod_eq_of_lt hsmall]
    rfl
  next hfield =>
    have hlarge : ¬ pattern x < 2 ^ 52 := by omega
    have hshift : ((pattern x / 2 ^ 52 : ℕ) : ℤ) - 1075 = ((pattern x / 2 ^ 52 - 1 : ℕ) : ℤ) - 1074 := by
      omega
    rw [if_neg hlarge, hshift]
    push_cast
    rfl

theorem magnitude_nonneg (x : Float) : 0 ≤ magnitude x := by
  rw [magnitude_eq]
  positivity

theorem abs_value (x : Float) : |value x| = magnitude x := by
  rw [value]
  split
  · rw [abs_neg, abs_of_nonneg (magnitude_nonneg x)]
  · exact abs_of_nonneg (magnitude_nonneg x)

theorem value_of_positive (h : isNegative x = false) : value x = magnitude x :=
  if_neg (ne_true_of_eq_false h)

theorem value_of_negative (h : isNegative x = true) : value x = -magnitude x :=
  if_pos h

theorem count_le_count (h : shift (pattern x) < shift (pattern y) ∨
    shift (pattern x) = shift (pattern y) ∧ significand (pattern x) ≤ significand (pattern y)) :
    count x ≤ count y := by
  simp only [count, units, Nat.pow_eq]
  rcases h with hshift | ⟨hshift, hsignificand⟩
  · calc significand (pattern x) * 2 ^ shift (pattern x)
        ≤ 2 ^ 53 * 2 ^ shift (pattern x) := Nat.mul_le_mul_right _ (significand_lt _).le
      _ = 2 ^ 52 * 2 ^ (shift (pattern x) + 1) := by ring
      _ ≤ significand (pattern y) * 2 ^ shift (pattern y) :=
        Nat.mul_le_mul (le_significand (by omega)) (Nat.pow_le_pow_right two_pos hshift)
  · rw [hshift]
    exact Nat.mul_le_mul_right _ hsignificand

end Binary64

end DeskCalculator
