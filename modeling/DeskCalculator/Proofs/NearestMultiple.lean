import DeskCalculator.Binary64
import Mathlib.Algebra.Order.Field.Basic
import Mathlib.Algebra.Order.Ring.Abs
import Mathlib.Data.Rat.Cast.Order
import Mathlib.Tactic.FieldSimp
import Mathlib.Tactic.Linarith
import Mathlib.Tactic.NormNum
import Mathlib.Tactic.Positivity

namespace DeskCalculator.Rounding

/-- No multiple of the unit is nearer to the number than this one, and if another one is just as
near, this one is the even one. -/
structure NearestMultiple (unit x : ℚ) (m : ℕ) : Prop where
  nearest : ∀ k : ℤ, |x - m * unit| ≤ |x - k * unit|
  tie : ∀ k : ℤ, k ≠ m → |x - k * unit| = |x - m * unit| → Even m

variable {numerator denominator : ℕ}

theorem halfEven_bounds (h : 0 < denominator) (numerator : ℕ) :
    2 * (halfEven numerator denominator * denominator) ≤ 2 * numerator + denominator ∧
      2 * numerator ≤ 2 * (halfEven numerator denominator * denominator) + denominator := by
  have hdiv := Nat.div_add_mod' numerator denominator
  have hmod := Nat.mod_lt numerator h
  simp only [halfEven]
  split
  · rw [Nat.add_mul]
    omega
  · split
    · rcases Nat.mod_two_eq_zero_or_one (numerator / denominator) with hparity | hparity
      · rw [hparity, Nat.add_zero]
        omega
      · rw [hparity, Nat.add_mul]
        omega
    · omega

theorem even_halfEven_of_tie (h : 0 < denominator)
    (htie : 2 * (halfEven numerator denominator * denominator) = 2 * numerator + denominator ∨
      2 * numerator = 2 * (halfEven numerator denominator * denominator) + denominator) :
    Even (halfEven numerator denominator) := by
  have hdiv := Nat.div_add_mod' numerator denominator
  have hmod := Nat.mod_lt numerator h
  rw [Nat.even_iff]
  simp only [halfEven] at htie ⊢
  split at htie
  next hup =>
    rw [Nat.add_mul] at htie
    omega
  next =>
    split at htie
    next hhalf =>
      rw [if_neg (by omega), if_pos hhalf]
      omega
    next => omega

theorem halfEven_of_multiple (h : 0 < denominator) (m : ℕ) :
    halfEven (m * denominator) denominator = m := by
  simp [halfEven, Nat.mul_div_cancel m h, h.ne]

/-- Were the larger quotient rounded to less, both of them would lie half way between two numbers
in a row, and each of these would be even. -/
theorem halfEven_mono (h : 0 < denominator) {larger : ℕ} (hle : numerator ≤ larger) :
    halfEven numerator denominator ≤ halfEven larger denominator := by
  by_contra hlt
  have hstep : halfEven larger denominator + 1 ≤ halfEven numerator denominator := Nat.lt_of_not_le hlt
  have hscaled := Nat.mul_le_mul_right denominator hstep
  rw [Nat.add_mul, Nat.one_mul] at hscaled
  obtain ⟨hsmall, -⟩ := halfEven_bounds h numerator
  obtain ⟨-, hlarge⟩ := halfEven_bounds h larger
  have heven : Even (halfEven numerator denominator) := even_halfEven_of_tie h (.inl (by omega))
  have heven' : Even (halfEven larger denominator) := even_halfEven_of_tie h (.inr (by omega))
  have hnext : halfEven numerator denominator = halfEven larger denominator + 1 := by
    apply Nat.eq_of_mul_eq_mul_right h
    rw [Nat.add_mul, Nat.one_mul]
    omega
  rw [hnext, Nat.even_add_one] at heven
  exact heven heven'

theorem nearestMultiple_of_abs_le_half {unit x : ℚ} (hunit : 0 < unit) {m : ℕ}
    (hhalf : |x - m * unit| ≤ unit / 2) (htie : |x - m * unit| = unit / 2 → Even m) :
    NearestMultiple unit x m := by
  have hother (k : ℤ) (hk : k ≠ m) : unit / 2 ≤ |x - k * unit| := by
    have hone : (1 : ℚ) ≤ |(k : ℚ) - m| := by exact_mod_cast Int.one_le_abs (sub_ne_zero.mpr hk)
    have hapart : unit ≤ |(k : ℚ) * unit - m * unit| := by
      rw [← sub_mul, abs_mul, abs_of_pos hunit]
      exact le_mul_of_one_le_left hunit.le hone
    have htriangle := abs_sub_le (k * unit) x (m * unit)
    rw [abs_sub_comm (k * unit) x] at htriangle
    linarith
  constructor
  · intro k
    by_cases hk : k = m
    · rw [hk, Int.cast_natCast]
    · exact hhalf.trans (hother k hk)
  · intro k hk heq
    have hle := hother k hk
    exact htie (by linarith)

theorem nearestMultiple_halfEven (h : 0 < denominator) {unit : ℚ} (hunit : 0 < unit) (numerator : ℕ) :
    NearestMultiple unit (numerator / denominator * unit) (halfEven numerator denominator) := by
  have hpart : 0 < unit / denominator := by positivity
  have hdistance : |(numerator / denominator : ℚ) * unit - halfEven numerator denominator * unit| =
      |(numerator : ℚ) - halfEven numerator denominator * denominator| * (unit / denominator) := by
    have hparts : (numerator / denominator : ℚ) * unit - halfEven numerator denominator * unit =
        ((numerator : ℚ) - halfEven numerator denominator * denominator) * (unit / denominator) := by
      field_simp
    rw [hparts, abs_mul, abs_of_pos hpart]
  have hhalf : unit / 2 = (denominator / 2 : ℚ) * (unit / denominator) := by field_simp
  obtain ⟨hbelow, habove⟩ := halfEven_bounds h numerator
  apply nearestMultiple_of_abs_le_half hunit
  · rw [hdistance, hhalf]
    apply mul_le_mul_of_nonneg_right _ hpart.le
    have hbelow' : (2 : ℚ) * (halfEven numerator denominator * denominator) ≤ 2 * numerator + denominator := by
      exact_mod_cast hbelow
    have habove' : (2 : ℚ) * numerator ≤ 2 * (halfEven numerator denominator * denominator) + denominator := by
      exact_mod_cast habove
    exact abs_le.mpr ⟨by linarith, by linarith⟩
  · intro htie
    rw [hdistance, hhalf] at htie
    have hequal := mul_right_cancel₀ hpart.ne' htie
    apply even_halfEven_of_tie h
    rcases abs_choice ((numerator : ℚ) - halfEven numerator denominator * denominator) with habs | habs
    · rw [habs] at hequal
      right
      have : (2 : ℚ) * numerator = 2 * (halfEven numerator denominator * denominator) + denominator := by
        linarith
      exact_mod_cast this
    · rw [habs] at hequal
      left
      have : (2 : ℚ) * (halfEven numerator denominator * denominator) = 2 * numerator + denominator := by
        linarith
      exact_mod_cast this

end DeskCalculator.Rounding
