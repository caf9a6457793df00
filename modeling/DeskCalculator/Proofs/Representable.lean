import DeskCalculator.Proofs.ExactValue
import DeskCalculator.Proofs.NearestMultiple

namespace DeskCalculator.Binary64

variable {p numerator denominator : ℕ}

theorem shift_add_significand (p : ℕ) : shift p * 2 ^ 52 + significand p = p := by
  simp only [shift, significand, Nat.pow_eq]
  split <;> omega

/-- Only patterns without a shift lack the leading bit, so the shift can be told from the number of
binary digits. -/
theorem log2_units (p : ℕ) : (units (significand p) (shift p)).log2 - 52 = shift p := by
  have hlt := significand_lt p
  rw [units, Nat.pow_eq]
  rcases Nat.eq_zero_or_pos (shift p) with hzero | hpos
  · rw [hzero, Nat.pow_zero, Nat.mul_one, Nat.sub_eq_zero_iff_le]
    rcases Nat.eq_zero_or_pos (significand p) with hnone | hsome
    · rw [hnone]
      decide
    · exact Nat.le_of_lt_succ ((Nat.log2_lt hsome.ne').mpr hlt)
  · have hleading := le_significand hpos
    have hne : significand p * 2 ^ shift p ≠ 0 := by positivity
    have hlog : (significand p * 2 ^ shift p).log2 = 52 + shift p := by
      rw [Nat.log2_eq_iff hne, Nat.pow_add, Nat.add_right_comm, Nat.pow_add]
      exact ⟨Nat.mul_le_mul_right _ hleading, Nat.mul_lt_mul_of_pos_right hlt (by positivity)⟩
    rw [hlog, Nat.add_sub_cancel_left]

theorem nearest_of_exact (hdenominator : 0 < denominator)
    (h : numerator * one = units (significand p) (shift p) * denominator) (hp : p ≤ infinity) :
    nearest numerator denominator = p := by
  have hquotient : numerator * one / denominator = units (significand p) (shift p) := by
    rw [h, Nat.mul_div_cancel _ hdenominator]
  have hscaled : numerator * one = significand p * (denominator * Nat.pow 2 (shift p)) := by
    rw [h, units, Nat.mul_assoc, Nat.mul_comm denominator]
  have hpositive : 0 < denominator * Nat.pow 2 (shift p) := by
    rw [Nat.pow_eq]
    positivity
  simp only [nearest, hquotient, log2_units]
  rw [hscaled, Rounding.halfEven_of_multiple hpositive, Nat.pow_eq, shift_add_significand,
    Nat.min_eq_left hp]

end DeskCalculator.Binary64
