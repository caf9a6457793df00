import DeskCalculator.Value
import DeskCalculator.Proofs.DecimalText
import DeskCalculator.Proofs.NearestMultiple
import DeskCalculator.Proofs.Unpacking

namespace DeskCalculator.Value

open Binary64 (one count isNegative)
open Decimal Rounding

def lastPlaces (units : ℕ) : ℕ := halfEven (units * 10 ^ places) one

variable {units : ℕ} {x y : Float}

theorem lastPlaces_of_whole (n : ℕ) : lastPlaces (n * one) = n * 10 ^ places := by
  rw [lastPlaces, Nat.mul_right_comm]
  exact halfEven_of_multiple Binary64.one_pos _

theorem lastPlaces_mono {larger : ℕ} (h : units ≤ larger) : lastPlaces units ≤ lastPlaces larger :=
  halfEven_mono Binary64.one_pos (Nat.mul_le_mul_right _ h)

theorem lastPlaces_div_nonneg (units : ℕ) : (0 : ℚ) ≤ lastPlaces units / 10 ^ places := by
  positivity

theorem magnitude_of_whole (n : ℕ) : magnitude (n * one) = toString n := by
  rw [magnitude, if_pos (Nat.mul_mod_left n one), Nat.mul_div_cancel n Binary64.one_pos]

theorem isFixed_magnitude (h : ¬ one ∣ units) : IsFixed places (magnitude units) (lastPlaces units) := by
  rw [magnitude, if_neg (mt Nat.dvd_of_mod_eq_zero h), Nat.pow_eq]
  exact isFixed_fixed (by decide) _

theorem startsWithDigit_magnitude (units : ℕ) : StartsWithDigit (magnitude units) := by
  by_cases h : one ∣ units
  · obtain ⟨n, hunits⟩ := exists_eq_mul_left_of_dvd h
    rw [hunits, magnitude_of_whole]
    exact startsWithDigit_toString n
  · exact startsWithDigit_of_isFixed (isFixed_magnitude h)

/-- What is printed for a whole number is its rounding as well, so both kinds of text denote the
same function of the magnitude. -/
theorem unsignedValue_magnitude (units : ℕ) :
    unsignedValue (magnitude units).toList = lastPlaces units / 10 ^ places := by
  by_cases h : one ∣ units
  · obtain ⟨n, hunits⟩ := exists_eq_mul_left_of_dvd h
    rw [hunits, magnitude_of_whole, unsignedValue_toString, lastPlaces_of_whole]
    push_cast
    exact (mul_div_cancel_right₀ _ (by positivity)).symm
  · exact unsignedValue_of_isFixed (isFixed_magnitude h)

theorem format_of_isFinite (h : x.isFinite = true) :
    format x = signed (isNegative x) (magnitude (count x)) := by
  rw [format, Binary64.parts_of_isFinite h]
  rfl

theorem value_format (h : x.isFinite = true) :
    Decimal.value (format x) =
      if isNegative x then -(lastPlaces (count x) / 10 ^ places : ℚ)
      else lastPlaces (count x) / 10 ^ places := by
  rw [format_of_isFinite h, value_signed _ (startsWithDigit_magnitude _), unsignedValue_magnitude]

theorem abs_value_eq_natCast_iff {n : ℕ} : |Binary64.value x| = n ↔ count x = n * one := by
  have hone : (one : ℚ) ≠ 0 := Nat.cast_ne_zero.mpr Binary64.one_pos.ne'
  rw [Binary64.abs_value, Binary64.magnitude_eq, div_eq_iff hone, ← Nat.cast_mul, Nat.cast_inj]

theorem nearestMultiple_lastPlaces (x : Float) :
    NearestMultiple (1 / 10 ^ places) |Binary64.value x| (lastPlaces (count x)) := by
  have hvalue : |Binary64.value x| = ((count x * 10 ^ places : ℕ) / one : ℚ) * (1 / 10 ^ places) := by
    rw [Binary64.abs_value, Binary64.magnitude_eq, mul_one_div, div_right_comm, Nat.cast_mul, Nat.cast_pow]
    exact congrArg (· / (one : ℚ)) (mul_div_cancel_right₀ _ (by positivity)).symm
  rw [hvalue]
  exact nearestMultiple_halfEven Binary64.one_pos (by positivity) _

theorem count_le_count_of_magnitude (h : Binary64.magnitude x ≤ Binary64.magnitude y) : count x ≤ count y := by
  rw [Binary64.magnitude_eq, Binary64.magnitude_eq] at h
  have hone : (0 : ℚ) < one := Nat.cast_pos.mpr Binary64.one_pos
  exact Nat.cast_le.mp ((div_le_div_iff_of_pos_right hone).mp h)

theorem lastPlaces_le_lastPlaces (h : Binary64.magnitude x ≤ Binary64.magnitude y) :
    (lastPlaces (count x) / 10 ^ places : ℚ) ≤ lastPlaces (count y) / 10 ^ places := by
  apply div_le_div_of_nonneg_right _ (by positivity)
  exact Nat.cast_le.mpr (lastPlaces_mono (count_le_count_of_magnitude h))

theorem lastPlaces_of_magnitude_nonpos (h : Binary64.magnitude x ≤ 0) : lastPlaces (count x) = 0 := by
  have hzero : count x = 0 * one := by
    apply abs_value_eq_natCast_iff.mp
    rw [Binary64.abs_value, Nat.cast_zero]
    exact le_antisymm h (Binary64.magnitude_nonneg x)
  rw [hzero, lastPlaces_of_whole, Nat.zero_mul]

theorem value_format_le_value_format (hx : x.isFinite = true) (hy : y.isFinite = true) (h : x ≤ y) :
    Decimal.value (format x) ≤ Decimal.value (format y) := by
  have hvalue := Binary64.value_le_value hx hy h
  rw [value_format hx, value_format hy]
  cases hsx : isNegative x <;> cases hsy : isNegative y
  · rw [Binary64.value_of_positive hsx, Binary64.value_of_positive hsy] at hvalue
    exact lastPlaces_le_lastPlaces hvalue
  · rw [Binary64.value_of_positive hsx, Binary64.value_of_negative hsy] at hvalue
    have hxzero := hvalue.trans (neg_nonpos.mpr (Binary64.magnitude_nonneg y))
    have hyzero := neg_nonneg.mp ((Binary64.magnitude_nonneg x).trans hvalue)
    rw [lastPlaces_of_magnitude_nonpos hxzero, lastPlaces_of_magnitude_nonpos hyzero]
    simp
  · exact (neg_nonpos.mpr (lastPlaces_div_nonneg _)).trans (lastPlaces_div_nonneg _)
  · rw [Binary64.value_of_negative hsx, Binary64.value_of_negative hsy] at hvalue
    exact neg_le_neg (lastPlaces_le_lastPlaces (neg_le_neg_iff.mp hvalue))

/-- The digits of a whole number are its own, and those of any other denote the nearest multiple of
a ten thousandth. The texts are in the order of the numbers, whichever kind they are of. -/
theorem format_correctly_rounded (h : x.isFinite = true) :
    ((format x).toList.head? = some '-' ↔ isNegative x = true) ∧
      (∀ n : ℕ, |Binary64.value x| = n →
        format x = signed (isNegative x) (toString n) ∧ '.' ∉ (format x).toList) ∧
      ((∀ n : ℕ, |Binary64.value x| ≠ n) → ∃ text m, format x = signed (isNegative x) text ∧
        IsFixed 4 text m ∧ NearestMultiple (1 / 10 ^ 4) |Binary64.value x| m) ∧
      ∀ y : Float, y.isFinite = true → x ≤ y → Decimal.value (format x) ≤ Decimal.value (format y) := by
  have htext := format_of_isFinite h
  refine ⟨?_, ?_, ?_, fun y hy hle => value_format_le_value_format h hy hle⟩
  · rw [htext]
    exact head?_signed _ (startsWithDigit_magnitude _)
  · intro n hn
    rw [htext, abs_value_eq_natCast_iff.mp hn, magnitude_of_whole]
    exact ⟨rfl, point_not_mem_signed_toString _ n⟩
  · intro hfractional
    have hdvd : ¬ one ∣ count x := by
      intro hdvd
      obtain ⟨n, hn⟩ := exists_eq_mul_left_of_dvd hdvd
      exact hfractional n (abs_value_eq_natCast_iff.mpr hn)
    exact ⟨_, _, htext, isFixed_magnitude hdvd, nearestMultiple_lastPlaces x⟩

example : format 2.99996 = "3.0000" := by decide +kernel

theorem abs_value_one_thirty_second : |Binary64.value 0.03125| = 1 / 32 := by
  have hexponent : Binary64.exponentField 0.03125 = 1018 := by decide +kernel
  have hfraction : Binary64.fractionField 0.03125 = 0 := by decide +kernel
  rw [Binary64.abs_value, Binary64.magnitude, hexponent, hfraction]
  norm_num

theorem abs_value_minus_three : |Binary64.value (-3)| = (3 : ℕ) := by
  have hexponent : Binary64.exponentField (-3) = 1024 := by decide +kernel
  have hfraction : Binary64.fractionField (-3) = 2 ^ 51 := by decide +kernel
  rw [Binary64.abs_value, Binary64.magnitude, hexponent, hfraction]
  norm_num

theorem format_correctly_rounded_tie :
    (format (-3) = signed (isNegative (-3)) (toString 3) ∧ '.' ∉ (format (-3)).toList) ∧
      (∃ text m, format 0.03125 = signed (isNegative 0.03125) text ∧ IsFixed 4 text m ∧
        NearestMultiple (1 / 10 ^ 4) |Binary64.value 0.03125| m) ∧
      format 0.03125 = "0.0312" ∧ Decimal.value (format (-3)) ≤ Decimal.value (format 0.03125) := by
  have hwhole : Float.isFinite (-3) = true := by decide +kernel
  have htie : Float.isFinite 0.03125 = true := by decide +kernel
  have hle : (-3 : Float) ≤ 0.03125 := by decide +kernel
  have hfractional (n : ℕ) : |Binary64.value 0.03125| ≠ n := by
    rw [abs_value_one_thirty_second]
    intro hn
    have hmultiple : ((n * 32 : ℕ) : ℚ) = (1 : ℕ) := by
      push_cast
      linarith
    have : n * 32 = 1 := Nat.cast_injective hmultiple
    omega
  exact ⟨(format_correctly_rounded hwhole).2.1 3 abs_value_minus_three,
    (format_correctly_rounded htie).2.2.1 hfractional, by decide +kernel,
    (format_correctly_rounded hwhole).2.2.2 0.03125 htie hle⟩

end DeskCalculator.Value
