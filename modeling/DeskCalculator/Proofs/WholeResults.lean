import DeskCalculator.Proofs.CorrectRounding
import DeskCalculator.Proofs.Rendering
import DeskCalculator.Proofs.Representable
import DeskCalculator.Proofs.Trimming

namespace DeskCalculator

open Binary64 (isNegative pattern one)
open Character Token

variable {n : ℕ} {x : Float}

namespace Numeral

theorem decimal?_toDigits (n : ℕ) : decimal? (Nat.toDigits 10 n) = some (scaled n 0) := by
  have hdigits : ∀ c ∈ Nat.toDigits 10 n, c.isDigit = true := fun _ h => Decimal.isDigit_of_mem_toDigits h
  have hwhole : (Nat.toDigits 10 n).takeWhile Char.isDigit = Nat.toDigits 10 n :=
    List.takeWhile_eq_self_iff.mpr hdigits
  have hrest : (Nat.toDigits 10 n).dropWhile Char.isDigit = [] := List.dropWhile_eq_nil_iff.mpr hdigits
  have hne : (Nat.toDigits 10 n).isEmpty = false := List.isEmpty_eq_false_iff.mpr Nat.toDigits_ne_nil
  simp only [decimal?, hwhole, hrest, splitFraction, hne, Bool.false_and, Bool.false_eq_true, if_false,
    exponent?, Option.map_some, List.append_nil, Nat.ofDigitChars_ten_toDigits]
  rfl

theorem read?_signed (negative : Bool) (n : ℕ) :
    read? (Decimal.signed negative (toString n)) = some (Binary64.ofPattern negative (scaled n 0)) := by
  simp only [read?, Decimal.splitSign_signed negative (Decimal.startsWithDigit_toString n),
    Decimal.toList_toString, decimal?_toDigits]
  rfl

theorem scaled_of_whole {p : ℕ} (hp : p ≤ Binary64.infinity)
    (h : Binary64.units (Binary64.significand p) (Binary64.shift p) = n * one) : scaled n 0 = p := by
  have hnearest : Binary64.nearest n 1 = p :=
    Binary64.nearest_of_exact Nat.one_pos (by rw [h, Nat.mul_one]) hp
  rw [← hnearest]
  rcases Nat.eq_zero_or_pos n with rfl | hpos
  · simp [scaled, Binary64.nearest, Rounding.halfEven]
  · unfold scaled
    rw [if_neg hpos.ne', if_neg (by decide), if_neg (by omega)]
    exact congrArg (Binary64.nearest · 1) (Nat.mul_one n)

end Numeral

theorem Postfix.evaluate_singleton (store : Store) (text : String) :
    evaluate store [.number text] = numeralValue store text := by
  rw [evaluate, List.foldlM_cons, step]
  cases numeralValue store text <;> rfl

namespace Expression

theorem evaluate_number {text : String} (h : (number text).isLexical = true) (store : Store) :
    evaluate store text = Postfix.numeralValue store text := by
  have htokens : tokenize (Blank.trim text) = .ok [.number text] :=
    tokenize_trim ((tokenize_eq_ok_iff _ _).mpr (lexes_text h))
  rw [evaluate_eq_bind htokens (List.cons_ne_nil _ _), toPostfix_eq_ofInfix htokens rfl]
  exact Postfix.evaluate_singleton store text

end Expression

namespace Value

theorem isLexical_signed (negative : Bool) (n : ℕ) :
    (number (Decimal.signed negative (toString n))).isLexical = true := by
  have hrun : Run isNumericPart (Nat.toDigits 10 n) [] := by
    refine ⟨Nat.toDigits_ne_nil, fun c hc => ?_, nofun⟩
    rw [isNumericPart, Decimal.isDigit_of_mem_toDigits hc]
    rfl
  rw [isLexical_number_iff]
  refine ⟨_, hrun, ?_⟩
  cases negative with
  | false => exact .inl (Decimal.toList_toString n)
  | true =>
      right
      rw [Decimal.toList_signed_true, Decimal.toList_toString]

theorem exists_abs_value_of_fract (h : Int.fract (Binary64.value x) = 0) :
    ∃ n : ℕ, |Binary64.value x| = n := by
  obtain ⟨k, hk⟩ := Int.fract_eq_zero_iff.mp h
  exact ⟨k.natAbs, by rw [← hk, Nat.cast_natAbs, Int.cast_abs]⟩

theorem fract_value_largest : Int.fract (Binary64.value (Float.ofBits 0x7FEFFFFFFFFFFFFF)) = 0 := by
  have hexponent : Binary64.exponentField (Float.ofBits 0x7FEFFFFFFFFFFFFF) = 2046 := by decide +kernel
  have hfraction : Binary64.fractionField (Float.ofBits 0x7FEFFFFFFFFFFFFF) = 2 ^ 52 - 1 := by decide +kernel
  have hpositive : isNegative (Float.ofBits 0x7FEFFFFFFFFFFFFF) = false := by decide +kernel
  have hvalue : Binary64.value (Float.ofBits 0x7FEFFFFFFFFFFFFF) = (((2 ^ 53 - 1) * 2 ^ 971 : ℕ) : ℚ) := by
    have hshift : ((2046 : ℕ) : ℤ) - 1075 = (971 : ℕ) := rfl
    rw [Binary64.value_of_positive hpositive, Binary64.magnitude, hexponent, hfraction,
      if_neg (by decide), hshift, zpow_natCast, Nat.cast_mul, Nat.cast_pow, Nat.cast_two]
    congr 1
    norm_num
  rw [hvalue, Int.fract_natCast]

/-- The digits of a whole number are all there, and with its sign they read back as the same number
to the bit, zero with a sign included. -/
theorem evaluate_format_of_whole (hfinite : x.isFinite = true) (hwhole : Int.fract (Binary64.value x) = 0)
    (store : Store) : Expression.evaluate store (format x) = .ok x := by
  obtain ⟨n, hn⟩ := exists_abs_value_of_fract hwhole
  have hcount := abs_value_eq_natCast_iff.mp hn
  have hread : Numeral.read? (format x) = some x := by
    rw [format_of_isFinite hfinite, hcount, magnitude_of_whole, Numeral.read?_signed,
      Numeral.scaled_of_whole (Binary64.pattern_lt_infinity hfinite).le hcount, Binary64.ofPattern_pattern]
  have hlexical : (number (format x)).isLexical = true := by
    rw [format_of_isFinite hfinite, hcount, magnitude_of_whole]
    exact isLexical_signed _ n
  rw [Expression.evaluate_number hlexical]
  simp only [Postfix.numeralValue, hread]

theorem evaluate_format_of_whole_ends :
    format (-0) = "-0" ∧ Expression.evaluate .empty (format (-0)) = .ok (-0) ∧
      Expression.evaluate .empty (format (Float.ofBits 0x7FEFFFFFFFFFFFFF)) =
        .ok (Float.ofBits 0x7FEFFFFFFFFFFFFF) := by
  have hzero : Binary64.value (-0) = 0 := Binary64.value_of_significand_eq_zero (by decide +kernel)
  have hwhole : Int.fract (Binary64.value (-0)) = 0 := by rw [hzero, Int.fract_zero]
  exact ⟨by decide +kernel, evaluate_format_of_whole (by decide +kernel) hwhole .empty,
    evaluate_format_of_whole (by decide +kernel) fract_value_largest .empty⟩

end Value

end DeskCalculator
