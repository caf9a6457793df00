import DeskCalculator.Value
import DeskCalculator.Numeral
import Mathlib.Algebra.Order.Field.Basic
import Mathlib.Data.Rat.Cast.Order
import Mathlib.Tactic.Positivity

namespace DeskCalculator

namespace Decimal

def unsignedValue (chars : List Char) : ℚ :=
  let whole := chars.takeWhile Char.isDigit
  let fraction := (Numeral.splitFraction (chars.dropWhile Char.isDigit)).1
  Nat.ofDigitChars 10 (whole ++ fraction) 0 / 10 ^ fraction.length

/-- The number that a decimal text denotes, rounded to no format. -/
def value (text : String) : ℚ :=
  let (negative, chars) := Numeral.splitSign text.toList
  if negative then -unsignedValue chars else unsignedValue chars

/-- The text has an integer part, a point and as many digits as there are places, and what it
denotes is this many units of the last place. -/
def IsFixed (places : ℕ) (text : String) (m : ℕ) : Prop :=
  ∃ fraction : List Char, text = toString (m / 10 ^ places) ++ "." ++ String.ofList fraction ∧
    fraction.length = places ∧ (∀ c ∈ fraction, c.isDigit = true) ∧
    Nat.ofDigitChars 10 fraction 0 = m % 10 ^ places

def StartsWithDigit (text : String) : Prop :=
  ∃ c rest, text.toList = c :: rest ∧ c.isDigit = true

variable {places m : ℕ} {text : String}

theorem isDigit_of_mem_toDigits {n : ℕ} {c : Char} (h : c ∈ Nat.toDigits 10 n) : c.isDigit = true :=
  Nat.isDigit_of_mem_toDigits (by decide) (by decide) h

theorem toList_toString (n : ℕ) : (toString n).toList = Nat.toDigits 10 n := by
  rw [Nat.toString_eq_ofList_toDigits, String.toList_ofList]

theorem startsWithDigit_toString_append (n : ℕ) (rest : String) : StartsWithDigit (toString n ++ rest) := by
  obtain ⟨c, digits, hdigits⟩ := List.exists_cons_of_ne_nil (Nat.toDigits_ne_nil (n := n) (b := 10))
  have hc : c ∈ Nat.toDigits 10 n := hdigits ▸ List.mem_cons_self
  refine ⟨c, digits ++ rest.toList, ?_, isDigit_of_mem_toDigits hc⟩
  rw [String.toList_append, toList_toString, hdigits, List.cons_append]

theorem startsWithDigit_toString (n : ℕ) : StartsWithDigit (toString n) := by
  rw [← String.append_empty (s := toString n)]
  exact startsWithDigit_toString_append n ""

theorem startsWithDigit_of_isFixed (h : IsFixed places text m) : StartsWithDigit text := by
  obtain ⟨fraction, rfl, -⟩ := h
  rw [String.append_assoc]
  exact startsWithDigit_toString_append _ _

theorem ne_of_isDigit {c other : Char} (h : c.isDigit = true) (hother : other.isDigit = false) :
    c ≠ other := by
  rintro rfl
  rw [h] at hother
  cases hother

theorem splitSign_of_isDigit {c : Char} (h : c.isDigit = true) (rest : List Char) :
    Numeral.splitSign (c :: rest) = (false, c :: rest) := by
  rw [Numeral.splitSign, if_neg (ne_of_isDigit h rfl), if_neg (ne_of_isDigit h rfl)]

theorem signed_false (text : String) : signed false text = text := rfl

theorem toList_signed_true (text : String) : (signed true text).toList = '-' :: text.toList := by
  rw [signed, if_pos rfl, String.toList_append]
  rfl

theorem splitSign_signed (negative : Bool) (h : StartsWithDigit text) :
    Numeral.splitSign (signed negative text).toList = (negative, text.toList) := by
  cases negative with
  | false =>
    obtain ⟨c, rest, htext, hdigit⟩ := h
    rw [signed_false, htext, splitSign_of_isDigit hdigit]
  | true =>
    rw [toList_signed_true]
    rfl

theorem value_signed (negative : Bool) (h : StartsWithDigit text) :
    value (signed negative text) =
      if negative then -unsignedValue text.toList else unsignedValue text.toList := by
  rw [value, splitSign_signed negative h]

theorem head?_signed (negative : Bool) (h : StartsWithDigit text) :
    (signed negative text).toList.head? = some '-' ↔ negative = true := by
  cases negative with
  | false =>
    obtain ⟨c, rest, htext, hdigit⟩ := h
    rw [signed_false, htext, List.head?_cons]
    simp [ne_of_isDigit hdigit (rfl : Char.isDigit '-' = false)]
  | true =>
    rw [toList_signed_true]
    simp

theorem point_not_mem_signed_toString (negative : Bool) (n : ℕ) :
    '.' ∉ (signed negative (toString n)).toList := by
  have hdigits : '.' ∉ (toString n).toList := by
    rw [toList_toString]
    exact fun h => ne_of_isDigit (isDigit_of_mem_toDigits h) rfl rfl
  cases negative with
  | false => exact hdigits
  | true =>
    rw [toList_signed_true]
    exact List.not_mem_cons_of_ne_of_not_mem (by decide) hdigits

theorem unsignedValue_append {whole rest : List Char} (hwhole : ∀ c ∈ whole, c.isDigit = true)
    (hrest : rest.takeWhile Char.isDigit = []) :
    unsignedValue (whole ++ rest) =
      Nat.ofDigitChars 10 (whole ++ (Numeral.splitFraction rest).1) 0 /
        10 ^ (Numeral.splitFraction rest).1.length := by
  have hdrop : rest.dropWhile Char.isDigit = rest := by
    have hsplit := List.takeWhile_append_dropWhile (p := Char.isDigit) (l := rest)
    rwa [hrest, List.nil_append] at hsplit
  rw [unsignedValue, List.takeWhile_append_of_pos hwhole, List.dropWhile_append_of_pos hwhole, hrest, hdrop,
    List.append_nil]

theorem unsignedValue_toString (n : ℕ) : unsignedValue (toString n).toList = n := by
  rw [toList_toString, ← List.append_nil (Nat.toDigits 10 n),
    unsignedValue_append (fun _ h => isDigit_of_mem_toDigits h) rfl]
  simp [Numeral.splitFraction, Nat.ofDigitChars_ten_toDigits]

theorem ofDigitChars_toDigits_append (n : ℕ) (fraction : List Char) :
    Nat.ofDigitChars 10 (Nat.toDigits 10 n ++ fraction) 0 =
      10 ^ fraction.length * n + Nat.ofDigitChars 10 fraction 0 := by
  rw [Nat.ofDigitChars_append, Nat.ofDigitChars_ten_toDigits, Nat.ofDigitChars_eq_ofDigitChars_zero]

theorem unsignedValue_of_isFixed (h : IsFixed places text m) :
    unsignedValue text.toList = m / 10 ^ places := by
  obtain ⟨fraction, rfl, hlength, hdigits, hfraction⟩ := h
  have hall : fraction.takeWhile Char.isDigit = fraction := by
    rw [← List.append_nil fraction, List.takeWhile_append_of_pos hdigits]
    rfl
  have hsplit : (Numeral.splitFraction ('.' :: fraction)).1 = fraction := hall
  have hchars : (toString (m / 10 ^ places) ++ "." ++ String.ofList fraction).toList =
      Nat.toDigits 10 (m / 10 ^ places) ++ '.' :: fraction := by
    simp
  rw [hchars, unsignedValue_append (fun _ h => isDigit_of_mem_toDigits h) rfl, hsplit,
    ofDigitChars_toDigits_append, hfraction, hlength, Nat.div_add_mod]

theorem isDigit_or_point_of_mem_isFixed (h : IsFixed places text m) {c : Char} (hc : c ∈ text.toList) :
    c.isDigit = true ∨ c = '.' := by
  obtain ⟨fraction, rfl, -, hdigits, -⟩ := h
  simp only [String.toList_append, String.toList_ofList, toList_toString, List.mem_append] at hc
  rcases hc with (hwhole | hpoint) | hfraction
  · exact .inl (isDigit_of_mem_toDigits hwhole)
  · exact .inr (List.mem_singleton.mp hpoint)
  · exact .inl (hdigits c hfraction)

theorem isFixed_fixed (h : 0 < places) (m : ℕ) : IsFixed places (fixed places m) m := by
  have hlt : m % 10 ^ places < 10 ^ places := Nat.mod_lt m (by positivity)
  have hlength : (Nat.toDigits 10 (m % 10 ^ places)).length ≤ places :=
    (Nat.length_toDigits_le_iff (by decide) h).mpr hlt
  refine ⟨(Nat.toDigits 10 (m % 10 ^ places)).leftpad places '0', ?_, ?_, ?_, ?_⟩
  · rw [fixed, Nat.pow_eq, ← String.toList_inj]
    simp
  · rw [List.length_leftpad, Nat.max_eq_left hlength]
  · intro c hc
    rcases List.mem_append.mp hc with hzero | hdigit
    · rw [List.eq_of_mem_replicate hzero]
      decide
    · exact isDigit_of_mem_toDigits hdigit
  · rw [List.leftpad, Nat.ofDigitChars_append, Nat.ofDigitChars_replicate_zero, Nat.mul_zero,
      Nat.ofDigitChars_ten_toDigits]

end Decimal

end DeskCalculator
