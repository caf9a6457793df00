namespace DeskCalculator

namespace Rounding

def halfEven (numerator denominator : Nat) : Nat :=
  let below := numerator / denominator
  let remainder := numerator % denominator
  if denominator < 2 * remainder then below + 1
  else if 2 * remainder = denominator then below + below % 2
  else below

end Rounding

namespace Binary64

/-- Magnitudes are measured in the least positive number, two to the power -1074.
Every finite number is a natural number of these, and this many make up one. -/
def one : Nat := Nat.pow 2 1074

/-- What the bits of a number mean. The magnitude of a finite number is its
significand times two to the shift, in units of the least positive number. -/
inductive Parts
  | notANumber
  | infinite (negative : Bool)
  | finite (negative : Bool) (significand shift : Nat)
  deriving DecidableEq, Repr

/-- The pattern of a number is its bits without the sign. From infinity on, patterns
no longer stand for finite numbers. -/
def infinity : Nat := 2047 * Nat.pow 2 52

def notANumber : Nat := infinity + Nat.pow 2 51

def isNegative (x : Float) : Bool := Nat.pow 2 63 ≤ x.toBits.toNat

def pattern (x : Float) : Nat := x.toBits.toNat % Nat.pow 2 63

def isZero (x : Float) : Bool := pattern x == 0

def significand (pattern : Nat) : Nat :=
  if pattern < Nat.pow 2 52 then pattern else Nat.pow 2 52 + pattern % Nat.pow 2 52

def shift (pattern : Nat) : Nat := pattern / Nat.pow 2 52 - 1

def units (significand shift : Nat) : Nat := significand * Nat.pow 2 shift

def parts (x : Float) : Parts :=
  if infinity < pattern x then .notANumber
  else if pattern x = infinity then .infinite (isNegative x)
  else .finite (isNegative x) (significand (pattern x)) (shift (pattern x))

def ofPattern (negative : Bool) (pattern : Nat) : Float :=
  Float.ofBits (UInt64.ofNat (if negative then Nat.pow 2 63 + pattern else pattern))

/-- The pattern of the number nearest to a quotient, the one with the even
significand if two are equally near. The shift leaves a significand of 53 bits
where there are that many. Patterns count up from one number to the next, so a
significand that rounds to a power of two needs no care of its own, and a
quotient too large for a finite number ends at infinity. -/
def nearest (numerator denominator : Nat) : Nat :=
  let units := numerator * one
  let shift := (units / denominator).log2 - 52
  min (shift * Nat.pow 2 52 + Rounding.halfEven units (denominator * Nat.pow 2 shift)) infinity

end Binary64

end DeskCalculator
