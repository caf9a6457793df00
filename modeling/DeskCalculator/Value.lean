import DeskCalculator.Binary64

namespace DeskCalculator

namespace Decimal

def signed (negative : Bool) (text : String) : String := if negative then "-" ++ text else text

def fixed (places scaled : Nat) : String :=
  let fraction := (Nat.toDigits 10 (scaled % Nat.pow 10 places)).leftpad places '0'
  String.ofList (Nat.toDigits 10 (scaled / Nat.pow 10 places) ++ '.' :: fraction)

end Decimal

namespace Value

def places : Nat := 4

def magnitude (units : Nat) : String :=
  if units % Binary64.one = 0 then toString (units / Binary64.one)
  else Decimal.fixed places (Rounding.halfEven (units * Nat.pow 10 places) Binary64.one)

/-- The text in which results and variables are shown. The sign is that of the
number before it is rounded, zero included. -/
def format (x : Float) : String :=
  match Binary64.parts x with
  | .notANumber => "NaN"
  | .infinite negative => Decimal.signed negative "inf"
  | .finite negative significand shift => Decimal.signed negative (magnitude (Binary64.units significand shift))

/-- The numbers that read back as a given one, in quarters of a unit. The ends
lie half way to the two neighbours, and belong to it iff the significand is even. -/
structure Reach where
  low : Nat
  high : Nat
  closed : Bool

def reach (significand shift : Nat) : Reach where
  low := 4 * Binary64.units significand shift -
    (if significand = Nat.pow 2 52 && decide (0 < shift) then Nat.pow 2 shift else 2 * Nat.pow 2 shift)
  high := 4 * Binary64.units significand shift + 2 * Nat.pow 2 shift
  closed := significand % 2 == 0

def Reach.holds (r : Reach) (numerator denominator : Nat) : Bool :=
  if r.closed then r.low * denominator ≤ numerator && numerator ≤ r.high * denominator
  else r.low * denominator < numerator && numerator < r.high * denominator

/-- The multiple of a power of ten within reach that is nearest to the number
itself, if there is any. Of two that are equally near, the larger one. -/
def multiple? (significand shift : Nat) (exponent : Int) : Option Nat :=
  let up := Nat.pow 10 (-exponent).toNat
  let down := Binary64.one * Nat.pow 10 exponent.toNat
  let units := Binary64.units significand shift * up
  let below := units / down
  let hit (multiple : Nat) : Bool := (reach significand shift).holds (4 * multiple * down) up
  if hit below && (2 * (units % down) < down || !hit (below + 1)) then some below
  else if hit (below + 1) then some (below + 1)
  else none

def exponents : List Int := (List.range 640).map (fun i => (310 : Int) - Int.ofNat i)

def positional (multiple : Nat) (exponent : Int) : String :=
  if exponent < 0 then Decimal.fixed (-exponent).toNat multiple
  else toString (multiple * Nat.pow 10 exponent.toNat)

def shortestMagnitude (significand shift : Nat) : String :=
  if significand = 0 then "0"
  else (exponents.findSome? fun exponent =>
    (multiple? significand shift exponent).map fun multiple => positional multiple exponent).getD ""

def shortest (x : Float) : String :=
  match Binary64.parts x with
  | .notANumber => "NaN"
  | .infinite negative => Decimal.signed negative "inf"
  | .finite negative significand shift => Decimal.signed negative (shortestMagnitude significand shift)

end Value

end DeskCalculator
