import DeskCalculator.Binary64

namespace DeskCalculator.Numeral

/-- The pattern nearest to a coefficient times a power of ten. Exponents that
lie far outside the range of the format are answered at once, since the power
itself would be too large to write down. -/
def scaled (coefficient : Nat) (exponent : Int) : Nat :=
  if coefficient = 0 then 0
  else if 400 < exponent then Binary64.infinity
  else if exponent + coefficient.log2 < -400 then 0
  else match exponent with
    | .ofNat e => Binary64.nearest (coefficient * Nat.pow 10 e) 1
    | .negSucc e => Binary64.nearest coefficient (Nat.pow 10 (e + 1))

def splitSign : List Char → Bool × List Char
  | [] => (false, [])
  | c :: rest =>
    if c = '-' then (true, rest)
    else if c = '+' then (false, rest)
    else (false, c :: rest)

def exponent? : List Char → Option Int
  | [] => some 0
  | c :: rest =>
    let (negative, digits) := splitSign rest
    if (c = 'e' || c = 'E') && !digits.isEmpty && digits.all Char.isDigit then
      let magnitude : Int := Nat.ofDigitChars 10 digits 0
      some (if negative then -magnitude else magnitude)
    else none

def splitFraction : List Char → List Char × List Char
  | [] => ([], [])
  | c :: rest =>
    if c = '.' then (rest.takeWhile Char.isDigit, rest.dropWhile Char.isDigit)
    else ([], c :: rest)

/-- Digits with at most one point among them, and then an exponent. The point
may stand at either end, but not alone. -/
def decimal? (chars : List Char) : Option Nat :=
  let whole := chars.takeWhile Char.isDigit
  let (fraction, rest) := splitFraction (chars.dropWhile Char.isDigit)
  if whole.isEmpty && fraction.isEmpty then none
  else (exponent? rest).map fun exponent =>
    scaled (Nat.ofDigitChars 10 (whole ++ fraction) 0) (exponent - fraction.length)

def word? (chars : List Char) : Option Nat :=
  match String.ofList (chars.map Char.toLower) with
  | "inf" | "infinity" => some Binary64.infinity
  | "nan" => some Binary64.notANumber
  | _ => none

/-- The value of a numeral, correctly rounded. A text that is not a numeral from
end to end has none. -/
def read? (text : String) : Option Float :=
  let (negative, chars) := splitSign text.toList
  ((decimal? chars).or (word? chars)).map (Binary64.ofPattern negative)

end DeskCalculator.Numeral
