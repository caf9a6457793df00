import DeskCalculator.Postfix.Evaluation
import DeskCalculator.Token.Lexer

namespace DeskCalculator

namespace Blank

/-- The code points with the Unicode property White_Space, as ranges with both
ends included. -/
def ranges : List (Nat × Nat) :=
  [(0x0009, 0x000D), (0x0020, 0x0020), (0x0085, 0x0085), (0x00A0, 0x00A0), (0x1680, 0x1680),
   (0x2000, 0x200A), (0x2028, 0x2029), (0x202F, 0x202F), (0x205F, 0x205F), (0x3000, 0x3000)]

def isBlank (c : Char) : Bool := ranges.any (fun r => r.1 ≤ c.toNat && c.toNat ≤ r.2)

def trimLeft (chars : List Char) : List Char := chars.dropWhile isBlank

def trimRight (chars : List Char) : List Char := (chars.reverse.dropWhile isBlank).reverse

def trim (text : String) : String := String.ofList (trimRight (trimLeft text.toList))

end Blank

namespace Parentheses

def balancedFrom (depth : Nat) : List Char → Bool
  | [] => depth == 0
  | c :: rest =>
    if c = '(' then balancedFrom (depth + 1) rest
    else if c = ')' then decide (0 < depth) && balancedFrom (depth - 1) rest
    else balancedFrom depth rest

def balanced (text : String) : Bool := balancedFrom 0 text.toList

end Parentheses

namespace Expression

def convert (text : String) : Except Fault (List Token) :=
  if Parentheses.balanced text then Token.tokenize text >>= Postfix.ofInfix
  else .error .unbalancedParentheses

def toPostfix (text : String) : Except Fault (List Token) := convert (Blank.trim text)

def evaluate (store : Store) (text : String) : Except Fault Float :=
  if (Blank.trim text).isEmpty then .ok 0
  else toPostfix text >>= Postfix.evaluate store

end Expression

end DeskCalculator
