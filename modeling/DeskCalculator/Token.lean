import DeskCalculator.Operator

namespace DeskCalculator

namespace Character

/-- A digit or a separator. A comma belongs to the text of a numeral, although
no numeral that holds one has a value of its own. -/
def isNumericPart (c : Char) : Bool := c.isDigit || c == '.' || c == ','

def isLetter (c : Char) : Bool := c.isAlpha

/-- The characters that form a token alone. The percent sign is one of them,
although no operator is written with it. -/
def isSymbol (c : Char) : Bool := ['^', '/', '*', '+', '-', '%', '(', ')'].contains c

def isAllowed (c : Char) : Bool := isNumericPart c || isSymbol c || isLetter c || c == ' '

end Character

inductive Token
  | number (text : String)
  | identifier (name : String)
  | operator (op : Operator)
  | symbol (character : Char)
  | openParen
  | closeParen
  deriving DecidableEq, Repr

namespace Token

def ofSymbol (c : Char) : Token :=
  if c = '(' then .openParen
  else if c = ')' then .closeParen
  else match Operator.ofSymbol? c with
    | some op => .operator op
    | none => .symbol c

/-- The token that a whole text is. Its first character decides, so a text is
never cut into several tokens here. -/
def ofText? (text : String) : Option Token :=
  match text.toList with
  | [] => none
  | c :: rest =>
    if rest.isEmpty && Character.isSymbol c then some (ofSymbol c)
    else if Character.isLetter c then some (.identifier text)
    else some (.number text)

def text : Token → String
  | .number text => text
  | .identifier name => name
  | .operator op => op.symbol.toString
  | .symbol character => character.toString
  | .openParen => "("
  | .closeParen => ")"

theorem text_ofSymbol (c : Char) : (ofSymbol c).text = c.toString := by
  unfold ofSymbol
  split
  · next h => rw [h]; rfl
  · split
    · next h => rw [h]; rfl
    · split
      · next op h => rw [text, Operator.symbol_of_ofSymbol? h]
      · rfl

def isOperator : Token → Bool
  | .operator _ => true
  | _ => false

def symbol? : Token → Option Char
  | .symbol character => some character
  | _ => none

def render (tokens : List Token) : String := " ".intercalate (tokens.map text)

def listing (tokens : List Token) : String := "[" ++ ", ".intercalate (tokens.map text) ++ "]"

end Token

end DeskCalculator
