import DeskCalculator.Fault
import DeskCalculator.Token

namespace DeskCalculator

inductive Lexeme
  | numeral
  | name
  deriving DecidableEq, Repr

namespace Lexeme

def holds : Lexeme → Char → Bool
  | .numeral => Character.isNumericPart
  | .name => Character.isLetter

def token : Lexeme → String → Token
  | .numeral => .number
  | .name => .identifier

def starts (kind : Lexeme) : List Char → Bool
  | [] => false
  | c :: _ => kind.holds c

/-- The character becomes part of the first token where the text behind it goes on with
the same kind, and a token of its own elsewhere. -/
def push (kind : Lexeme) (c : Char) (rest : List Char) (tokens : List Token) : List Token :=
  match kind.starts rest, tokens with
  | true, first :: later => kind.token (c.toString ++ first.text) :: later
  | _, _ => kind.token c.toString :: tokens

end Lexeme

namespace Token

/-- A minus is the sign of the numeral right after it where no operand can have
ended: at the start of the text, or after a symbol or a space. Any symbol will
do, a closing parenthesis too. -/
def signsNumeral (signAllowed : Bool) (c : Char) (rest : List Char) : Bool :=
  c == '-' && signAllowed && Lexeme.numeral.starts rest

def allowsSign (c : Char) : Bool := Character.isSymbol c || c == ' '

/-- The tokens of a text over the alphabet of expressions. Each character is
put before the tokens of the text that follows it, and all it needs to know of
the text before it is whether a sign may stand here. -/
def lex (signAllowed : Bool) : List Char → List Token
  | [] => []
  | c :: rest =>
    let tokens := lex (allowsSign c) rest
    if Character.isNumericPart c || signsNumeral signAllowed c rest then Lexeme.numeral.push c rest tokens
    else if Character.isSymbol c then ofSymbol c :: tokens
    else if Character.isLetter c then Lexeme.name.push c rest tokens
    else tokens

def firstForeign? (chars : List Char) : Option (Char × Nat) :=
  chars.zipIdx.find? (fun p => !Character.isAllowed p.1)

def tokenize (expression : String) : Except Fault (List Token) :=
  match firstForeign? expression.toList with
  | some (character, index) => .error (.unknownCharacter character index)
  | none => .ok (lex true expression.toList)

end Token

end DeskCalculator
