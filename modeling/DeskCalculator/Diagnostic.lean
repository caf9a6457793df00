import DeskCalculator.Expression
import DeskCalculator.Level
import DeskCalculator.Value

namespace DeskCalculator

inductive Diagnostic
  | tokenized (text : String) (tokens : List Token)
  | ordered (tokens : List Token)
  | evaluated (text : String) (value : Float)
  | stored (value : Float) (name : String)
  | inputEnded

namespace Diagnostic

def level : Diagnostic → Level
  | .tokenized _ _ | .ordered _ => .trace
  | .evaluated _ _ | .stored _ _ => .debug
  | .inputEnded => .information

/-- Only texts over the alphabet of expressions get tokenized, so no character
between the quotes needs an escape. -/
def message : Diagnostic → String
  | .tokenized text tokens => "tokenized \"" ++ text ++ "\" into " ++ Token.listing tokens
  | .ordered tokens => "postfix order: " ++ Token.listing tokens
  | .evaluated text value => text ++ " = " ++ Value.shortest value
  | .stored value name => "stored " ++ Value.shortest value ++ " in " ++ name
  | .inputEnded => "end of input, leaving"

def line (diagnostic : Diagnostic) : String := diagnostic.level.name ++ " " ++ diagnostic.message

def ofTokenize (text : String) : List Diagnostic :=
  match Token.tokenize text with
  | .ok tokens => [.tokenized text tokens]
  | .error _ => []

def ofInfix (tokens : List Token) : List Diagnostic :=
  match Postfix.ofInfix tokens with
  | .ok result => [.ordered result]
  | .error _ => []

/-- What the conversion of a trimmed text says. The tokens are told even if they
cannot be ordered. -/
def ofConvert (text : String) : List Diagnostic :=
  if Parentheses.balanced text then
    match Token.tokenize text with
    | .ok tokens => .tokenized text tokens :: ofInfix tokens
    | .error _ => []
  else []

def ofToPostfix (text : String) : List Diagnostic := ofConvert (Blank.trim text)

def ofEvaluate (store : Store) (text : String) : List Diagnostic :=
  if (Blank.trim text).isEmpty then []
  else ofToPostfix text ++
    match Expression.evaluate store text with
    | .ok value => [.evaluated (Blank.trim text) value]
    | .error _ => []

end Diagnostic

end DeskCalculator
