import DeskCalculator.Numeral
import DeskCalculator.Postfix
import DeskCalculator.Store

namespace DeskCalculator.Postfix

def namedValue (store : Store) (name : String) : Except Fault Float :=
  match store.get? name with
  | some value => .ok value
  | none => .error (.unknownVariable name)

/-- A text that is not a numeral after all is the name of a variable. -/
def numeralValue (store : Store) (text : String) : Except Fault Float :=
  match Numeral.read? text with
  | some value => .ok value
  | none => namedValue store text

def combine (op : Operator) (left right : Float) : Except Fault Float :=
  if op = .divide && Binary64.isZero right then .error .divisionByZero
  else .ok (op.apply left right)

def step (store : Store) (values : List Float) : Token → Except Fault (List Float)
  | .number text => (numeralValue store text).map (· :: values)
  | .identifier name => (namedValue store name).map (· :: values)
  | .operator op =>
    match values with
    | right :: left :: below => (combine op left right).map (· :: below)
    | _ => .error .malformedExpression
  | .symbol character => .error (.unsupportedOperator character)
  | .openParen | .closeParen => .error .malformedExpression

def evaluate (store : Store) (tokens : List Token) : Except Fault Float := do
  match ← tokens.foldlM (step store) [] with
  | [value] => .ok value
  | _ => .error .malformedExpression

end DeskCalculator.Postfix
