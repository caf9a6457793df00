import DeskCalculator.Fault
import DeskCalculator.Token

namespace DeskCalculator.Postfix

/-- What waits while tokens are put into postfix order: an operator whose right
operand is not complete yet, or a group that is still open. -/
inductive Pending
  | operator (op : Operator)
  | group
  deriving DecidableEq, Repr

namespace Pending

def isOperator : Pending → Bool
  | .operator _ => true
  | .group => false

def token? : Pending → Option Token
  | .operator op => some (.operator op)
  | .group => none

def precedes (incoming : Operator) : Pending → Bool
  | .operator waiting => incoming.yieldsTo waiting
  | .group => false

end Pending

def operators (stack : List Pending) : List Token := stack.filterMap Pending.token?

/-- The tokens that go out when a token comes in. A closing parenthesis lets out
the operators of its group; one that closes nothing lets out all that wait. -/
def released (stack : List Pending) : Token → List Token
  | .number text => [.number text]
  | .identifier name => [.identifier name]
  | .operator op => operators (stack.takeWhile (Pending.precedes op))
  | .closeParen => operators (stack.takeWhile Pending.isOperator)
  | .openParen | .symbol _ => []

def pushed (stack : List Pending) : Token → List Pending
  | .operator op => .operator op :: stack.dropWhile (Pending.precedes op)
  | .openParen => .group :: stack
  | .closeParen => (stack.dropWhile Pending.isOperator).tail
  | .number _ | .identifier _ | .symbol _ => stack

/-- The tokens in postfix order, given what waits on the stack. At the end the
operators that still wait go out, and a group that was never closed is forgotten. -/
def order (stack : List Pending) : List Token → List Token
  | [] => operators stack
  | token :: rest => released stack token ++ order (pushed stack token) rest

def ofInfix (tokens : List Token) : Except Fault (List Token) :=
  match tokens.findSome? Token.symbol? with
  | some character => .error (.unsupportedOperator character)
  | none => .ok (order [] tokens)

end DeskCalculator.Postfix
