namespace DeskCalculator

inductive Associativity
  | left
  | right
  deriving DecidableEq, Repr

inductive Operator
  | add
  | subtract
  | multiply
  | divide
  | power
  deriving DecidableEq, Repr

namespace Operator

def all : List Operator := [.power, .divide, .multiply, .add, .subtract]

def symbol : Operator → Char
  | .add => '+'
  | .subtract => '-'
  | .multiply => '*'
  | .divide => '/'
  | .power => '^'

def ofSymbol? (c : Char) : Option Operator := all.find? (fun op => op.symbol == c)

theorem ofSymbol?_symbol (op : Operator) : ofSymbol? op.symbol = some op := by
  cases op <;> rfl

theorem symbol_of_ofSymbol? {c : Char} {op : Operator} (h : ofSymbol? c = some op) :
    op.symbol = c := by
  simpa using List.find?_some h

def ofText? (text : String) : Option Operator :=
  match text.toList with
  | [c] => ofSymbol? c
  | _ => none

def associativity : Operator → Associativity
  | .power => .right
  | _ => .left

def precedence : Operator → Nat
  | .add | .subtract => 0
  | .multiply | .divide => 5
  | .power => 10

/-- Whether an operator that waits goes out before the incoming one. Equal
precedence groups to the left, unless the incoming operator groups to the right. -/
def yieldsTo (incoming waiting : Operator) : Bool :=
  match incoming.associativity with
  | .left => incoming.precedence ≤ waiting.precedence
  | .right => incoming.precedence < waiting.precedence

/-- The arithmetic of binary64 numbers. A division by zero is an infinity or
not a number here; evaluation refuses it before it gets this far. -/
def apply : Operator → Float → Float → Float
  | .add, a, b => a + b
  | .subtract, a, b => a - b
  | .multiply, a, b => a * b
  | .divide, a, b => a / b
  | .power, a, b => a.pow b

end Operator

end DeskCalculator
