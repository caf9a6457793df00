namespace DeskCalculator

inductive Fault
  | unbalancedParentheses
  /-- The index counts characters of the trimmed expression from zero. -/
  | unknownCharacter (character : Char) (index : Nat)
  | unknownVariable (name : String)
  | divisionByZero
  | unsupportedOperator (symbol : Char)
  | malformedExpression
  deriving DecidableEq, Repr

def Fault.message : Fault → String
  | .unbalancedParentheses => "Unbalanced parentheses"
  | .unknownCharacter character index => s!"Unknown character '{character}' at index {index}"
  | .unknownVariable name => s!"Unknown variable: '{name}'"
  | .divisionByZero => "Division by zero"
  | .unsupportedOperator symbol => s!"Unsupported operator: '{symbol}'"
  | .malformedExpression => "Malformed expression"

theorem Fault.bind_eq_ok_iff {α β : Type} {x : Except Fault α} {next : α → Except Fault β} {b : β} :
    x >>= next = .ok b ↔ ∃ a, x = .ok a ∧ next a = .ok b := by
  cases x <;> simp [bind, Except.bind]

theorem Fault.bind_eq_error_iff {α β : Type} {x : Except Fault α} {next : α → Except Fault β}
    {fault : Fault} :
    x >>= next = .error fault ↔ x = .error fault ∨ ∃ a, x = .ok a ∧ next a = .error fault := by
  cases x <;> simp [bind, Except.bind]

end DeskCalculator
