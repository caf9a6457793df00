import DeskCalculator.Expression
import DeskCalculator.Proofs.Tree

namespace DeskCalculator

inductive Category
  | sum
  | product
  | power
  | primary
  deriving DecidableEq, Repr

/-- Derivations in the grammar of infix expressions. Sums and products take their
operators from the left, powers from the right, and a group is a primary however
many parentheses stand around it. -/
inductive Derivation : Category → Type
  | leaf (operand : Operand) : Derivation .primary
  | group (inner : Derivation .sum) : Derivation .primary
  | ofPrimary (base : Derivation .primary) : Derivation .power
  | power (base : Derivation .primary) (exponent : Derivation .power) : Derivation .power
  | ofPower (factor : Derivation .power) : Derivation .product
  | product (left : Derivation .product) (op : Operator) (hop : op = .multiply ∨ op = .divide)
      (right : Derivation .power) : Derivation .product
  | ofProduct (term : Derivation .product) : Derivation .sum
  | sum (left : Derivation .sum) (op : Operator) (hop : op = .add ∨ op = .subtract)
      (right : Derivation .product) : Derivation .sum

namespace Derivation

variable {category : Category}

def yield {category : Category} : Derivation category → List Token
  | .leaf operand => [operand.token]
  | .group inner => .openParen :: inner.yield ++ [.closeParen]
  | .ofPrimary base => base.yield
  | .power base exponent => base.yield ++ .operator .power :: exponent.yield
  | .ofPower factor => factor.yield
  | .product left op _ right => left.yield ++ .operator op :: right.yield
  | .ofProduct term => term.yield
  | .sum left op _ right => left.yield ++ .operator op :: right.yield

def tree {category : Category} : Derivation category → Tree
  | .leaf operand => .leaf operand
  | .group inner => inner.tree
  | .ofPrimary base => base.tree
  | .power base exponent => .node .power base.tree exponent.tree
  | .ofPower factor => factor.tree
  | .product left op _ right => .node op left.tree right.tree
  | .ofProduct term => term.tree
  | .sum left op _ right => .node op left.tree right.tree

theorem yield_ne_nil (phrase : Derivation category) : phrase.yield ≠ [] := by
  induction phrase with
  | ofPrimary base ih => exact ih
  | ofPower factor ih => exact ih
  | ofProduct term ih => exact ih
  | leaf | group | power | product | sum => simp [yield]

theorem symbol?_of_mem_yield {phrase : Derivation category} {token : Token}
    (h : token ∈ phrase.yield) : token.symbol? = none := by
  induction phrase with
  | leaf operand =>
      obtain rfl := List.mem_singleton.mp h
      cases operand <;> rfl
  | group inner ih =>
      simp only [yield, List.cons_append, List.mem_cons, List.mem_append, List.not_mem_nil,
        or_false] at h
      rcases h with rfl | h | rfl
      · rfl
      · exact ih h
      · rfl
  | ofPrimary base ih => exact ih h
  | ofPower factor ih => exact ih h
  | ofProduct term ih => exact ih h
  | power left right ihl ihr | product left _ _ right ihl ihr | sum left _ _ right ihl ihr =>
      simp only [yield, List.mem_append, List.mem_cons] at h
      rcases h with h | rfl | h
      · exact ihl h
      · rfl
      · exact ihr h

end Derivation

end DeskCalculator
