import DeskCalculator.Postfix.Evaluation

namespace DeskCalculator

inductive Operand
  | number (text : String)
  | identifier (name : String)
  deriving DecidableEq, Repr

namespace Operand

def text : Operand → String
  | .number text => text
  | .identifier name => name

def token : Operand → Token
  | .number text => .number text
  | .identifier name => .identifier name

/-- A text that is no numeral after all is looked up as it stands. A name is
looked up even where it would read as a numeral. -/
def value? (store : Store) : Operand → Option Float
  | .number text => (Numeral.read? text).or (store.get? text)
  | .identifier name => store.get? name

end Operand

inductive Tree
  | leaf (operand : Operand)
  | node (op : Operator) (left right : Tree)
  deriving DecidableEq, Repr

namespace Tree

def postorder : Tree → List Token
  | .leaf operand => [operand.token]
  | .node op left right => left.postorder ++ right.postorder ++ [.operator op]

def IsZero (x : Float) : Prop := x = 0 ∨ x = -0

instance (x : Float) : Decidable (IsZero x) := inferInstanceAs (Decidable (_ ∨ _))

def nodeValue : Operator → Float → Float → Except Fault Float
  | .add, a, b => .ok (a + b)
  | .subtract, a, b => .ok (a - b)
  | .multiply, a, b => .ok (a * b)
  | .divide, a, b => if IsZero b then .error .divisionByZero else .ok (a / b)
  | .power, a, b => .ok (a.pow b)

def value (store : Store) : Tree → Except Fault Float
  | .leaf operand =>
    match operand.value? store with
    | some value => .ok value
    | none => .error (.unknownVariable operand.text)
  | .node op left right => do
    let a ← left.value store
    let b ← right.value store
    nodeValue op a b

def subtrees : Tree → List Tree
  | .leaf operand => [.leaf operand]
  | .node op left right => left.subtrees ++ right.subtrees ++ [.node op left right]

def fault? (store : Store) : Tree → Option Fault
  | .leaf operand =>
    if (operand.value? store).isNone then some (.unknownVariable operand.text) else none
  | .node op _ right =>
    match right.value store with
    | .ok b => if op = .divide ∧ IsZero b then some .divisionByZero else none
    | .error _ => none

def firstFault? (store : Store) (tree : Tree) : Option Fault :=
  tree.subtrees.findSome? (fault? store)

theorem firstFault?_leaf (store : Store) (operand : Operand) :
    (leaf operand).firstFault? store = (leaf operand).fault? store := by
  simp [firstFault?, subtrees]

theorem firstFault?_node (store : Store) (op : Operator) (left right : Tree) :
    (node op left right).firstFault? store =
      ((left.firstFault? store).or (right.firstFault? store)).or
        ((node op left right).fault? store) := by
  simp [firstFault?, subtrees, List.findSome?_append, Option.or_assoc]

theorem value_fault (store : Store) (tree : Tree) :
    match tree.value store with
    | .ok _ => tree.firstFault? store = none
    | .error fault => tree.firstFault? store = some fault := by
  induction tree with
  | leaf operand =>
      rw [firstFault?_leaf]
      cases h : operand.value? store <;> simp [value, fault?, h]
  | node op left right ihl ihr =>
      rw [firstFault?_node]
      cases hl : left.value store with
      | error fault =>
          rw [hl] at ihl
          simp [value, hl, ihl, bind, Except.bind]
      | ok a =>
          rw [hl] at ihl
          cases hr : right.value store with
          | error fault =>
              rw [hr] at ihr
              simp [value, hl, hr, ihl, ihr, bind, Except.bind]
          | ok b =>
              rw [hr] at ihr
              cases op with
              | divide =>
                  by_cases hz : IsZero b <;>
                    simp [value, nodeValue, fault?, hl, hr, ihl, ihr, hz, bind, Except.bind]
              | add | subtract | multiply | power =>
                  simp [value, nodeValue, fault?, hl, hr, ihl, ihr, bind, Except.bind]

theorem value_eq_error_iff (store : Store) (tree : Tree) (fault : Fault) :
    tree.value store = .error fault ↔ tree.firstFault? store = some fault := by
  have h := value_fault store tree
  cases hv : tree.value store <;> simp_all

theorem fault?_kind {store : Store} {tree : Tree} {fault : Fault}
    (h : tree.fault? store = some fault) :
    fault = .divisionByZero ∨ ∃ name, fault = .unknownVariable name := by
  cases tree with
  | leaf operand =>
      simp only [fault?, Option.ite_none_right_eq_some, Option.some.injEq] at h
      exact .inr ⟨operand.text, h.2.symm⟩
  | node op left right =>
      simp only [fault?] at h
      split at h
      · simp only [Option.ite_none_right_eq_some, Option.some.injEq] at h
        exact .inl h.2.symm
      · simp at h

theorem value_error_kind {store : Store} {tree : Tree} {fault : Fault}
    (h : tree.value store = .error fault) :
    fault = .divisionByZero ∨ ∃ name, fault = .unknownVariable name := by
  obtain ⟨subtree, -, hs⟩ := List.exists_of_findSome?_eq_some
    ((value_eq_error_iff store tree fault).mp h)
  exact fault?_kind hs

end Tree

end DeskCalculator
