import DeskCalculator.Proofs.Conservation
import DeskCalculator.Proofs.Grammar

namespace DeskCalculator

/-- The least precedence of an operator outside all parentheses of a phrase. A primary
has no such operator. -/
def Category.bound : Category → Nat
  | .sum => 0
  | .product => 5
  | .power => 10
  | .primary => 11

namespace Operator

def leftBound : Operator → Nat
  | .add | .subtract => Category.sum.bound
  | .multiply | .divide => Category.product.bound
  | .power => Category.primary.bound

def rightBound : Operator → Nat
  | .add | .subtract => Category.product.bound
  | .multiply | .divide => Category.power.bound
  | .power => Category.power.bound

theorem precedence_le_leftBound (op : Operator) : op.precedence ≤ op.leftBound := by
  cases op <;> decide

theorem precedence_le_rightBound (op : Operator) : op.precedence ≤ op.rightBound := by
  cases op <;> decide

theorem yieldsTo_of_leftBound {op waiting : Operator} (h : op.leftBound ≤ waiting.precedence) :
    op.yieldsTo waiting = true := by
  cases op <;> cases waiting <;> revert h <;> decide

theorem not_yieldsTo_of_rightBound {op incoming : Operator}
    (h : op.rightBound ≤ incoming.precedence) : incoming.yieldsTo op = false := by
  cases op <;> cases incoming <;> revert h <;> decide

end Operator

namespace Postfix

def emitted (stack : List Pending) : List Token → List Token
  | [] => []
  | token :: rest => released stack token ++ emitted (pushed stack token) rest

theorem emitted_append (stack : List Pending) (a b : List Token) :
    emitted stack (a ++ b) = emitted stack a ++ emitted (a.foldl pushed stack) b := by
  induction a generalizing stack with
  | nil => rfl
  | cons token rest ih => simp [emitted, ih]

theorem order_eq (stack : List Pending) (tokens : List Token) :
    order stack tokens = emitted stack tokens ++ operators (tokens.foldl pushed stack) := by
  induction tokens generalizing stack with
  | nil => rfl
  | cons token rest ih => simp [order, emitted, ih]

theorem order_append (stack : List Pending) (a b : List Token) :
    order stack (a ++ b) = emitted stack a ++ order (a.foldl pushed stack) b := by
  rw [order_eq, order_eq, emitted_append, List.foldl_append, List.append_assoc]

theorem ofInfix_eq_ok {tokens : List Token} (h : ∀ token ∈ tokens, token.symbol? = none) :
    ofInfix tokens = .ok (order [] tokens) :=
  ofInfix_eq_ok_iff.mpr ⟨h, rfl⟩

def above (ops : List Operator) (stack : List Pending) : List Pending :=
  ops.map Pending.operator ++ stack

theorem operators_map (ops : List Operator) :
    operators (ops.map Pending.operator) = ops.map Token.operator := by
  induction ops with
  | nil => rfl
  | cons op ops ih => exact congrArg (Token.operator op :: ·) ih

theorem operators_above (ops : List Operator) (stack : List Pending) :
    operators (above ops stack) = ops.map Token.operator ++ operators stack := by
  rw [above, operators, List.filterMap_append]
  exact congrArg (· ++ operators stack) (operators_map ops)

/-- What is on top stays there while operators of at least this precedence come in. -/
def Shields (bound : Nat) (stack : List Pending) : Prop :=
  ∀ op : Operator, bound ≤ op.precedence → ∀ top ∈ stack.head?, Pending.precedes op top = false

theorem Shields.mono {bound higher : Nat} {stack : List Pending} (h : Shields bound stack)
    (hle : bound ≤ higher) : Shields higher stack :=
  fun op hop => h op (Nat.le_trans hle hop)

theorem shields_nil (bound : Nat) : Shields bound [] := by
  intro op _ top htop
  cases htop

theorem shields_group (bound : Nat) (stack : List Pending) : Shields bound (.group :: stack) := by
  intro op _ top htop
  cases htop
  rfl

theorem takeWhile_above {p : Pending → Bool} {ops : List Operator} {stack : List Pending}
    (hops : ∀ op ∈ ops, p (.operator op) = true) (hstack : ∀ top ∈ stack.head?, p top = false) :
    (above ops stack).takeWhile p = ops.map Pending.operator := by
  have hall : ∀ w ∈ ops.map Pending.operator, p w = true := by simpa using hops
  rw [above, List.takeWhile_append_of_pos hall]
  cases stack with
  | nil => simp
  | cons top below => simp [hstack top rfl]

theorem dropWhile_above {p : Pending → Bool} {ops : List Operator} {stack : List Pending}
    (hops : ∀ op ∈ ops, p (.operator op) = true) (hstack : ∀ top ∈ stack.head?, p top = false) :
    (above ops stack).dropWhile p = stack := by
  have hall : ∀ w ∈ ops.map Pending.operator, p w = true := by simpa using hops
  rw [above, List.dropWhile_append_of_pos hall]
  cases stack with
  | nil => rfl
  | cons top below => simp [hstack top rfl]

/-- Read on a stack that shields it, a phrase goes out in postfix order, but for some
operators of at least the bound that still wait. The stack below is as it was. -/
def Reads (bound : Nat) (tokens result : List Token) : Prop :=
  ∀ stack, Shields bound stack → ∃ ops : List Operator,
    (∀ op ∈ ops, bound ≤ op.precedence) ∧
    tokens.foldl pushed stack = above ops stack ∧
    emitted stack tokens ++ ops.map Token.operator = result

theorem Reads.mono {bound lower : Nat} {tokens result : List Token} (h : Reads bound tokens result)
    (hle : lower ≤ bound) : Reads lower tokens result := by
  intro stack hstack
  obtain ⟨ops, hops, hpushed, hout⟩ := h stack (hstack.mono hle)
  exact ⟨ops, fun op hop => Nat.le_trans hle (hops op hop), hpushed, hout⟩

theorem reads_operand (bound : Nat) (operand : Operand) :
    Reads bound [operand.token] [operand.token] := by
  intro stack _
  refine ⟨[], by simp, ?_, ?_⟩
  · cases operand <;> rfl
  · cases operand <;> rfl

theorem reads_group {tokens result : List Token} (h : Reads 0 tokens result) (bound : Nat) :
    Reads bound (.openParen :: tokens ++ [.closeParen]) result := by
  intro stack _
  obtain ⟨ops, -, hpushed, hout⟩ := h (.group :: stack) (shields_group 0 stack)
  have hops : ∀ op ∈ ops, Pending.isOperator (.operator op) = true := fun _ _ => rfl
  have hgroup : ∀ top ∈ (Pending.group :: stack).head?, top.isOperator = false := by
    intro top htop
    cases htop
    rfl
  refine ⟨[], by simp, ?_, ?_⟩
  · simp only [List.cons_append, List.foldl_cons, List.foldl_append, pushed, hpushed,
      dropWhile_above hops hgroup, List.foldl_nil]
    rfl
  · simp only [List.cons_append, emitted, emitted_append, pushed, hpushed, released,
      takeWhile_above hops hgroup, operators_map, List.nil_append, List.append_nil, List.map_nil]
    exact hout

/-- Every operator that waits for the left phrase goes out when the operator comes in,
and none of the right phrase can get this one out. -/
theorem reads_node (op : Operator) {left right lresult rresult : List Token}
    (hl : Reads op.leftBound left lresult) (hr : Reads op.rightBound right rresult) :
    Reads op.precedence (left ++ .operator op :: right) (lresult ++ rresult ++ [.operator op]) := by
  intro stack hstack
  obtain ⟨lops, hlops, hlpushed, hlout⟩ := hl stack (hstack.mono op.precedence_le_leftBound)
  have hpops : ∀ waiting ∈ lops, Pending.precedes op (.operator waiting) = true :=
    fun waiting hw => Operator.yieldsTo_of_leftBound (hlops waiting hw)
  have htop : ∀ top ∈ stack.head?, Pending.precedes op top = false := hstack op (Nat.le_refl _)
  have hshield : Shields op.rightBound (.operator op :: stack) := by
    intro incoming hincoming top htop
    cases htop
    exact Operator.not_yieldsTo_of_rightBound hincoming
  obtain ⟨rops, hrops, hrpushed, hrout⟩ := hr (.operator op :: stack) hshield
  refine ⟨rops ++ [op], ?_, ?_, ?_⟩
  · intro waiting hw
    rcases List.mem_append.mp hw with hw | hw
    · exact Nat.le_trans op.precedence_le_rightBound (hrops waiting hw)
    · obtain rfl := List.mem_singleton.mp hw
      exact Nat.le_refl _
  · rw [List.foldl_append, List.foldl_cons, hlpushed, pushed, dropWhile_above hpops htop, hrpushed]
    simp [above]
  · rw [emitted_append, hlpushed, emitted, released, takeWhile_above hpops htop, operators_map,
      pushed, dropWhile_above hpops htop, ← hlout, ← hrout]
    simp

end Postfix

namespace Derivation

open Postfix

theorem reads_yield {category : Category} (phrase : Derivation category) :
    Reads category.bound phrase.yield phrase.tree.postorder := by
  induction phrase with
  | leaf operand => exact reads_operand _ operand
  | group inner ih => exact reads_group ih _
  | ofPrimary base ih => exact ih.mono (by decide)
  | ofPower factor ih => exact ih.mono (by decide)
  | ofProduct term ih => exact ih.mono (by decide)
  | power base exponent ihl ihr => exact reads_node .power ihl ihr
  | product left op hop right ihl ihr =>
      rcases hop with rfl | rfl
      · exact reads_node .multiply ihl ihr
      · exact reads_node .divide ihl ihr
  | sum left op hop right ihl ihr =>
      rcases hop with rfl | rfl
      · exact reads_node .add ihl ihr
      · exact reads_node .subtract ihl ihr

theorem order_yield (phrase : Derivation .sum) :
    order [] phrase.yield = phrase.tree.postorder := by
  obtain ⟨ops, -, hpushed, hout⟩ := phrase.reads_yield [] (shields_nil 0)
  rw [order_eq, hpushed, operators_above, ← hout]
  simp [operators]

/-- Every sentence of the grammar is put into the postorder of the tree that its
derivation tells. -/
theorem ofInfix_yield (phrase : Derivation .sum) :
    ofInfix phrase.yield = .ok phrase.tree.postorder := by
  rw [ofInfix_eq_ok fun _ => symbol?_of_mem_yield, order_yield]

end Derivation

end DeskCalculator
