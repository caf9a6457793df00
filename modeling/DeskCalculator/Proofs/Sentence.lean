import DeskCalculator.Proofs.Passes
import DeskCalculator.Proofs.ShuntingYard

namespace DeskCalculator.Expression

open Token

/-- A text that reads as a sentence has the value of the tree that its derivation tells.
It may meet an unknown variable or divide by zero, but there is no other fault. -/
theorem evaluate_sentence (store : Store) (text : String) (phrase : Derivation .sum)
    (h : tokenize (Blank.trim text) = .ok phrase.yield) :
    evaluate store text = phrase.tree.value store ∧
      ∀ fault, evaluate store text = .error fault →
        fault = .divisionByZero ∨ ∃ name, fault = .unknownVariable name := by
  have hbalanced : Parentheses.balancedTokens 0 phrase.yield = true := by
    rw [← List.append_nil phrase.yield, phrase.balancedTokens_yield]
    rfl
  have hpostfix : toPostfix text = .ok phrase.tree.postorder := by
    rw [toPostfix_eq_ofInfix h hbalanced, Postfix.ofInfix_eq_ok fun _ => phrase.symbol?_of_mem_yield,
      phrase.order_yield]
  have hvalue : evaluate store text = phrase.tree.value store := by
    rw [evaluate_eq_bind h phrase.yield_ne_nil, hpostfix]
    exact Postfix.evaluate_postorder store phrase.tree
  refine ⟨hvalue, fun fault hfault => ?_⟩
  rw [hvalue] at hfault
  exact Tree.value_error_kind hfault

theorem evaluate_sentence_quotient :
    evaluate (Store.empty.insert "x" 3) " 7 - ((2)) * x / -0 " = .error .divisionByZero := by
  let numeral (text : String) : Derivation .product :=
    .ofPower (.ofPrimary (.leaf (.number text)))
  let group : Derivation .primary :=
    .group (.ofProduct (.ofPower (.ofPrimary (.group (.ofProduct (numeral "2"))))))
  let product : Derivation .product :=
    .product (.ofPower (.ofPrimary group)) .multiply (.inl rfl) (.ofPrimary (.leaf (.identifier "x")))
  let quotient : Derivation .product :=
    .product product .divide (.inr rfl) (.ofPrimary (.leaf (.number "-0")))
  let phrase : Derivation .sum :=
    .sum (.ofProduct (numeral "7")) .subtract (.inr rfl) quotient
  have h := (evaluate_sentence (Store.empty.insert "x" 3) " 7 - ((2)) * x / -0 " phrase rfl).1
  rw [h, Tree.value_eq_error_iff]
  decide

end DeskCalculator.Expression
