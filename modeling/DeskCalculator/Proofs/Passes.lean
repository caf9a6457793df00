import DeskCalculator.Expression
import DeskCalculator.Proofs.Balance
import DeskCalculator.Proofs.Conservation
import DeskCalculator.Proofs.TreeEvaluation

namespace DeskCalculator.Expression

open Token

theorem toPostfix_eq_ofInfix {text : String} {tokens : List Token}
    (h : tokenize (Blank.trim text) = .ok tokens)
    (hbalanced : Parentheses.balancedTokens 0 tokens = true) :
    toPostfix text = Postfix.ofInfix tokens := by
  rw [← Parentheses.balanced_of_tokenize h] at hbalanced
  rw [toPostfix, convert, if_pos hbalanced, h]
  rfl

theorem toPostfix_eq_ok_iff {text : String} {tokens result : List Token}
    (h : tokenize (Blank.trim text) = .ok tokens) :
    toPostfix text = .ok result ↔
      Parentheses.balancedTokens 0 tokens = true ∧ Postfix.ofInfix tokens = .ok result := by
  constructor
  · intro hresult
    rw [toPostfix, convert] at hresult
    split at hresult
    next hbalanced =>
      rw [Parentheses.balanced_of_tokenize h] at hbalanced
      rw [h] at hresult
      exact ⟨hbalanced, hresult⟩
    next => cases hresult
  · rintro ⟨hbalanced, hresult⟩
    rw [toPostfix_eq_ofInfix h hbalanced, hresult]

theorem exists_tokens_of_toPostfix {text : String} {result : List Token}
    (h : toPostfix text = .ok result) :
    ∃ tokens, tokenize (Blank.trim text) = .ok tokens ∧ Postfix.ofInfix tokens = .ok result := by
  rw [toPostfix, convert] at h
  split at h
  · exact Fault.bind_eq_ok_iff.mp h
  · cases h

theorem toPostfix_congr {a b : String} {tokens : List Token} (ha : tokenize (Blank.trim a) = .ok tokens)
    (hb : tokenize (Blank.trim b) = .ok tokens) : toPostfix a = toPostfix b := by
  rw [toPostfix, convert, Parentheses.balanced_of_tokenize ha, ha, toPostfix, convert,
    Parentheses.balanced_of_tokenize hb, hb]

theorem evaluate_of_not_blank {text : String} (h : Blank.trim text ≠ "") (store : Store) :
    evaluate store text = toPostfix text >>= Postfix.evaluate store := by
  rw [evaluate, if_neg (mt String.isEmpty_iff.mp h)]

theorem not_blank_of_tokenize {text : String} {tokens : List Token}
    (h : tokenize (Blank.trim text) = .ok tokens) (hne : tokens ≠ []) : Blank.trim text ≠ "" := by
  intro hempty
  rw [hempty] at h
  exact hne (Except.ok.inj h).symm

theorem evaluate_eq_bind {text : String} {tokens : List Token}
    (h : tokenize (Blank.trim text) = .ok tokens) (hne : tokens ≠ []) (store : Store) :
    evaluate store text = toPostfix text >>= Postfix.evaluate store :=
  evaluate_of_not_blank (not_blank_of_tokenize h hne) store

/-- No check of the grammar stands before the evaluator: a text has a value if it is put
into the postorder of a tree that has one. -/
theorem evaluate_eq_ok_iff {text : String} (h : Blank.trim text ≠ "") {store : Store} {value : Float} :
    evaluate store text = .ok value ↔
      ∃ tree : Tree, toPostfix text = .ok tree.postorder ∧ tree.value store = .ok value := by
  rw [evaluate_of_not_blank h, Fault.bind_eq_ok_iff]
  constructor
  · rintro ⟨result, hresult, hvalue⟩
    obtain ⟨tree, rfl⟩ := Postfix.exists_tree_of_evaluate hvalue
    exact ⟨tree, hresult, Postfix.evaluate_postorder store tree ▸ hvalue⟩
  · rintro ⟨tree, hresult, hvalue⟩
    exact ⟨tree.postorder, hresult, (Postfix.evaluate_postorder store tree).trans hvalue⟩

theorem exists_fault_of_no_tree {text : String} (h : Blank.trim text ≠ "")
    (hnone : ∀ tree : Tree, toPostfix text ≠ .ok tree.postorder) (store : Store) :
    ∃ fault, evaluate store text = .error fault := by
  cases hvalue : evaluate store text with
  | error fault => exact ⟨fault, rfl⟩
  | ok value =>
      obtain ⟨tree, htree, -⟩ := (evaluate_eq_ok_iff h).mp hvalue
      exact absurd htree (hnone tree)

end DeskCalculator.Expression
