import DeskCalculator.Proofs.Adjacency
import DeskCalculator.Proofs.Passes
import Mathlib.Control.Monad.Basic

namespace DeskCalculator

theorem Tree.countP_postorder (tree : Tree) :
    tree.postorder.countP Token.isOperand = tree.postorder.countP Token.isOperator + 1 := by
  induction tree with
  | leaf operand => cases operand <;> rfl
  | node op left right ihl ihr =>
      simp only [postorder, List.countP_append, ihl, ihr]
      simp [Token.isOperand, Token.isOperator]
      omega

namespace Token

theorem Juxtaposed.ne_nil {tokens : List Token} (h : Juxtaposed tokens) : tokens ≠ [] := by
  rintro rfl
  obtain ⟨a, b, hinfix, -, -⟩ := h
  exact absurd (List.infix_nil.mp hinfix) (by simp)

end Token

namespace Expression

open Token

variable {text : String} {tokens : List Token} {tree : Tree}

theorem countP_isOperand_of_toPostfix (h : tokenize (Blank.trim text) = .ok tokens)
    (htree : toPostfix text = .ok tree.postorder) :
    tokens.countP isOperand = tokens.countP isOperator + 1 := by
  obtain ⟨-, horder⟩ := (toPostfix_eq_ok_iff h).mp htree
  rw [← Postfix.countP_ofInfix horder fun _ => isCarried_of_isOperand,
    ← Postfix.countP_ofInfix horder fun _ => isCarried_of_isOperator, tree.countP_postorder]

/-- Only a missing operand makes up for one too many. -/
theorem juxtapositions_eq_vacancies (h : tokenize (Blank.trim text) = .ok tokens)
    (htree : toPostfix text = .ok tree.postorder) : juxtapositions tokens = vacancies tokens := by
  obtain ⟨-, horder⟩ := (toPostfix_eq_ok_iff h).mp htree
  have hplaces := countP_places none (Postfix.ofInfix_eq_ok_iff.mp horder).1
  have hcounts := countP_isOperand_of_toPostfix h htree
  simp only [Option.any_none, Bool.toNat_false] at hplaces
  rw [juxtapositions, vacancies]
  omega

/-- Two operands side by side are refused unless just as many are missing elsewhere in the
text. Where the numbers agree, all depends on the postfix order: it has a value if it is
the postorder of a tree, made of the operands and operators of the text and no other. -/
theorem evaluate_juxtaposed (store : Store) (h : tokenize (Blank.trim text) = .ok tokens)
    (hjuxtaposed : Juxtaposed tokens) :
    (juxtapositions tokens ≠ vacancies tokens → ∃ fault, evaluate store text = .error fault) ∧
      ∀ value, evaluate store text = .ok value ↔
        ∃ tree : Tree, toPostfix text = .ok tree.postorder ∧
          tree.postorder.Perm (tokens.filter Token.isCarried) ∧ tree.value store = .ok value := by
  have hblank := not_blank_of_tokenize h hjuxtaposed.ne_nil
  constructor
  · intro hne
    exact exists_fault_of_no_tree hblank
      (fun _ htree => hne (juxtapositions_eq_vacancies h htree)) store
  · intro value
    rw [evaluate_eq_ok_iff hblank]
    constructor
    · rintro ⟨tree, htree, hvalue⟩
      exact ⟨tree, htree, Postfix.ofInfix_perm ((toPostfix_eq_ok_iff h).mp htree).2, hvalue⟩
    · rintro ⟨tree, htree, -, hvalue⟩
      exact ⟨tree, htree, hvalue⟩

theorem evaluate_juxtaposed_product :
    tokenize (Blank.trim "3x-1") =
        .ok [.number "3", .identifier "x", .operator .subtract, .number "1"] ∧
      Juxtaposed [.number "3", .identifier "x", .operator .subtract, .number "1"] ∧
      juxtapositions [.number "3", .identifier "x", .operator .subtract, .number "1"] ≠
        vacancies [.number "3", .identifier "x", .operator .subtract, .number "1"] ∧
      ∃ fault, evaluate (Store.empty.insert "x" 5) "3x-1" = .error fault := by
  have h : tokenize (Blank.trim "3x-1") =
      .ok [.number "3", .identifier "x", .operator .subtract, .number "1"] := rfl
  have hrefused := (evaluate_juxtaposed (Store.empty.insert "x" 5) h (by decide)).1 (by decide)
  exact ⟨h, by decide, by decide, hrefused⟩

theorem evaluate_operator_behind :
    tokenize (Blank.trim "1 2 +") = .ok [.number "1", .number "2", .operator .add] ∧
      Juxtaposed [.number "1", .number "2", .operator .add] ∧ evaluate .empty "1 2 +" = .ok 3 :=
  ⟨rfl, by decide, by decide +kernel⟩

end Expression

end DeskCalculator
