import DeskCalculator.Proofs.Matching
import DeskCalculator.Proofs.Passes

namespace DeskCalculator

namespace Postfix

open Parentheses

variable {stack above : List Pending} {token : Token} {tokens : List Token}

theorem dropWhile_isOperator_of_group (h : .group ∈ stack) :
    ∃ below, stack.dropWhile Pending.isOperator = .group :: below := by
  induction stack with
  | nil => cases h
  | cons top stack ih =>
      cases top with
      | group => exact ⟨stack, rfl⟩
      | operator op => exact ih (by simpa using h)

theorem count_group_pushed (stack : List Pending) (token : Token) :
    (pushed stack token).count .group = depthAfter (stack.count .group) token := by
  cases token with
  | operator op => simpa [pushed, depthAfter] using count_dropWhile rfl stack
  | openParen => simp [pushed, depthAfter]
  | closeParen =>
      have hcount := count_dropWhile (p := Pending.isOperator) (a := .group) rfl stack
      by_cases h : .group ∈ stack
      · obtain ⟨below, hbelow⟩ := dropWhile_isOperator_of_group h
        rw [hbelow] at hcount
        simp [pushed, depthAfter, hbelow, ← hcount]
      · have hzero : stack.count .group = 0 := List.count_eq_zero.mpr h
        have hle := (List.tail_sublist (stack.dropWhile Pending.isOperator)).count_le .group
        simp only [pushed, depthAfter]
        omega
  | number | identifier | symbol => rfl

/-- In the run over these tokens every closing parenthesis finds a group on the stack to
take off, and no group is left there at the end. -/
structure Paired (tokens : List Token) : Prop where
  closes : ∀ front back, tokens = front ++ .closeParen :: back →
    ∃ below, (front.foldl pushed []).dropWhile Pending.isOperator = .group :: below
  ends : .group ∉ tokens.foldl pushed []

theorem balancedTokens_iff_group (stack : List Pending) (tokens : List Token) :
    balancedTokens (stack.count .group) tokens = true ↔
      (∀ front back, tokens = front ++ .closeParen :: back → .group ∈ front.foldl pushed stack) ∧
        .group ∉ tokens.foldl pushed stack := by
  induction tokens generalizing stack with
  | nil => simp [balancedTokens, List.count_eq_zero]
  | cons token rest ih =>
      rw [balancedTokens_cons_iff, ← count_group_pushed, ih, List.count_pos_iff, List.foldl_cons,
        ← and_assoc]
      apply and_congr_left'
      constructor
      · rintro ⟨htoken, hrest⟩ front back hsplit
        rcases List.cons_eq_append_iff.mp hsplit with ⟨rfl, hclose⟩ | ⟨front, rfl, hback⟩
        · exact htoken (List.cons.inj hclose).1.symm
        · exact hrest front back hback
      · intro h
        refine ⟨?_, fun front back hsplit => ?_⟩
        · rintro rfl
          exact h [] rest rfl
        · exact h (token :: front) back (by rw [hsplit, List.cons_append])

theorem paired_iff : Paired tokens ↔ balancedTokens 0 tokens = true := by
  have hgroups := balancedTokens_iff_group [] tokens
  rw [List.count_nil] at hgroups
  rw [hgroups]
  constructor
  · intro h
    refine ⟨fun front back hsplit => ?_, h.ends⟩
    obtain ⟨below, hbelow⟩ := h.closes front back hsplit
    exact (List.dropWhile_suffix _).subset (by rw [hbelow]; simp)
  · rintro ⟨hcloses, hends⟩
    exact ⟨fun front back hsplit => dropWhile_isOperator_of_group (hcloses front back hsplit), hends⟩

/-- Nothing but a closing parenthesis that has no group above gets at a group and what
lies below it. -/
theorem pushed_append_group (h : token = .closeParen → .group ∈ above) (below : List Pending) :
    pushed (above ++ .group :: below) token = pushed above token ++ .group :: below := by
  have hdrop (p : Pending → Bool) (hp : p .group = false) :
      (above ++ .group :: below).dropWhile p = above.dropWhile p ++ .group :: below := by
    rw [List.dropWhile_append]
    split
    next hempty => rw [List.isEmpty_iff.mp hempty, List.dropWhile_cons_of_neg (by simp [hp])]; rfl
    next => rfl
  cases token with
  | operator op => simp [pushed, hdrop _ (rfl : Pending.precedes op .group = false)]
  | closeParen =>
      obtain ⟨rest, hrest⟩ := dropWhile_isOperator_of_group (h rfl)
      simp [pushed, hdrop _ (rfl : Pending.isOperator .group = false), hrest]
  | number | identifier | symbol | openParen => rfl

theorem foldl_pushed_append_group (above : List Pending)
    (h : balancedTokens (above.count .group) tokens = true) (below : List Pending) :
    tokens.foldl pushed (above ++ .group :: below) = tokens.foldl pushed above ++ .group :: below := by
  induction tokens generalizing above with
  | nil => rfl
  | cons token rest ih =>
      obtain ⟨htoken, hrest⟩ := balancedTokens_cons_iff.mp h
      rw [List.foldl_cons, List.foldl_cons,
        pushed_append_group fun hclose => List.count_pos_iff.mp (htoken hclose)]
      apply ih
      rw [count_group_pushed]
      exact hrest

theorem isOperator_of_no_group (h : .group ∉ stack) : ∀ top ∈ stack, top.isOperator = true := by
  intro top htop
  cases top with
  | operator op => rfl
  | group => exact absurd htop h

theorem dropWhile_foldl_pushed_group (h : balancedTokens 0 tokens = true) (below : List Pending) :
    (tokens.foldl pushed (.group :: below)).dropWhile Pending.isOperator = .group :: below := by
  have hfold : tokens.foldl pushed (.group :: below) = tokens.foldl pushed [] ++ .group :: below :=
    foldl_pushed_append_group [] h below
  have hnone := ((balancedTokens_iff_group [] tokens).mp h).2
  rw [hfold, List.dropWhile_append_of_pos (isOperator_of_no_group hnone)]
  rfl

theorem closes_matching (h : balancedTokens 0 tokens = true) {front back : List Token}
    (hsplit : tokens = front ++ .closeParen :: back) :
    ∃ outer inner, front = outer ++ .openParen :: inner ∧ balancedTokens 0 inner = true ∧
      (front.foldl pushed []).dropWhile Pending.isOperator = .group :: outer.foldl pushed [] := by
  have hopened : unopened (front ++ .closeParen :: back) = 0 := by
    rw [← hsplit]
    exact (balancedTokens_iff.mp h).1
  rw [unopened_append, unopened] at hopened
  obtain ⟨outer, inner, rfl, hinner⟩ := (closes_iff front).mpr (by omega)
  refine ⟨outer, inner, rfl, hinner, ?_⟩
  rw [List.foldl_append]
  exact dropWhile_foldl_pushed_group hinner _

end Postfix

namespace Expression

open Token Parentheses

/-- The count of parentheses in a text says what becomes of the groups on the stack. In a
balanced text each group is taken off by the parenthesis that matches the one that put it
there, so it makes no difference what would be done about groups that are not paired. A
symbol ends a run early, and up to it the stack is the same. -/
theorem balanced_iff_paired :
    (∀ text tokens, tokenize text = .ok tokens →
      (balanced text = true ↔ Postfix.Paired tokens) ∧
      (balanced text = true → ∀ front back, tokens = front ++ .closeParen :: back →
        ∃ outer inner, front = outer ++ .openParen :: inner ∧ balancedTokens 0 inner = true ∧
          (front.foldl Postfix.pushed []).dropWhile Postfix.Pending.isOperator =
            .group :: outer.foldl Postfix.pushed [])) ∧
    ∀ order : List Token → Except Fault (List Token),
      (∀ tokens, Postfix.Paired tokens → order tokens = Postfix.ofInfix tokens) →
      ∀ text, toPostfix text =
          (if balanced (Blank.trim text) then tokenize (Blank.trim text) >>= order
            else .error .unbalancedParentheses) ∧
        ∀ store, evaluate store text =
          if Blank.trim text = "" then .ok 0
          else (if balanced (Blank.trim text) then tokenize (Blank.trim text) >>= order
            else .error .unbalancedParentheses) >>= Postfix.evaluate store := by
  constructor
  · intro text tokens h
    rw [balanced_of_tokenize h, Postfix.paired_iff]
    exact ⟨Iff.rfl, fun hbalanced _ _ => Postfix.closes_matching hbalanced⟩
  · intro order horder text
    have hconvert : toPostfix text =
        if balanced (Blank.trim text) then tokenize (Blank.trim text) >>= order
          else .error .unbalancedParentheses := by
      rw [toPostfix, convert]
      split
      next hbalanced =>
        cases htokens : tokenize (Blank.trim text) with
        | error fault => rfl
        | ok tokens =>
            rw [balanced_of_tokenize htokens] at hbalanced
            exact (horder tokens (Postfix.paired_iff.mpr hbalanced)).symm
      next => rfl
    refine ⟨hconvert, fun store => ?_⟩
    by_cases hblank : Blank.trim text = ""
    · rw [evaluate, if_pos (String.isEmpty_iff.mpr hblank), if_pos hblank]
    · rw [evaluate_of_not_blank hblank, if_neg hblank, hconvert]

theorem balanced_iff_paired_strays :
    Postfix.Paired [.openParen, .openParen, .number "1", .closeParen, .operator .subtract,
        .identifier "x", .closeParen] ∧
      ¬ Postfix.Paired [.closeParen, .number "1", .openParen] ∧
      toPostfix "((1)-x)" = .ok [.number "1", .identifier "x", .operator .subtract] ∧
      evaluate .empty ")1(" = .error .unbalancedParentheses := by
  have hnested := (balanced_iff_paired.1 "((1)-x)" _ rfl).1
  have hstrays := (balanced_iff_paired.1 ")1(" _ rfl).1
  have hrefusing := balanced_iff_paired.2
    (fun tokens => if balancedTokens 0 tokens then Postfix.ofInfix tokens else .error .malformedExpression)
    (fun tokens h => if_pos (Postfix.paired_iff.mp h))
  refine ⟨hnested.mp rfl, mt hstrays.mpr (by decide), ?_, ?_⟩
  · rw [(hrefusing "((1)-x)").1]
    rfl
  · rw [(hrefusing ")1(").2 .empty]
    rfl

end Expression

end DeskCalculator
