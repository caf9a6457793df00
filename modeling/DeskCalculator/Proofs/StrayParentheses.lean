import DeskCalculator.Proofs.GroupOperand

namespace DeskCalculator

open Token

namespace Parentheses

def enclosed (opening closing : Nat) (tokens : List Token) : List Token :=
  List.replicate opening .openParen ++ tokens ++ List.replicate closing .closeParen

def completed (tokens : List Token) : List Token :=
  enclosed (strayCloses tokens) (leftoverOpens tokens) tokens

theorem counts_replicate (n : Nat) (token : Token) :
    unclosed (List.replicate n token) = n * unclosed [token] ∧
      unopened (List.replicate n token) = n * unopened [token] := by
  induction n with
  | zero => simp [unclosed, unopened]
  | succ n ih =>
      obtain ⟨hunclosed, hunopened⟩ := ih
      rw [List.replicate_succ, ← List.singleton_append, unclosed_append, unopened_append, hunclosed,
        hunopened]
      cases token <;> simp [unclosed, unopened, depthAfter, Nat.add_comm]

theorem balancedTokens_enclosed_iff {opening closing : Nat} {tokens : List Token} :
    balancedTokens 0 (enclosed opening closing tokens) = true ↔
      unopened tokens ≤ opening ∧ unclosed tokens + (opening - unopened tokens) = closing := by
  obtain ⟨hunclosed, hunopened⟩ := counts_replicate opening .openParen
  obtain ⟨hunclosed', hunopened'⟩ := counts_replicate closing .closeParen
  have hopen : unclosed [.openParen] = 1 ∧ unopened [.openParen] = 0 := ⟨rfl, rfl⟩
  have hclose : unclosed [.closeParen] = 0 ∧ unopened [.closeParen] = 1 := ⟨rfl, rfl⟩
  rw [balancedTokens_iff, enclosed]
  simp only [unopened_append, unclosed_append, hunclosed, hunopened, hunclosed', hunopened', hopen,
    hclose]
  omega

theorem balancedTokens_completed (tokens : List Token) :
    balancedTokens 0 (completed tokens) = true := by
  rw [completed, strayCloses_eq, leftoverOpens_eq, balancedTokens_enclosed_iff]
  omega

theorem exists_enclosed_front {front back : List Token} (h : ¬ Closes front) :
    ∃ opening < strayCloses (front ++ .closeParen :: back),
      balancedTokens 0 (enclosed opening 0 front) = true := by
  rw [closes_iff] at h
  refine ⟨unopened front, ?_, balancedTokens_enclosed_iff.mpr ?_⟩
  · rw [strayCloses_eq, unopened_append, unopened]
    omega
  · omega

theorem exists_enclosed_back {front back : List Token} (h : ¬ IsClosedIn back) :
    ∃ closing < leftoverOpens (front ++ .openParen :: back),
      balancedTokens 0 (enclosed 0 closing back) = true := by
  rw [isClosedIn_iff] at h
  refine ⟨unclosed back, ?_, balancedTokens_enclosed_iff.mpr ?_⟩
  · rw [leftoverOpens_eq, unclosed_append, unclosed_cons, unopened, depthAfter]
    omega
  · omega

end Parentheses

namespace Postfix

open Parentheses

theorem released_append_groups (stack : List Pending) (n : Nat) (token : Token) :
    released (stack ++ List.replicate n .group) token = released stack token := by
  cases n with
  | zero => rw [List.replicate_zero, List.append_nil]
  | succ n => exact released_append_group stack _ token

/-- A closing parenthesis that would clear the stack takes one of the groups at the bottom
instead, and all above that one is gone either way. -/
theorem exists_pushed_append_groups (stack : List Pending) (n : Nat) (token : Token) :
    ∃ k, pushed (stack ++ List.replicate n .group) token =
      pushed stack token ++ List.replicate k .group := by
  cases n with
  | zero => exact ⟨0, by simp⟩
  | succ n =>
      by_cases hclears : token = .closeParen ∧ .group ∉ stack
      · obtain ⟨rfl, hnone⟩ := hclears
        have hops := isOperator_of_no_group hnone
        refine ⟨n, ?_⟩
        rw [pushed, pushed, List.dropWhile_append_of_pos hops, List.dropWhile_eq_nil_iff.mpr hops]
        rfl
      · refine ⟨n + 1, pushed_append_group (fun hclose => ?_) _⟩
        by_contra hnone
        exact hclears ⟨hclose, hnone⟩

theorem operators_groups (n : Nat) : operators (List.replicate n .group) = [] := by
  induction n with
  | zero => rfl
  | succ n ih => exact ih

theorem order_append_groups (stack : List Pending) (n : Nat) (tokens : List Token) :
    order (stack ++ List.replicate n .group) tokens = order stack tokens := by
  induction tokens generalizing stack n with
  | nil =>
      have hsplit : operators (stack ++ List.replicate n .group) =
          operators stack ++ operators (List.replicate n .group) := List.filterMap_append
      rw [order, order, hsplit, operators_groups, List.append_nil]
  | cons token rest ih =>
      obtain ⟨k, hpushed⟩ := exists_pushed_append_groups stack n token
      rw [order, order, released_append_groups, hpushed, ih]

theorem order_closing (stack : List Pending) (n : Nat) :
    order stack (List.replicate n .closeParen) = operators stack := by
  induction n generalizing stack with
  | zero => rfl
  | succ n ih =>
      rw [List.replicate_succ, order, ih, released, pushed, operators_tail_dropWhile,
        operators_takeWhile_append]

theorem emitted_opening (stack : List Pending) (n : Nat) :
    emitted stack (List.replicate n .openParen) = [] := by
  induction n generalizing stack with
  | zero => rfl
  | succ n ih => exact ih _

theorem foldl_pushed_opening (n : Nat) :
    (List.replicate n .openParen).foldl pushed [] = List.replicate n .group := by
  induction n with
  | zero => rfl
  | succ n ih =>
      rw [List.replicate_succ', List.foldl_append, ih]
      rfl

theorem order_enclosed (opening closing : Nat) (tokens : List Token) :
    order [] (enclosed opening closing tokens) = order [] tokens := by
  have hgroups := order_append_groups [] opening (tokens ++ List.replicate closing .closeParen)
  rw [List.nil_append] at hgroups
  calc order [] (enclosed opening closing tokens)
    _ = order (List.replicate opening .group) (tokens ++ List.replicate closing .closeParen) := by
      rw [enclosed, List.append_assoc, order_append, emitted_opening, foldl_pushed_opening,
        List.nil_append]
    _ = order [] (tokens ++ List.replicate closing .closeParen) := hgroups
    _ = order [] tokens := by rw [order_append, order_closing, order_eq]

theorem findSome?_symbol?_replicate {token : Token} (h : token.symbol? = none) (n : Nat) :
    (List.replicate n token).findSome? symbol? = none := by
  apply List.findSome?_eq_none_iff.mpr
  intro other hmem
  rwa [List.eq_of_mem_replicate hmem]

theorem ofInfix_enclosed (opening closing : Nat) (tokens : List Token) :
    ofInfix (enclosed opening closing tokens) = ofInfix tokens := by
  have hsymbols : (enclosed opening closing tokens).findSome? symbol? = tokens.findSome? symbol? := by
    rw [enclosed, List.findSome?_append, List.findSome?_append, findSome?_symbol?_replicate rfl,
      findSome?_symbol?_replicate rfl, Option.none_or, Option.or_none]
  rw [ofInfix, ofInfix, hsymbols, order_enclosed]

/-- A text with parentheses that are not matched goes out as the text that they are added to does.
There a stray closing parenthesis closes a group that holds all in front of it, and a leftover
opening one starts a group that holds all behind it. -/
theorem ofInfix_completed (tokens : List Token) :
    balancedTokens 0 (completed tokens) = true ∧ ofInfix tokens = ofInfix (completed tokens) ∧
    (∀ front back, tokens = front ++ .closeParen :: back → ¬ Closes front →
      ∃ opening < strayCloses tokens, balancedTokens 0 (enclosed opening 0 front) = true) ∧
    ∀ front back, tokens = front ++ .openParen :: back → ¬ IsClosedIn back →
      ∃ closing < leftoverOpens tokens, balancedTokens 0 (enclosed 0 closing back) = true := by
  refine ⟨balancedTokens_completed tokens, (ofInfix_enclosed _ _ tokens).symm, ?_, ?_⟩
  · rintro front back rfl hstray
    exact exists_enclosed_front hstray
  · rintro front back rfl hleftover
    exact exists_enclosed_back hleftover

theorem ofInfix_completed_strays :
    (ofInfix [.identifier "x", .operator .add, .number "1", .closeParen, .operator .multiply, .openParen,
          .number "2", .closeParen, .closeParen, .operator .power, .openParen, .identifier "y"] =
        .ok [.identifier "x", .number "1", .operator .add, .number "2", .operator .multiply,
          .identifier "y", .operator .power] ∧
      ofInfix [.openParen, .openParen, .identifier "x", .operator .add, .number "1", .closeParen,
          .operator .multiply, .openParen, .number "2", .closeParen, .closeParen, .operator .power,
          .openParen, .identifier "y", .closeParen] =
        .ok [.identifier "x", .number "1", .operator .add, .number "2", .operator .multiply,
          .identifier "y", .operator .power]) ∧
    (∃ opening < 2, balancedTokens 0 (enclosed opening 0 [.identifier "x", .operator .add, .number "1",
      .closeParen, .operator .multiply, .openParen, .number "2", .closeParen]) = true) ∧
    ∃ closing < 1, balancedTokens 0 (enclosed 0 closing [.identifier "y"]) = true := by
  obtain ⟨-, hcompleted, hstray, hleftover⟩ := ofInfix_completed [.identifier "x", .operator .add,
    .number "1", .closeParen, .operator .multiply, .openParen, .number "2", .closeParen, .closeParen,
    .operator .power, .openParen, .identifier "y"]
  exact ⟨⟨rfl, hcompleted.symm⟩, hstray _ [.operator .power, .openParen, .identifier "y"] rfl (by decide),
    hleftover [.identifier "x", .operator .add, .number "1", .closeParen, .operator .multiply,
      .openParen, .number "2", .closeParen, .closeParen, .operator .power] _ rfl (by decide)⟩

end Postfix

end DeskCalculator
