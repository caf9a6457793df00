import DeskCalculator.Postfix

namespace DeskCalculator

namespace Token

def isCarried : Token → Bool
  | .number _ | .identifier _ | .operator _ => true
  | .symbol _ | .openParen | .closeParen => false

theorem isCarried_of_isOperator {token : Token} (h : token.isOperator = true) :
    token.isCarried = true := by
  cases token with
  | operator op => rfl
  | number | identifier | symbol | openParen | closeParen => cases h

end Token

theorem count_dropWhile {α : Type} [BEq α] [LawfulBEq α] {p : α → Bool} {a : α} (ha : p a = false)
    (items : List α) : (items.dropWhile p).count a = items.count a := by
  have hfront : (items.takeWhile p).count a = 0 := by
    refine List.count_eq_zero.mpr fun hmem => ?_
    rw [List.all_eq_true.mp List.all_takeWhile a hmem] at ha
    cases ha
  have hall := congrArg (List.count a) (List.takeWhile_append_dropWhile (p := p) (l := items))
  rwa [List.count_append, hfront, Nat.zero_add] at hall

namespace Postfix

theorem operators_takeWhile_append (p : Pending → Bool) (stack : List Pending) :
    operators (stack.takeWhile p) ++ operators (stack.dropWhile p) = operators stack := by
  rw [operators, operators, ← List.filterMap_append, List.takeWhile_append_dropWhile, operators]

theorem operators_tail_dropWhile (stack : List Pending) :
    operators (stack.dropWhile Pending.isOperator).tail =
      operators (stack.dropWhile Pending.isOperator) := by
  have h := List.head?_dropWhile_not Pending.isOperator stack
  cases hd : stack.dropWhile Pending.isOperator with
  | nil => rfl
  | cons top below =>
      rw [hd] at h
      cases top with
      | operator op => cases h
      | group => rfl

theorem released_perm (stack : List Pending) (token : Token) :
    (released stack token ++ operators (pushed stack token)).Perm
      (operators stack ++ [token].filter Token.isCarried) := by
  cases token with
  | number text => exact List.perm_append_comm
  | identifier name => exact List.perm_append_comm
  | operator op =>
      have h := operators_takeWhile_append (Pending.precedes op) stack
      rw [← h, List.append_assoc]
      exact (List.perm_append_singleton (Token.operator op) _).symm.append_left _
  | symbol character => simp [released, pushed, Token.isCarried]
  | openParen =>
      simp [released, pushed, operators, List.filterMap_cons, Pending.token?, Token.isCarried]
  | closeParen =>
      simp [released, pushed, operators_tail_dropWhile, operators_takeWhile_append, Token.isCarried]

theorem order_perm (stack : List Pending) (tokens : List Token) :
    (order stack tokens).Perm (operators stack ++ tokens.filter Token.isCarried) := by
  induction tokens generalizing stack with
  | nil => simp [order]
  | cons token rest ih =>
      have hsplit : (token :: rest).filter Token.isCarried =
          [token].filter Token.isCarried ++ rest.filter Token.isCarried := by
        rw [← List.filter_append, List.singleton_append]
      rw [order, hsplit, ← List.append_assoc]
      refine ((ih (pushed stack token)).append_left _).trans ?_
      rw [← List.append_assoc]
      exact (released_perm stack token).append_right _

theorem ofInfix_eq_ok_iff {tokens result : List Token} :
    ofInfix tokens = .ok result ↔
      (∀ token ∈ tokens, token.symbol? = none) ∧ order [] tokens = result := by
  rw [ofInfix, ← List.findSome?_eq_none_iff]
  cases tokens.findSome? Token.symbol? <;> simp

theorem ofInfix_perm {tokens result : List Token} (h : ofInfix tokens = .ok result) :
    result.Perm (tokens.filter Token.isCarried) := by
  obtain ⟨-, rfl⟩ := ofInfix_eq_ok_iff.mp h
  exact order_perm [] tokens

theorem isCarried_of_ofInfix {tokens result : List Token} (h : ofInfix tokens = .ok result) :
    ∀ token ∈ result, token.isCarried = true :=
  fun _ hmem => (List.mem_filter.mp ((ofInfix_perm h).mem_iff.mp hmem)).2

theorem mem_of_ofInfix {tokens result : List Token} (h : ofInfix tokens = .ok result)
    {token : Token} (hmem : token ∈ result) : token ∈ tokens :=
  (List.mem_filter.mp ((ofInfix_perm h).mem_iff.mp hmem)).1

theorem countP_ofInfix {tokens result : List Token} (h : ofInfix tokens = .ok result)
    {p : Token → Bool} (hp : ∀ token, p token = true → token.isCarried = true) :
    result.countP p = tokens.countP p := by
  rw [(ofInfix_perm h).countP_eq p, List.countP_filter]
  refine List.countP_congr fun token _ => ?_
  simpa using hp token

end Postfix

end DeskCalculator
