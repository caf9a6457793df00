import DeskCalculator.Proofs.Adjacency

namespace DeskCalculator

open Token

theorem Token.symbol?_eq_none_iff {token : Token} :
    token.symbol? = none ↔ ∀ character, token ≠ .symbol character := by
  cases token <;> simp [symbol?]

theorem Token.forall_symbol?_eq_none_iff {tokens : List Token} :
    (∀ token ∈ tokens, token.symbol? = none) ↔ ∀ character, .symbol character ∉ tokens := by
  simp only [symbol?_eq_none_iff]
  constructor
  · intro h character hmem
    exact h _ hmem character rfl
  · rintro h token hmem character rfl
    exact h character hmem

namespace Postfix

theorem filter_isOperand_operators (stack : List Pending) : (operators stack).filter isOperand = [] := by
  apply List.filter_eq_nil_iff.mpr
  intro token hmem
  obtain ⟨waiting, -, htoken⟩ := List.mem_filterMap.mp hmem
  cases waiting with
  | operator op =>
      cases htoken
      exact Bool.false_ne_true
  | group => cases htoken

theorem filter_isOperand_released (stack : List Pending) (token : Token) :
    (released stack token).filter isOperand = [token].filter isOperand := by
  cases token with
  | operator op | closeParen => exact filter_isOperand_operators _
  | number | identifier | symbol | openParen => rfl

theorem filter_isOperand_order (stack : List Pending) (tokens : List Token) :
    (order stack tokens).filter isOperand = tokens.filter isOperand := by
  induction tokens generalizing stack with
  | nil => exact filter_isOperand_operators stack
  | cons token rest ih =>
      rw [order, List.filter_append, filter_isOperand_released, ih, ← List.filter_append,
        List.singleton_append]

theorem mem_order_iff {stack : List Pending} {tokens : List Token} {operand : Token}
    (h : operand.isOperand = true) : operand ∈ order stack tokens ↔ operand ∈ tokens := by
  have hfilter (items : List Token) : operand ∈ items ↔ operand ∈ items.filter isOperand := by
    simp [h]
  rw [hfilter, filter_isOperand_order, ← hfilter]

theorem ofInfix_eq_error_iff {tokens : List Token} {fault : Fault} :
    ofInfix tokens = .error fault ↔
      ∃ front character back, tokens = front ++ .symbol character :: back ∧
        (∀ other, .symbol other ∉ front) ∧ fault = .unsupportedOperator character := by
  constructor
  · intro h
    rw [ofInfix] at h
    split at h
    next character hfound =>
      obtain ⟨front, token, back, rfl, htoken, hfront⟩ := List.findSome?_eq_some_iff.mp hfound
      cases token with
      | symbol other =>
          cases htoken
          exact ⟨front, character, back, rfl, forall_symbol?_eq_none_iff.mp hfront,
            (Except.error.inj h).symm⟩
      | number | identifier | operator | openParen | closeParen => cases htoken
    next => cases h
  · rintro ⟨front, character, back, rfl, hfront, rfl⟩
    have hfound : (front ++ .symbol character :: back).findSome? symbol? = some character :=
      List.findSome?_eq_some_iff.mpr
        ⟨front, _, back, rfl, rfl, forall_symbol?_eq_none_iff.mpr hfront⟩
    rw [ofInfix, hfound]

theorem exists_fault_iff {tokens : List Token} :
    (∃ fault, ofInfix tokens = .error fault) ↔ ∃ character, .symbol character ∈ tokens := by
  constructor
  · rintro ⟨fault, h⟩
    obtain ⟨front, character, back, rfl, -, -⟩ := ofInfix_eq_error_iff.mp h
    exact ⟨character, by simp⟩
  · rintro ⟨character, hmem⟩
    cases h : ofInfix tokens with
    | error fault => exact ⟨fault, rfl⟩
    | ok result => cases (ofInfix_eq_ok_iff.mp h).1 _ hmem

/-- Whatever the tokens are, balanced or not, only a symbol among them is refused, and it is the
first one that is told. Otherwise nothing but the parentheses is lost, nothing comes in, and the
operands keep their order. -/
theorem ofInfix_conserves (tokens : List Token) :
    ((∃ fault, ofInfix tokens = .error fault) ↔ ∃ character, .symbol character ∈ tokens) ∧
    (∀ fault, ofInfix tokens = .error fault ↔
      ∃ front character back, tokens = front ++ .symbol character :: back ∧
        (∀ other, .symbol other ∉ front) ∧ fault = .unsupportedOperator character) ∧
    ∀ result, ofInfix tokens = .ok result →
      .openParen ∉ result ∧ .closeParen ∉ result ∧
        result.Perm (tokens.filter isCarried) ∧ result.filter isOperand = tokens.filter isOperand := by
  refine ⟨exists_fault_iff, fun fault => ofInfix_eq_error_iff, fun result h => ?_⟩
  have hout {token : Token} (htoken : token.isCarried = false) : token ∉ result := by
    intro hmem
    rw [isCarried_of_ofInfix h token hmem] at htoken
    cases htoken
  refine ⟨hout rfl, hout rfl, ofInfix_perm h, ?_⟩
  obtain ⟨-, rfl⟩ := ofInfix_eq_ok_iff.mp h
  exact filter_isOperand_order [] tokens

theorem ofInfix_conserves_strays :
    ofInfix [.closeParen, .identifier "x", .symbol '%', .openParen, .symbol '+'] =
        .error (.unsupportedOperator '%') ∧
      ∃ result, ofInfix [.closeParen, .identifier "x", .operator .multiply, .openParen, .number "2",
          .operator .add, .identifier "x"] = .ok result ∧
        result.Perm [.identifier "x", .operator .multiply, .number "2", .operator .add,
          .identifier "x"] ∧
        result.filter isOperand = [.identifier "x", .number "2", .identifier "x"] := by
  constructor
  · exact ((ofInfix_conserves _).2.1 _).mpr
      ⟨[.closeParen, .identifier "x"], '%', [.openParen, .symbol '+'], rfl, by simp, rfl⟩
  · obtain ⟨-, -, hperm, horder⟩ := (ofInfix_conserves [.closeParen, .identifier "x",
      .operator .multiply, .openParen, .number "2", .operator .add, .identifier "x"]).2.2 _ rfl
    exact ⟨_, rfl, hperm, horder⟩

end Postfix

end DeskCalculator
