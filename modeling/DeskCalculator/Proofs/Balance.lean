import DeskCalculator.Expression
import DeskCalculator.Proofs.Grammar
import DeskCalculator.Proofs.Lexing

namespace DeskCalculator

namespace Parentheses

def balancedTokens (depth : Nat) : List Token → Bool
  | [] => depth == 0
  | .openParen :: rest => balancedTokens (depth + 1) rest
  | .closeParen :: rest => decide (0 < depth) && balancedTokens (depth - 1) rest
  | .number _ :: rest | .identifier _ :: rest | .operator _ :: rest | .symbol _ :: rest =>
    balancedTokens depth rest

theorem balancedFrom_append {run : List Char} (h : ∀ c ∈ run, c ≠ '(' ∧ c ≠ ')') (depth : Nat)
    (rest : List Char) : balancedFrom depth (run ++ rest) = balancedFrom depth rest := by
  induction run with
  | nil => rfl
  | cons c run ih =>
      obtain ⟨⟨hopen, hclose⟩, hrun⟩ := List.forall_mem_cons.mp h
      rw [List.cons_append, balancedFrom, if_neg hopen, if_neg hclose, ih hrun]

theorem balancedTokens_ofSymbol (depth : Nat) (c : Char) (rest : List Token) :
    balancedTokens depth (Token.ofSymbol c :: rest) =
      if c = '(' then balancedTokens (depth + 1) rest
      else if c = ')' then decide (0 < depth) && balancedTokens (depth - 1) rest
      else balancedTokens depth rest := by
  by_cases hopen : c = '('
  · simp [Token.ofSymbol, hopen, balancedTokens]
  · by_cases hclose : c = ')'
    · simp [Token.ofSymbol, hclose, balancedTokens]
    · simp only [Token.ofSymbol, hopen, hclose, if_false]
      cases Operator.ofSymbol? c <;> rfl

theorem balancedTokens_of_lexes {b : Bool} {chars : List Char} {tokens : List Token}
    (h : Token.Lexes b chars tokens) (depth : Nat) :
    balancedTokens depth tokens = balancedFrom depth chars := by
  have hplain {p : Char → Bool} (hopen : p '(' = false) (hclose : p ')' = false)
      {run rest : List Char} (hrun : Token.Run p run rest) : ∀ c ∈ run, c ≠ '(' ∧ c ≠ ')' := by
    intro c hc
    have hp := hrun.all c hc
    constructor <;> rintro rfl <;> simp_all
  induction h generalizing depth with
  | nil b => rfl
  | space b _ ih => exact ih depth
  | lexeme b kind hrun _ ih =>
      have hopen := kind.holds_eq_false (c := '(') rfl rfl
      have hclose := kind.holds_eq_false (c := ')') rfl rfl
      rw [balancedFrom_append (hplain hopen hclose hrun), ← ih]
      cases kind <;> rfl
  | signed hrun _ ih =>
      rw [balancedTokens, balancedFrom_append
        (List.forall_mem_cons.mpr ⟨by decide, hplain rfl rfl hrun⟩), ih]
  | symbol _ _ _ ih => simp only [balancedTokens_ofSymbol, balancedFrom, ih]

theorem balanced_of_tokenize {text : String} {tokens : List Token}
    (h : Token.tokenize text = .ok tokens) : balanced text = balancedTokens 0 tokens :=
  (balancedTokens_of_lexes ((Token.tokenize_eq_ok_iff _ _).mp h) 0).symm

end Parentheses

theorem Derivation.balancedTokens_yield {category : Category} (phrase : Derivation category)
    (depth : Nat) (rest : List Token) :
    Parentheses.balancedTokens depth (phrase.yield ++ rest) =
      Parentheses.balancedTokens depth rest := by
  induction phrase generalizing depth rest with
  | leaf operand => cases operand <;> rfl
  | group inner ih =>
      simp only [yield, List.cons_append, List.append_assoc, Parentheses.balancedTokens, ih]
      simp
  | ofPrimary base ih => exact ih depth rest
  | ofPower factor ih => exact ih depth rest
  | ofProduct term ih => exact ih depth rest
  | power left right ihl ihr | product left _ _ right ihl ihr | sum left _ _ right ihl ihr =>
      rw [yield, List.append_assoc, ihl, List.cons_append, Parentheses.balancedTokens, ihr]

end DeskCalculator
