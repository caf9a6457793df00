import DeskCalculator.Proofs.Passes

namespace DeskCalculator

namespace Token

/-- The name that a token is looked up under. A numeral with a value of its own is not looked up. -/
def readName? : Token → Option String
  | .identifier name => some name
  | .number text => if (Numeral.read? text).isNone then some text else none
  | .operator _ | .symbol _ | .openParen | .closeParen => none

end Token

namespace Postfix

variable {a b : Store}

theorem step_congr {token : Token}
    (h : ∀ name, token.readName? = some name → a.get? name = b.get? name) (values : List Float) :
    step a values token = step b values token := by
  cases token with
  | number text =>
      cases hread : Numeral.read? text with
      | some value => simp only [step, numeralValue, hread]
      | none =>
          have hget := h text (by simp [Token.readName?, hread])
          simp only [step, numeralValue, hread, namedValue, hget]
  | identifier name =>
      have hget := h name rfl
      simp only [step, namedValue, hget]
  | operator | symbol | openParen | closeParen => rfl

theorem foldlM_step_congr {tokens : List Token}
    (h : ∀ token ∈ tokens, ∀ name, token.readName? = some name → a.get? name = b.get? name)
    (values : List Float) : tokens.foldlM (step a) values = tokens.foldlM (step b) values := by
  induction tokens generalizing values with
  | nil => rfl
  | cons token rest ih =>
      obtain ⟨htoken, hrest⟩ := List.forall_mem_cons.mp h
      rw [List.foldlM_cons, List.foldlM_cons, step_congr htoken]
      exact congrArg _ (funext (ih hrest))

theorem evaluate_congr {tokens : List Token}
    (h : ∀ token ∈ tokens, ∀ name, token.readName? = some name → a.get? name = b.get? name) :
    evaluate a tokens = evaluate b tokens := by
  rw [evaluate, evaluate, foldlM_step_congr h]

end Postfix

namespace Expression

open Token

def Mentions (text name : String) : Prop :=
  ∃ tokens, tokenize (Blank.trim text) = .ok tokens ∧ .identifier name ∈ tokens

theorem evaluate_congr {a b : Store} {text : String}
    (h : ∀ tokens, tokenize (Blank.trim text) = .ok tokens → ∀ token ∈ tokens,
      ∀ name, token.readName? = some name → a.get? name = b.get? name) :
    evaluate a text = evaluate b text := by
  by_cases hblank : Blank.trim text = ""
  · have hempty := String.isEmpty_iff.mpr hblank
    rw [evaluate, evaluate, if_pos hempty, if_pos hempty]
  · rw [evaluate_of_not_blank hblank, evaluate_of_not_blank hblank]
    cases hpostfix : toPostfix text with
    | error fault => rfl
    | ok result =>
        obtain ⟨tokens, htokens, horder⟩ := exists_tokens_of_toPostfix hpostfix
        exact Postfix.evaluate_congr fun token hmem =>
          h tokens htokens token (Postfix.mem_of_ofInfix horder hmem)

end Expression

end DeskCalculator
