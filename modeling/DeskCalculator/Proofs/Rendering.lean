import DeskCalculator.Proofs.Passes

namespace DeskCalculator

namespace Token

open Character

def isRun (p : Char → Bool) (chars : List Char) : Bool := !chars.isEmpty && chars.all p

/-- The tokens that a text can hold. A minus in front of a numeral is part of it, and
the percent sign is the only symbol that stands for no operator. -/
def isLexical : Token → Bool
  | .number text =>
    isRun isNumericPart text.toList ||
      (text.toList.head? == some '-' && isRun isNumericPart text.toList.tail)
  | .identifier name => isRun isLetter name.toList
  | .symbol character => character == '%'
  | .operator _ | .openParen | .closeParen => true

theorem run_nil_iff (p : Char → Bool) (chars : List Char) : Run p chars [] ↔ isRun p chars = true := by
  constructor
  · rintro ⟨hne, hall, -⟩
    simp only [isRun, Bool.and_eq_true, Bool.not_eq_true', List.isEmpty_eq_false_iff, List.all_eq_true]
    exact ⟨hne, hall⟩
  · intro h
    simp only [isRun, Bool.and_eq_true, Bool.not_eq_true', List.isEmpty_eq_false_iff,
      List.all_eq_true] at h
    exact ⟨h.1, h.2, by simp⟩

theorem Run.isRun {p : Char → Bool} {run rest : List Char} (h : Run p run rest) :
    isRun p run = true :=
  (run_nil_iff p run).mp ⟨h.nonempty, h.all, by simp⟩

theorem isLexical_number_iff {text : String} :
    (number text).isLexical = true ↔
      ∃ digits, Run isNumericPart digits [] ∧ (text.toList = digits ∨ text.toList = '-' :: digits) := by
  simp only [isLexical, Bool.or_eq_true, Bool.and_eq_true, beq_iff_eq, ← run_nil_iff]
  constructor
  · rintro (hrun | ⟨hminus, hrun⟩)
    · exact ⟨_, hrun, .inl rfl⟩
    · obtain ⟨digits, hchars⟩ := List.head?_eq_some_iff.mp hminus
      rw [hchars] at hrun
      exact ⟨digits, hrun, .inr hchars⟩
  · rintro ⟨digits, hrun, rfl | hsigned⟩
    · exact .inl hrun
    · rw [hsigned]
      exact .inr ⟨rfl, hrun⟩

theorem isLexical_token {kind : Lexeme} {text : String} (h : isRun kind.holds text.toList = true) :
    (kind.token text).isLexical = true := by
  cases kind with
  | numeral => exact Bool.or_eq_true_iff.mpr (.inl h)
  | name => exact h

theorem isLexical_of_lexes {b : Bool} {chars : List Char} {tokens : List Token}
    (h : Lexes b chars tokens) : ∀ token ∈ tokens, token.isLexical = true := by
  induction h with
  | nil b => simp
  | space b _ ih => exact ih
  | lexeme b kind hrun _ ih =>
      refine List.forall_mem_cons.mpr ⟨?_, ih⟩
      exact isLexical_token (by rw [String.toList_ofList, hrun.isRun])
  | signed hrun _ ih =>
      refine List.forall_mem_cons.mpr ⟨?_, ih⟩
      simp [isLexical, hrun.isRun]
  | symbol hc _ _ ih =>
      refine List.forall_mem_cons.mpr ⟨?_, ih⟩
      rcases eq_of_isSymbol hc with rfl | rfl | rfl | rfl | rfl | rfl | rfl | rfl <;> rfl

theorem lexes_ofSymbol {c : Char} (hc : isSymbol c = true) : Lexes true [c] [ofSymbol c] :=
  .symbol hc (by simp [signsNumeral, Lexeme.starts]) (.nil true)

theorem lexes_text {token : Token} (h : token.isLexical = true) :
    Lexes true token.text.toList [token] := by
  cases token with
  | number text =>
      obtain ⟨digits, hrun, hchars | hchars⟩ := isLexical_number_iff.mp h
      · have hl := Lexes.lexeme true .numeral hrun (.nil false)
        rwa [List.append_nil, ← hchars, String.ofList_toList] at hl
      · have hl := Lexes.signed hrun (.nil false)
        rwa [List.append_nil, ← hchars, String.ofList_toList] at hl
  | identifier name =>
      have hl := Lexes.lexeme true .name ((run_nil_iff _ _).mpr h) (.nil false)
      rwa [List.append_nil, String.ofList_toList] at hl
  | operator op => cases op <;> exact lexes_ofSymbol rfl
  | symbol character =>
      obtain rfl : character = '%' := by simpa [isLexical] using h
      exact lexes_ofSymbol rfl
  | openParen => exact lexes_ofSymbol rfl
  | closeParen => exact lexes_ofSymbol rfl

theorem lexes_render {tokens : List Token} (h : ∀ token ∈ tokens, token.isLexical = true) :
    Lexes true (render tokens).toList tokens := by
  induction tokens with
  | nil => exact .nil true
  | cons token rest ih =>
      obtain ⟨htoken, hrest⟩ := List.forall_mem_cons.mp h
      cases rest with
      | nil => simpa [render] using lexes_text htoken
      | cons next rest =>
          have hl := (lexes_text htoken).append_space (ih hrest)
          simpa [render, String.intercalate_cons_cons] using hl

end Token

namespace Expression

open Token

theorem isLexical_of_toPostfix {text : String} {tokens : List Token}
    (h : toPostfix text = .ok tokens) : ∀ token ∈ tokens, token.isLexical = true := by
  obtain ⟨infixTokens, ht, horder⟩ := exists_tokens_of_toPostfix h
  have hlexical := isLexical_of_lexes ((tokenize_eq_ok_iff _ _).mp ht)
  intro token hmem
  exact hlexical token (Postfix.mem_of_ofInfix horder hmem)

end Expression

namespace Token

/-- Whatever lexical tokens are rendered, in whatever order, read back as they were.
All that is ever read or put into postfix order is made of such tokens. -/
theorem tokenize_render :
    (∀ tokens : List Token, (∀ token ∈ tokens, token.isLexical = true) →
      tokenize (render tokens) = .ok tokens) ∧
    (∀ text tokens, tokenize text = .ok tokens →
      (∀ token ∈ tokens, token.isLexical = true) ∧ tokenize (render tokens) = .ok tokens) ∧
    (∀ text tokens, Expression.toPostfix text = .ok tokens →
      (∀ token ∈ tokens, token.isLexical = true) ∧ tokenize (render tokens) = .ok tokens) := by
  have hread (tokens : List Token) (h : ∀ token ∈ tokens, token.isLexical = true) :
      tokenize (render tokens) = .ok tokens := (tokenize_eq_ok_iff _ _).mpr (lexes_render h)
  refine ⟨hread, ?_, ?_⟩
  · intro text tokens h
    have hlexical := isLexical_of_lexes ((tokenize_eq_ok_iff text tokens).mp h)
    exact ⟨hlexical, hread tokens hlexical⟩
  · intro text tokens h
    have hlexical := Expression.isLexical_of_toPostfix h
    exact ⟨hlexical, hread tokens hlexical⟩

theorem tokenize_render_minuses :
    tokenize (render [.number "-5", .operator .subtract, .number "-.5", .symbol '%', .identifier "x"]) =
        .ok [.number "-5", .operator .subtract, .number "-.5", .symbol '%', .identifier "x"] ∧
      tokenize (render [.openParen, .number "1", .closeParen, .number "-2"]) =
        .ok [.openParen, .number "1", .closeParen, .number "-2"] ∧
      tokenize (render [.number "2", .identifier "x", .number "-3", .operator .subtract, .operator .power]) =
        .ok [.number "2", .identifier "x", .number "-3", .operator .subtract, .operator .power] :=
  ⟨tokenize_render.1 _ (by decide), (tokenize_render.2.1 "(1)-2" _ rfl).2,
    (tokenize_render.2.2 " 2^(x--3) " _ rfl).2⟩

end Token

end DeskCalculator
