import DeskCalculator.Proofs.Lossless

namespace DeskCalculator

open Character

theorem Operator.ofSymbol?_of_not_isSymbol {c : Char} (h : isSymbol c = false) : ofSymbol? c = none := by
  apply Option.eq_none_iff_forall_ne_some.mpr
  intro op hop
  rw [← symbol_of_ofSymbol? hop] at h
  cases op <;> cases h

namespace Token

theorem ofSymbol_eq_operator_iff {c : Char} {op : Operator} :
    ofSymbol c = .operator op ↔ Operator.ofSymbol? c = some op := by
  constructor
  · intro h
    have htext := congrArg text h
    rw [text_ofSymbol, text, Char.toString_eq_singleton, Char.toString_eq_singleton,
      String.singleton_inj] at htext
    rw [htext, Operator.ofSymbol?_symbol]
  · intro h
    rw [← Operator.symbol_of_ofSymbol? h]
    cases op <;> rfl

theorem ofText?_of_isLetter {text : String} {c : Char} {rest : List Char} (htext : text.toList = c :: rest)
    (hc : isLetter c = true) : ofText? text = some (.identifier text) := by
  rw [ofText?, htext]
  simp [hc, Lexeme.name.not_isSymbol hc]

theorem ofText?_of_number {text : String} {c : Char} {rest : List Char} (htext : text.toList = c :: rest)
    (hsymbol : rest = [] → isSymbol c = false) (hletter : isLetter c = false) :
    ofText? text = some (.number text) := by
  rw [ofText?, htext]
  cases rest with
  | nil => simp [hsymbol rfl, hletter]
  | cons d rest => simp [hletter]

/-- One or two characters are enough to tell what a token is, whatever text it was cut from. -/
theorem ofText?_text {token : Token} (h : token.isLexical = true) : ofText? token.text = some token := by
  cases token with
  | number text =>
      obtain ⟨digits, hrun, hchars⟩ := isLexical_number_iff.mp h
      obtain ⟨d, rest, rfl⟩ := List.exists_cons_of_ne_nil hrun.nonempty
      have hd : isNumericPart d = true := hrun.all d List.mem_cons_self
      rcases hchars with hchars | hchars
      · exact ofText?_of_number hchars (fun _ => Lexeme.numeral.not_isSymbol hd)
          (not_isLetter_of_isNumericPart hd)
      · exact ofText?_of_number hchars nofun rfl
  | identifier name =>
      have hrun := (run_nil_iff _ _).mpr h
      obtain ⟨c, rest, hname⟩ := List.exists_cons_of_ne_nil hrun.nonempty
      exact ofText?_of_isLetter hname (hrun.all c (by simp [hname]))
  | operator op => cases op <;> rfl
  | symbol character =>
      obtain rfl : character = '%' := by simpa [isLexical] using h
      rfl
  | openParen | closeParen => rfl

theorem text_of_tokenize_singleton {text : String} {token : Token} (hspace : ' ' ∉ text.toList)
    (h : tokenize text = .ok [token]) : token.text = text := by
  have hcompact := compact_of_lexes ((tokenize_eq_ok_iff _ _).mp h)
  have hkept : text.toList.filter (· != ' ') = text.toList := by
    apply List.filter_eq_self.mpr
    rintro c hc
    exact bne_iff_ne.mpr (ne_of_mem_of_not_mem hc hspace)
  rw [hkept, toList_compact_cons] at hcompact
  exact String.toList_inj.mp (by simpa [compact] using hcompact)

theorem ofText?_eq_operator_iff {text : String} {op : Operator} :
    ofText? text = some (.operator op) ↔ Operator.ofText? text = some op := by
  rw [ofText?, Operator.ofText?]
  rcases text.toList with _ | ⟨c, _ | ⟨d, rest⟩⟩
  · simp
  · cases hc : isSymbol c with
    | true => simp [hc, ofSymbol_eq_operator_iff]
    | false =>
        have hnone := Operator.ofSymbol?_of_not_isSymbol hc
        cases hletter : isLetter c <;> simp [hc, hnone, hletter]
  · cases hletter : isLetter c <;> simp [hletter]

/-- A text without spaces that the lexer leaves in one piece is to the classifier what it is to the
lexer, and so is every piece of any other text. An operator is told alike from the symbol alone. -/
theorem ofText?_agrees :
    (∀ text token, ' ' ∉ text.toList → tokenize text = .ok [token] → ofText? text = some token) ∧
    (∀ text tokens, tokenize text = .ok tokens → ∀ token ∈ tokens, ofText? token.text = some token) ∧
    ∀ text, (Operator.ofText? text).isSome = true ↔ ∃ op, ofText? text = some (.operator op) := by
  have hpiece (text : String) (tokens : List Token) (h : tokenize text = .ok tokens) (token : Token)
      (hmem : token ∈ tokens) : ofText? token.text = some token :=
    ofText?_text (isLexical_of_lexes ((tokenize_eq_ok_iff text tokens).mp h) token hmem)
  refine ⟨fun text token hspace h => ?_, hpiece, fun text => ?_⟩
  · have htoken := hpiece text [token] h token List.mem_cons_self
    rwa [text_of_tokenize_singleton hspace h] at htoken
  · simp only [ofText?_eq_operator_iff, Option.isSome_iff_exists]

theorem ofText?_agrees_minuses :
    ofText? "-.5" = some (.number "-.5") ∧ ofText? "-" = some (.operator .subtract) ∧
      ofText? "%" = some (.symbol '%') ∧ ofText? (number "-2").text = some (.number "-2") ∧
      (Operator.ofText? "-").isSome = true := by
  refine ⟨ofText?_agrees.1 _ _ (by simp) rfl, ofText?_agrees.1 _ _ (by simp) rfl,
    ofText?_agrees.1 _ _ (by simp) rfl, ?_, ?_⟩
  · exact ofText?_agrees.2.1 "(1)-2" [.openParen, .number "1", .closeParen, .number "-2"] rfl _ (by simp)
  · exact (ofText?_agrees.2.2 "-").mpr ⟨.subtract, rfl⟩

end Token

end DeskCalculator
