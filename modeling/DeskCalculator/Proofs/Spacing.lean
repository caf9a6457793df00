import DeskCalculator.Proofs.Alternation
import DeskCalculator.Proofs.Rendering
import DeskCalculator.Proofs.Trimming

namespace DeskCalculator

namespace Token

open Character

def isUnsigned : Token → Bool
  | .number text => isRun isNumericPart text.toList
  | .identifier name => isRun isLetter name.toList
  | .operator _ | .openParen | .closeParen => true
  | .symbol _ => false

theorem isLexical_of_isUnsigned {token : Token} (h : token.isUnsigned = true) :
    token.isLexical = true := by
  cases token with
  | number text => exact Bool.or_eq_true_iff.mpr (.inl h)
  | identifier name => exact h
  | operator | openParen | closeParen => rfl
  | symbol character => cases h

def compact (tokens : List Token) : String := String.join (tokens.map text)

theorem toList_compact_cons (token : Token) (rest : List Token) :
    (compact (token :: rest)).toList = token.text.toList ++ (compact rest).toList := by
  simp [compact]

theorem exists_cons_of_isRun {p : Char → Bool} {chars : List Char} (h : isRun p chars = true) :
    ∃ c tail, chars = c :: tail ∧ p c = true := by
  obtain ⟨hne, hall, -⟩ := (run_nil_iff p chars).mpr h
  obtain ⟨c, tail, rfl⟩ := List.exists_cons_of_ne_nil hne
  exact ⟨c, tail, rfl, hall c (by simp)⟩

theorem exists_lexeme {token : Token} (h : token.isUnsigned = true) (hoperand : token.isOperand = true) :
    ∃ (kind : Lexeme) (text : String), token = kind.token text ∧ isRun kind.holds text.toList = true := by
  cases token with
  | number text => exact ⟨.numeral, text, rfl, h⟩
  | identifier name => exact ⟨.name, name, rfl, h⟩
  | operator | symbol | openParen | closeParen => cases hoperand

theorem exists_symbol_text {token : Token} (h : token.isUnsigned = true)
    (hoperand : token.isOperand = false) :
    ∃ c, isSymbol c = true ∧ token.text.toList = [c] ∧ ofSymbol c = token := by
  cases token with
  | number | identifier => cases hoperand
  | operator op => cases op <;> exact ⟨_, rfl, rfl, rfl⟩
  | symbol character => cases h
  | openParen => exact ⟨'(', rfl, rfl, rfl⟩
  | closeParen => exact ⟨')', rfl, rfl, rfl⟩

theorem exists_number_of_starts {tokens : List Token}
    (h : ∀ token ∈ tokens, token.isUnsigned = true)
    (hstart : Lexeme.numeral.starts (compact tokens).toList = true) :
    ∃ text later, tokens = .number text :: later := by
  cases tokens with
  | nil => cases hstart
  | cons token rest =>
      have htoken := h token (by simp)
      have hother {c : Char} {tail : List Char} (hnumeric : isNumericPart c = false)
          (htext : token.text.toList = c :: tail) : False := by
        rw [toList_compact_cons, htext] at hstart
        exact absurd hstart (Bool.eq_false_iff.mp hnumeric)
      cases token with
      | number text => exact ⟨text, rest, rfl⟩
      | identifier name =>
          obtain ⟨c, tail, htext, hc⟩ := exists_cons_of_isRun htoken
          exact (hother (not_isNumericPart_of_isLetter hc) htext).elim
      | operator | symbol | openParen | closeParen =>
          obtain ⟨c, hc, htext, -⟩ := exists_symbol_text htoken rfl
          exact (hother (Lexeme.numeral.not_holds_of_isSymbol hc) htext).elim

theorem isSymbol_head_compact {tokens : List Token} (h : ∀ token ∈ tokens, token.isUnsigned = true)
    (halt : Alternates true tokens) : ∀ c ∈ (compact tokens).toList.head?, isSymbol c = true := by
  intro c hhead
  cases tokens with
  | nil => cases hhead
  | cons token rest =>
      have hoperand : token.isOperand = false := by
        cases token with
        | number | identifier => cases halt.1
        | operator | symbol | openParen | closeParen => rfl
      obtain ⟨d, hd, htext, -⟩ := exists_symbol_text (h token (by simp)) hoperand
      rw [toList_compact_cons, htext] at hhead
      cases hhead
      exact hd

/-- What compact tokens read as. A minus becomes the sign of a numeral right behind it where
a sign may stand, and that is behind every token but an operand. -/
def fused (signAllowed : Bool) : List Token → List Token
  | [] => []
  | token :: rest =>
    match signAllowed, token, rest with
    | true, .operator .subtract, .number text :: later => .number ("-" ++ text) :: fused false later
    | _, token, rest => token :: fused (!token.isOperand) rest

theorem run_of_isRun {kind : Lexeme} {chars : List Char} {tokens : List Token}
    (hrun : isRun kind.holds chars = true) (h : ∀ token ∈ tokens, token.isUnsigned = true)
    (halt : Alternates true tokens) : Run kind.holds chars (compact tokens).toList := by
  obtain ⟨hne, hall, -⟩ := (run_nil_iff kind.holds chars).mpr hrun
  exact ⟨hne, hall, fun c hc => kind.not_holds_of_isSymbol (isSymbol_head_compact h halt c hc)⟩

theorem lexes_fused {signAllowed ended : Bool} {tokens : List Token}
    (h : ∀ token ∈ tokens, token.isUnsigned = true) (halt : Alternates ended tokens) :
    Lexes signAllowed (compact tokens).toList (fused signAllowed tokens) := by
  fun_induction fused signAllowed tokens generalizing ended with
  | case1 signAllowed => exact .nil signAllowed
  | case2 text later ih =>
      obtain ⟨-, htext, hlater⟩ := List.forall_mem_cons.mp h |>.imp_right List.forall_mem_cons.mp
      have hnumeral : isRun Lexeme.numeral.holds text.toList = true := htext
      have hl := Lexes.signed (run_of_isRun hnumeral hlater halt.2.2) (ih hlater halt.2.2)
      rw [← toString_append_ofList, String.ofList_toList] at hl
      rw [toList_compact_cons, toList_compact_cons]
      exact hl
  | case3 signAllowed token rest hnot ih =>
      obtain ⟨htoken, hrest⟩ := List.forall_mem_cons.mp h
      have hl := ih hrest halt.2
      rw [toList_compact_cons]
      cases hoperand : token.isOperand with
      | true =>
          obtain ⟨kind, text, rfl, hrun⟩ := exists_lexeme htoken hoperand
          have hends : (kind.token text).endsOperand = true := by cases kind <;> rfl
          rw [hoperand] at hl
          have hl := Lexes.lexeme signAllowed kind (run_of_isRun hrun hrest (hends ▸ halt.2)) hl
          rw [Lexeme.text_token]
          rwa [String.ofList_toList] at hl
      | false =>
          rw [hoperand] at hl
          obtain ⟨c, hc, htext, rfl⟩ := exists_symbol_text htoken hoperand
          rw [htext]
          refine .symbol hc (Bool.eq_false_iff.mpr fun hsign => ?_) hl
          simp only [signsNumeral, Bool.and_eq_true, beq_iff_eq] at hsign
          obtain ⟨⟨rfl, hallowed⟩, hstart⟩ := hsign
          obtain ⟨text, later, hlater⟩ := exists_number_of_starts hrest hstart
          exact hnot text later hallowed rfl hlater

/-- Whether a group is followed by a minus and a numeral somewhere, as in a group less a number. -/
def groupLessNumeral : List Token → Bool
  | [] => false
  | .closeParen :: .operator .subtract :: .number _ :: _ => true
  | _ :: rest => groupLessNumeral rest

theorem countP_isOperand_fused (signAllowed : Bool) (tokens : List Token) :
    (fused signAllowed tokens).countP isOperand = tokens.countP isOperand := by
  fun_induction fused signAllowed tokens with
  | case1 signAllowed => rfl
  | case2 text later ih => simp [List.countP_cons, isOperand, ih]
  | case3 signAllowed token rest _ ih => rw [List.countP_cons, List.countP_cons, ih]

theorem countP_isOperator_fused_le (signAllowed : Bool) (tokens : List Token) :
    (fused signAllowed tokens).countP isOperator ≤ tokens.countP isOperator := by
  fun_induction fused signAllowed tokens with
  | case1 signAllowed => exact Nat.le_refl _
  | case2 text later ih =>
      simp [List.countP_cons, isOperator]
      omega
  | case3 signAllowed token rest _ ih =>
      rw [List.countP_cons, List.countP_cons]
      omega

theorem countP_isOperator_fused_minus (text : String) (later : List Token) :
    (fused true (.operator .subtract :: .number text :: later)).countP isOperator <
      (Token.operator .subtract :: .number text :: later).countP isOperator := by
  have hle := countP_isOperator_fused_le false later
  simp [fused, List.countP_cons, isOperator]
  omega

theorem countP_isOperator_fused_lt (signAllowed : Bool) {tokens : List Token}
    (h : groupLessNumeral tokens = true) :
    (fused signAllowed tokens).countP isOperator < tokens.countP isOperator := by
  fun_induction fused signAllowed tokens with
  | case1 => cases h
  | case2 text later => exact countP_isOperator_fused_minus text later
  | case3 signAllowed token rest _ ih =>
      rw [List.countP_cons, List.countP_cons]
      refine Nat.add_lt_add_right ?_ _
      unfold groupLessNumeral at h
      split at h
      next hnil => cases hnil
      next text later hgroup =>
        obtain ⟨rfl, rfl⟩ := List.cons.inj hgroup
        exact countP_isOperator_fused_minus text later
      next first last _ hcons =>
        obtain ⟨rfl, rfl⟩ := List.cons.inj hcons
        exact ih h

theorem groupLessNumeral_tail {token : Token} {rest : List Token}
    (h : groupLessNumeral (token :: rest) = false) : groupLessNumeral rest = false := by
  unfold groupLessNumeral at h
  split at h
  next hnil => cases hnil
  next => cases h
  next hcons =>
    obtain ⟨rfl, rfl⟩ := List.cons.inj hcons
    exact h

/-- Where operands and operators alternate, a minus stands behind an operand or a group, and
only behind the group could it be a sign. -/
theorem fused_eq_self (before : Option Token) {tokens : List Token}
    (halt : Alternates (before.any endsOperand) tokens)
    (h : groupLessNumeral (before.toList ++ tokens) = false) :
    fused (!before.any isOperand) tokens = tokens := by
  induction tokens generalizing before with
  | nil => rfl
  | cons token rest ih =>
      have hrest : groupLessNumeral (token :: rest) = false := by
        cases before with
        | none => exact h
        | some other => exact groupLessNumeral_tail h
      rw [fused]
      · exact congrArg (token :: ·) (ih (some token) halt.2 hrest)
      · rintro text later hallowed rfl rfl
        cases before with
        | none => cases halt.1
        | some other =>
            cases other with
            | number | identifier => cases hallowed
            | operator | symbol | openParen => cases halt.1
            | closeParen => cases h

end Token

namespace Derivation

open Token

variable {phrase : Derivation .sum}

theorem tokenize_render_yield (h : ∀ token ∈ phrase.yield, token.isUnsigned = true) :
    tokenize (Blank.trim (render phrase.yield)) = .ok phrase.yield := by
  have hlexical := lexes_render fun token hmem => isLexical_of_isUnsigned (h token hmem)
  exact tokenize_trim ((tokenize_eq_ok_iff _ _).mpr hlexical)

theorem tokenize_compact_yield (h : ∀ token ∈ phrase.yield, token.isUnsigned = true) :
    tokenize (Blank.trim (compact phrase.yield)) = .ok (fused true phrase.yield) :=
  tokenize_trim ((tokenize_eq_ok_iff _ _).mpr (lexes_fused h phrase.alternates))

end Derivation

namespace Expression

open Token

/-- Without any space a sentence reads as it does with a space between all tokens, unless a
numeral is taken from a group. There the minus becomes a sign, and the text is refused. -/
theorem evaluate_compact (store : Store) (phrase : Derivation .sum)
    (h : ∀ token ∈ phrase.yield, token.isUnsigned = true) :
    (groupLessNumeral phrase.yield = false →
      evaluate store (compact phrase.yield) = evaluate store (render phrase.yield) ∧
        toPostfix (compact phrase.yield) = toPostfix (render phrase.yield)) ∧
    (groupLessNumeral phrase.yield = true →
      ∃ fault, evaluate store (compact phrase.yield) = .error fault) := by
  have hrender := Derivation.tokenize_render_yield h
  have hcompact := Derivation.tokenize_compact_yield h
  constructor
  · intro hgroup
    have hfused : fused true phrase.yield = phrase.yield := fused_eq_self none phrase.alternates hgroup
    rw [hfused] at hcompact
    have hpostfix := toPostfix_congr hcompact hrender
    refine ⟨?_, hpostfix⟩
    rw [evaluate_eq_bind hcompact phrase.yield_ne_nil, evaluate_eq_bind hrender phrase.yield_ne_nil,
      hpostfix]
  · intro hgroup
    have hoperands := countP_isOperand_fused true phrase.yield
    rw [phrase.countP_isOperand_yield] at hoperands
    have hne : fused true phrase.yield ≠ [] := by
      intro hnil
      rw [hnil] at hoperands
      cases hoperands
    refine exists_fault_of_no_tree (not_blank_of_tokenize hcompact hne) (fun tree htree => ?_) store
    have hcounts := countP_isOperand_of_toPostfix hcompact htree
    have hlt := countP_isOperator_fused_lt true hgroup
    omega

theorem evaluate_compact_root :
    evaluate (Store.empty.insert "x" 3) "2*(x-1)^.5" =
        evaluate (Store.empty.insert "x" 3) "2 * ( x - 1 ) ^ .5" ∧
      ∃ fault, evaluate (Store.empty.insert "x" 3) "(x)-1" = .error fault := by
  let numeral (text : String) : Derivation .power := .ofPrimary (.leaf (.number text))
  let name : Derivation .sum := .ofProduct (.ofPower (.ofPrimary (.leaf (.identifier "x"))))
  let difference : Derivation .sum := .sum name .subtract (.inr rfl) (.ofPower (numeral "1"))
  let root : Derivation .power := .power (.group difference) (numeral ".5")
  let product : Derivation .sum :=
    .ofProduct (.product (.ofPower (numeral "2")) .multiply (.inl rfl) root)
  let group : Derivation .sum := .ofProduct (.ofPower (.ofPrimary (.group name)))
  let taken : Derivation .sum := .sum group .subtract (.inr rfl) (.ofPower (numeral "1"))
  exact ⟨((evaluate_compact (Store.empty.insert "x" 3) product (by decide)).1 rfl).1,
    (evaluate_compact (Store.empty.insert "x" 3) taken (by decide)).2 rfl⟩

theorem evaluate_group_less_numeral :
    ∃ phrase : Derivation .sum, (∀ token ∈ phrase.yield, token.isUnsigned = true) ∧
      compact phrase.yield = "(1)-2" ∧ render phrase.yield = "( 1 ) - 2" ∧
      evaluate .empty "(1)-2" = .error .malformedExpression ∧
      evaluate .empty "( 1 ) - 2" = .ok (-1) := by
  let numeral (text : String) : Derivation .product := .ofPower (.ofPrimary (.leaf (.number text)))
  let group : Derivation .sum := .ofProduct (.ofPower (.ofPrimary (.group (.ofProduct (numeral "1")))))
  exact ⟨.sum group .subtract (.inr rfl) (numeral "2"), by decide, rfl, rfl, rfl, by decide +kernel⟩

end Expression

end DeskCalculator
