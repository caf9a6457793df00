import DeskCalculator.Token.Lexer

namespace DeskCalculator

namespace Character

theorem eq_of_isSymbol {c : Char} (h : isSymbol c = true) :
    c = '^' ∨ c = '/' ∨ c = '*' ∨ c = '+' ∨ c = '-' ∨ c = '%' ∨ c = '(' ∨ c = ')' := by
  simpa [isSymbol] using h

theorem bounds_of_isLetter {c : Char} (h : isLetter c = true) :
    (65 ≤ c.toNat ∧ c.toNat ≤ 90) ∨ (97 ≤ c.toNat ∧ c.toNat ≤ 122) := by
  rcases Bool.or_eq_true_iff.mp h with h | h
  · exact .inl (of_decide_eq_true h)
  · obtain ⟨hlow, hhigh⟩ := Bool.and_eq_true_iff.mp h
    exact .inr ⟨of_decide_eq_true hlow, of_decide_eq_true hhigh⟩

theorem bounds_of_isNumericPart {c : Char} (h : isNumericPart c = true) :
    44 ≤ c.toNat ∧ c.toNat ≤ 57 := by
  simp only [isNumericPart, Bool.or_eq_true, beq_iff_eq] at h
  rcases h with (h | rfl) | rfl
  · obtain ⟨hlow, hhigh⟩ := Char.isDigit_iff_toNat.mp h
    exact ⟨Nat.le_trans (by decide) hlow, hhigh⟩
  · decide
  · decide

theorem not_isNumericPart_of_isLetter {c : Char} (h : isLetter c = true) :
    isNumericPart c = false := by
  cases hn : isNumericPart c with
  | false => rfl
  | true =>
      have hletter := bounds_of_isLetter h
      have hnumeric := bounds_of_isNumericPart hn
      omega

theorem not_isLetter_of_isNumericPart {c : Char} (h : isNumericPart c = true) :
    isLetter c = false := by
  cases hl : isLetter c with
  | false => rfl
  | true => rw [not_isNumericPart_of_isLetter hl] at h; cases h

end Character

namespace Lexeme

open Character

variable {kind : Lexeme} {c : Char}

theorem text_token (kind : Lexeme) (text : String) : (kind.token text).text = text := by
  cases kind <;> rfl

theorem token_inj (kind : Lexeme) {a b : String} : kind.token a = kind.token b ↔ a = b := by
  cases kind <;> simp [token]

theorem not_holds_of_isSymbol (kind : Lexeme) (h : isSymbol c = true) : kind.holds c = false := by
  cases kind <;> rcases eq_of_isSymbol h with rfl | rfl | rfl | rfl | rfl | rfl | rfl | rfl <;> rfl

theorem not_isSymbol (kind : Lexeme) (h : kind.holds c = true) : isSymbol c = false := by
  cases hs : isSymbol c with
  | false => rfl
  | true => rw [kind.not_holds_of_isSymbol hs] at h; cases h

theorem holds_eq_false (kind : Lexeme) (hnumeral : isNumericPart c = false)
    (hname : isLetter c = false) : kind.holds c = false := by
  cases kind with
  | numeral => exact hnumeral
  | name => exact hname

theorem ne_of_holds (h : kind.holds c = true) {other : Char} (hnumeral : isNumericPart other = false)
    (hname : isLetter other = false) : c ≠ other := by
  rintro rfl
  rw [kind.holds_eq_false hnumeral hname] at h
  cases h

theorem bounds_of_holds (h : kind.holds c = true) : 44 ≤ c.toNat ∧ c.toNat ≤ 122 := by
  cases kind with
  | numeral =>
      have := bounds_of_isNumericPart h
      omega
  | name =>
      have := bounds_of_isLetter h
      omega

theorem exists_of_isAllowed (h : isAllowed c = true) :
    (∃ kind : Lexeme, kind.holds c = true) ∨ isSymbol c = true ∨ c = ' ' := by
  simp only [isAllowed, Bool.or_eq_true, beq_iff_eq] at h
  rcases h with ((h | h) | h) | h
  · exact .inl ⟨.numeral, h⟩
  · exact .inr (.inl h)
  · exact .inl ⟨.name, h⟩
  · exact .inr (.inr h)

theorem isAllowed_of_holds (h : kind.holds c = true) : isAllowed c = true := by
  cases kind with
  | numeral => simp [isAllowed, show isNumericPart c = true from h]
  | name => simp [isAllowed, show isLetter c = true from h]

theorem starts_eq_false {rest : List Char} (h : ∀ c ∈ rest.head?, kind.holds c = false) :
    kind.starts rest = false := by
  cases rest with
  | nil => rfl
  | cons c rest => exact h c rfl

end Lexeme

namespace Token

open Character

/-- A run of characters of one kind that ends only where the kind does. -/
structure Run (p : Char → Bool) (run rest : List Char) : Prop where
  nonempty : run ≠ []
  all : ∀ c ∈ run, p c = true
  ends : ∀ c ∈ rest.head?, p c = false

/-- How a text splits into tokens. The flag tells whether a minus at its start may
be the sign of a numeral. -/
inductive Lexes : Bool → List Char → List Token → Prop
  | nil (b) : Lexes b [] []
  | space (b) {rest tokens} : Lexes true rest tokens → Lexes b (' ' :: rest) tokens
  | lexeme (b) (kind : Lexeme) {run rest tokens} : Run kind.holds run rest → Lexes false rest tokens →
      Lexes b (run ++ rest) (kind.token (String.ofList run) :: tokens)
  | signed {digits rest tokens} : Run isNumericPart digits rest → Lexes false rest tokens →
      Lexes true ('-' :: digits ++ rest) (.number (String.ofList ('-' :: digits)) :: tokens)
  | symbol {b c rest tokens} : isSymbol c = true → signsNumeral b c rest = false →
      Lexes true rest tokens → Lexes b (c :: rest) (ofSymbol c :: tokens)

theorem Run.starts {kind : Lexeme} {run rest : List Char} (h : Run kind.holds run rest) :
    kind.starts (run ++ rest) = true := by
  cases run with
  | nil => exact absurd rfl h.nonempty
  | cons c run => exact h.all c (by simp)

theorem toString_append_ofList (c : Char) (chars : List Char) :
    c.toString ++ String.ofList chars = String.ofList (c :: chars) := by
  simp [Char.toString_eq_singleton]

theorem not_allowsSign_of_holds {kind : Lexeme} {c : Char} (h : kind.holds c = true) :
    allowsSign c = false := by
  have hspace : c ≠ ' ' := Lexeme.ne_of_holds h rfl rfl
  simp [allowsSign, kind.not_isSymbol h, hspace]

theorem lex_cons_of_holds {kind : Lexeme} {c : Char} (h : kind.holds c = true) (b : Bool)
    (rest : List Char) : lex b (c :: rest) = kind.push c rest (lex false rest) := by
  have hminus : c ≠ '-' := Lexeme.ne_of_holds h rfl rfl
  rw [lex, not_allowsSign_of_holds h, kind.not_isSymbol h]
  cases kind with
  | numeral => simp [show isNumericPart c = true from h]
  | name =>
      have hletter : isLetter c = true := h
      simp [signsNumeral, hminus, hletter, not_isNumericPart_of_isLetter hletter]

theorem lex_lexeme {kind : Lexeme} {run rest : List Char} (h : Run kind.holds run rest) (b : Bool) :
    lex b (run ++ rest) = kind.token (String.ofList run) :: lex false rest := by
  obtain ⟨hne, hall, hends⟩ := h
  induction run generalizing b with
  | nil => exact absurd rfl hne
  | cons c run ih =>
      rw [List.cons_append, lex_cons_of_holds (hall c (by simp))]
      cases run with
      | nil => simp [Lexeme.push, Lexeme.starts_eq_false hends, Char.toString_eq_singleton]
      | cons d run =>
          have hd : kind.starts (d :: run ++ rest) = true := hall d (by simp)
          rw [ih false (by simp) fun e he => hall e (List.mem_cons_of_mem c he)]
          simp only [Lexeme.push, hd, Lexeme.text_token, toString_append_ofList]

theorem lex_signed {digits rest : List Char} (h : Run isNumericPart digits rest) :
    lex true ('-' :: digits ++ rest) = .number (String.ofList ('-' :: digits)) :: lex false rest := by
  have hrun : Run Lexeme.numeral.holds digits rest := h
  have hstarts := hrun.starts
  have hsign : signsNumeral true '-' (digits ++ rest) = true := hstarts
  have hdigits : lex (allowsSign '-') (digits ++ rest) = .number (String.ofList digits) :: lex false rest :=
    lex_lexeme hrun _
  simp only [List.cons_append, lex, hsign, Bool.or_true, if_true, hdigits, Lexeme.push, hstarts, text,
    toString_append_ofList]
  rfl

theorem lex_symbol {b : Bool} {c : Char} {rest : List Char} (hc : isSymbol c = true)
    (hsign : signsNumeral b c rest = false) : lex b (c :: rest) = ofSymbol c :: lex true rest := by
  have hnumeric : isNumericPart c = false := Lexeme.numeral.not_holds_of_isSymbol hc
  simp [lex, hnumeric, hsign, hc, allowsSign]

theorem lex_space (b : Bool) (rest : List Char) : lex b (' ' :: rest) = lex true rest := rfl

theorem Lexes.lex_eq {b : Bool} {chars : List Char} {tokens : List Token}
    (h : Lexes b chars tokens) : lex b chars = tokens := by
  induction h with
  | nil b => rfl
  | space b _ ih => rw [lex_space, ih]
  | lexeme b kind hrun _ ih => rw [lex_lexeme hrun, ih]
  | signed hrun _ ih => rw [lex_signed hrun, ih]
  | symbol hc hsign _ ih => rw [lex_symbol hc hsign, ih]

theorem run_takeWhile {p : Char → Bool} {c : Char} (hc : p c = true) (rest : List Char) :
    Run p (c :: rest.takeWhile p) (rest.dropWhile p) := by
  refine ⟨by simp, ?_, ?_⟩
  · intro d hd
    rcases List.mem_cons.mp hd with rfl | hd
    · exact hc
    · exact List.all_eq_true.mp List.all_takeWhile d hd
  · intro d hd
    have h := List.head?_dropWhile_not p rest
    rw [Option.mem_def.mp hd] at h
    exact h

theorem exists_lexes (b : Bool) (chars : List Char) (h : ∀ c ∈ chars, isAllowed c = true) :
    ∃ tokens, Lexes b chars tokens := by
  -- A numeral or a name is cut off whole, so the rest may be any suffix of the text.
  induction hn : chars.length using Nat.strongRecOn generalizing b chars with
  | ind n ih =>
      cases chars with
      | nil => exact ⟨[], .nil b⟩
      | cons c rest =>
          have hsuffix (b : Bool) {later : List Char} (hl : later <:+ rest) :
              ∃ tokens, Lexes b later tokens := by
            have hlen : later.length < n := by
              rw [← hn, List.length_cons]
              exact Nat.lt_succ_of_le hl.length_le
            exact ih _ hlen b later (fun d hd => h d (List.mem_cons_of_mem c (hl.subset hd))) rfl
          rcases Lexeme.exists_of_isAllowed (h c (by simp)) with ⟨kind, hc⟩ | hc | rfl
          · obtain ⟨tokens, ht⟩ := hsuffix false (List.dropWhile_suffix kind.holds)
            have hl := Lexes.lexeme b kind (run_takeWhile hc rest) ht
            rw [List.cons_append, List.takeWhile_append_dropWhile] at hl
            exact ⟨_, hl⟩
          · cases hsign : signsNumeral b c rest with
            | false =>
                obtain ⟨tokens, ht⟩ := hsuffix true (List.suffix_refl rest)
                exact ⟨_, .symbol hc hsign ht⟩
            | true =>
                simp only [signsNumeral, Bool.and_eq_true, beq_iff_eq] at hsign
                obtain ⟨⟨rfl, rfl⟩, hstart⟩ := hsign
                cases rest with
                | nil => cases hstart
                | cons d rest =>
                    obtain ⟨tokens, ht⟩ := hsuffix false
                      ((List.dropWhile_suffix isNumericPart).trans (List.suffix_cons d rest))
                    have hl := Lexes.signed (run_takeWhile hstart rest) ht
                    rw [List.cons_append, List.cons_append, List.takeWhile_append_dropWhile] at hl
                    exact ⟨_, hl⟩
          · obtain ⟨tokens, ht⟩ := hsuffix true (List.suffix_refl rest)
            exact ⟨tokens, .space b ht⟩

theorem Lexes.isAllowed {b : Bool} {chars : List Char} {tokens : List Token}
    (h : Lexes b chars tokens) : ∀ c ∈ chars, isAllowed c = true := by
  induction h with
  | nil b => simp
  | space b _ ih => exact List.forall_mem_cons.mpr ⟨rfl, ih⟩
  | lexeme b kind hrun _ ih =>
      exact List.forall_mem_append.mpr ⟨fun c hc => Lexeme.isAllowed_of_holds (hrun.all c hc), ih⟩
  | signed hrun _ ih =>
      refine List.forall_mem_append.mpr ⟨List.forall_mem_cons.mpr ⟨rfl, fun c hc => ?_⟩, ih⟩
      have hnumeral : Lexeme.numeral.holds c = true := hrun.all c hc
      exact Lexeme.isAllowed_of_holds hnumeral
  | symbol hc _ _ ih =>
      refine List.forall_mem_cons.mpr ⟨?_, ih⟩
      simp [Character.isAllowed, hc]

theorem firstForeign?_eq_none_iff (chars : List Char) :
    firstForeign? chars = none ↔ ∀ c ∈ chars, isAllowed c = true := by
  have h : (∀ c ∈ chars.zipIdx.map Prod.fst, isAllowed c = true) ↔
      ∀ p ∈ chars.zipIdx, isAllowed p.1 = true := List.forall_mem_map
  rw [List.zipIdx_map_fst] at h
  rw [h, firstForeign?, List.find?_eq_none]
  simp only [Bool.not_eq_true', Bool.not_eq_false]

theorem tokenize_eq_ok_iff (text : String) (tokens : List Token) :
    tokenize text = .ok tokens ↔ Lexes true text.toList tokens := by
  constructor
  · intro h
    cases hf : firstForeign? text.toList with
    | some found => simp [tokenize, hf] at h
    | none =>
        simp only [tokenize, hf, Except.ok.injEq] at h
        obtain ⟨tokens', hl⟩ := exists_lexes true text.toList ((firstForeign?_eq_none_iff _).mp hf)
        rw [← h, hl.lex_eq]
        exact hl
  · intro h
    rw [tokenize, (firstForeign?_eq_none_iff _).mpr h.isAllowed, h.lex_eq]

theorem Lexes.append_space {b : Bool} {chars rest : List Char} {tokens later : List Token}
    (h : Lexes b chars tokens) (hrest : Lexes true rest later) :
    Lexes b (chars ++ ' ' :: rest) (tokens ++ later) := by
  have hends {p : Char → Bool} (hp : p ' ' = false) {run rest' : List Char} (hrun : Run p run rest') :
      Run p run (rest' ++ ' ' :: rest) := by
    refine ⟨hrun.nonempty, hrun.all, ?_⟩
    cases rest' with
    | nil => intro c hc; cases hc; exact hp
    | cons d rest' => exact hrun.ends
  induction h with
  | nil b => exact .space b hrest
  | space b _ ih => exact .space b ih
  | lexeme b kind hrun _ ih =>
      rw [List.append_assoc]
      exact .lexeme b kind (hends (kind.holds_eq_false rfl rfl) hrun) ih
  | signed hrun _ ih =>
      rw [List.append_assoc]
      exact .signed (hends rfl hrun) ih
  | @symbol b c rest' tokens hc hsign _ ih =>
      refine .symbol hc ?_ ih
      cases rest' with
      | nil => simp [signsNumeral, Lexeme.starts, Lexeme.holds, Character.isNumericPart]
      | cons d rest' => exact hsign

end Token

end DeskCalculator
