import DeskCalculator.Proofs.Separators
import Mathlib.Tactic.MkIffOfInductiveProp

namespace DeskCalculator.Token

open Character

def apart : List Char := ['^', '/', '*', '+', '%', '(', ')', ' ']

variable {b : Bool} {c : Char} {rest front back : List Char} {tokens later : List Token}

def attach (signAllowed : Bool) (c : Char) (rest : List Char) (tokens : List Token) : List Token :=
  if isNumericPart c || signsNumeral signAllowed c rest then Lexeme.numeral.push c rest tokens
  else if isSymbol c then ofSymbol c :: tokens
  else if isLetter c then Lexeme.name.push c rest tokens
  else tokens

theorem lex_cons (b : Bool) (c : Char) (rest : List Char) :
    lex b (c :: rest) = attach b c rest (lex (allowsSign c) rest) := rfl

def Heads (chars : List Char) (tokens : List Token) : Prop :=
  ∀ kind : Lexeme, kind.starts chars = true → ∃ text later, tokens = kind.token text :: later

theorem Heads.append (h : Heads rest tokens) (later : List Token) :
    Heads rest (tokens ++ later) := by
  intro kind hstart
  obtain ⟨text, others, rfl⟩ := h kind hstart
  exact ⟨text, others ++ later, rfl⟩

theorem exists_push (kind : Lexeme) (c : Char) (rest : List Char) (tokens : List Token) :
    ∃ text later, kind.push c rest tokens = kind.token text :: later := by
  unfold Lexeme.push
  split
  · exact ⟨_, _, rfl⟩
  · exact ⟨_, _, rfl⟩

theorem heads_lex (b : Bool) (chars : List Char) : Heads chars (lex b chars) := by
  intro kind hstart
  cases chars with
  | nil => cases hstart
  | cons c rest =>
      rw [lex_cons_of_holds hstart]
      exact exists_push kind c rest _

theorem attach_congr {other : List Char} (h : ∀ kind : Lexeme, kind.starts rest = kind.starts other) :
    attach b c rest = attach b c other := by
  unfold attach signsNumeral Lexeme.push
  simp only [h]

/-- On the tokens that a text can start with, a step to the left of them touches only the first one
and loses nothing of it. -/
structure Prepends (rest : List Char) (f : List Token → List Token) : Prop where
  append : ∀ {tokens}, Heads rest tokens → ∀ later, f (tokens ++ later) = f tokens ++ later
  injective : ∀ {tokens others}, Heads rest tokens → Heads rest others → f tokens = f others →
    tokens = others

theorem prepends_push (kind : Lexeme) (c : Char) (rest : List Char) :
    Prepends rest (kind.push c rest) := by
  constructor
  · intro tokens h later
    cases hstart : kind.starts rest with
    | true =>
        obtain ⟨text, others, rfl⟩ := h kind hstart
        simp [Lexeme.push, hstart]
    | false => simp [Lexeme.push, hstart]
  · intro tokens others h hothers heq
    cases hstart : kind.starts rest with
    | true =>
        obtain ⟨text, later, rfl⟩ := h kind hstart
        obtain ⟨text', later', rfl⟩ := hothers kind hstart
        simpa [Lexeme.push, hstart, kind.text_token, kind.token_inj] using heq
    | false => simpa [Lexeme.push, hstart] using heq

theorem prepends_attach (b : Bool) (c : Char) (rest : List Char) :
    Prepends rest (attach b c rest) := by
  unfold attach
  split
  · exact prepends_push .numeral c rest
  · split
    · exact ⟨fun _ _ => rfl, fun _ _ heq => (List.cons.inj heq).2⟩
    · split
      · exact prepends_push .name c rest
      · exact ⟨fun _ _ => rfl, fun _ _ heq => heq⟩

def allowsSignBehind (signAllowed : Bool) (front : List Char) : Bool :=
  front.getLast?.elim signAllowed allowsSign

theorem allowsSignBehind_cons (b : Bool) (c : Char) (front : List Char) :
    allowsSignBehind b (c :: front) = allowsSignBehind (allowsSign c) front := by
  rw [allowsSignBehind, allowsSignBehind, List.getLast?_cons]
  cases front.getLast? <;> rfl

/-- Two texts that end in the same character are cut there alike, whatever stands in front. -/
theorem lex_append_iff (front : List Char) :
    lex b (front ++ c :: rest) = lex b (front ++ [c]) ++ later ↔
      lex (allowsSignBehind b front) (c :: rest) = lex (allowsSignBehind b front) [c] ++ later := by
  induction front generalizing b with
  | nil => rfl
  | cons d front ih =>
      have hstarts (kind : Lexeme) : kind.starts (front ++ c :: rest) = kind.starts (front ++ [c]) := by
        cases front <;> rfl
      have hlong : Heads (front ++ [c]) (lex (allowsSign d) (front ++ c :: rest)) := by
        intro kind hstart
        exact heads_lex _ _ kind ((hstarts kind).trans hstart)
      have hshort := heads_lex (allowsSign d) (front ++ [c])
      have hattach := prepends_attach b d (front ++ [c])
      rw [List.cons_append, List.cons_append, lex_cons, lex_cons, attach_congr hstarts,
        ← hattach.append hshort, allowsSignBehind_cons]
      exact Iff.trans ⟨hattach.injective hlong (hshort.append later), congrArg _⟩ ih

def startsSigned : List Char → Bool
  | [] => false
  | c :: rest => signsNumeral true c rest

theorem startsSigned_of_starts {kind : Lexeme} (h : kind.starts back = true) :
    startsSigned back = false := by
  cases back with
  | nil => rfl
  | cons c rest =>
      have hminus : c ≠ '-' := Lexeme.ne_of_holds h rfl rfl
      simp [startsSigned, signsNumeral, hminus]

theorem lex_flag_iff (back : List Char) :
    lex false back = lex true back ↔ startsSigned back = false := by
  cases back with
  | nil => simp [lex, startsSigned]
  | cons c rest =>
      rw [lex_cons, lex_cons, startsSigned]
      cases hsign : signsNumeral true c rest with
      | true =>
          simp only [signsNumeral, Bool.and_true, Bool.and_eq_true, beq_iff_eq] at hsign
          obtain ⟨rfl, hstart⟩ := hsign
          obtain ⟨text, later, hnumber⟩ := exists_push .numeral '-' rest (lex (allowsSign '-') rest)
          simp [attach, signsNumeral, hstart, hnumber, Lexeme.token, isNumericPart, isSymbol, ofSymbol,
            Operator.ofSymbol?, Operator.all, Operator.symbol]
      | false =>
          have hsame : signsNumeral false c rest = false := by simp [signsNumeral]
          simp [attach, hsign, hsame]

theorem push_eq_iff (kind : Lexeme) :
    kind.push c back (lex false back) = [kind.token c.toString] ++ lex true back ↔
      kind.starts back = false ∧ startsSigned back = false := by
  cases hstart : kind.starts back with
  | true =>
      obtain ⟨text, later, hlex⟩ := heads_lex false back kind hstart
      have hflag := (lex_flag_iff back).mpr (startsSigned_of_starts hstart)
      rw [← hflag, hlex]
      simp [Lexeme.push, hstart]
  | false => simp [Lexeme.push, hstart, lex_flag_iff]

/-- A character holds on to what is right behind it where a space between them would tell. -/
@[mk_iff] inductive Clings (signAllowed : Bool) (c : Char) (back : List Char) : Prop
  | numeral : isNumericPart c = true → Lexeme.numeral.starts back = true → Clings signAllowed c back
  | name : isLetter c = true → Lexeme.name.starts back = true → Clings signAllowed c back
  /-- The character is the sign of the numeral behind it. -/
  | sign : signsNumeral signAllowed c back = true → Clings signAllowed c back
  /-- It keeps the minus behind it from being the sign of a numeral. -/
  | minus : isNumericPart c = true ∨ isLetter c = true → startsSigned back = true →
      Clings signAllowed c back

theorem not_signsNumeral (h : c ≠ '-') : signsNumeral b c back = false := by simp [signsNumeral, h]

theorem clings_iff_of_holds {kind : Lexeme} (hc : kind.holds c = true) :
    Clings b c back ↔ kind.starts back = true ∨ startsSigned back = true := by
  have hsign : signsNumeral b c back = false := not_signsNumeral (Lexeme.ne_of_holds hc rfl rfl)
  cases kind with
  | numeral => simp [clings_iff, hsign, show isNumericPart c = true from hc, not_isLetter_of_isNumericPart hc]
  | name => simp [clings_iff, hsign, show isLetter c = true from hc, not_isNumericPart_of_isLetter hc]

theorem clings_iff_signsNumeral (hnumeric : isNumericPart c = false) (hletter : isLetter c = false) :
    Clings b c back ↔ signsNumeral b c back = true := by
  simp [clings_iff, hnumeric, hletter]

theorem clings_iff_of_isSymbol (hc : isSymbol c = true) :
    Clings b c back ↔ signsNumeral b c back = true :=
  clings_iff_signsNumeral (Lexeme.numeral.not_holds_of_isSymbol hc) (Lexeme.name.not_holds_of_isSymbol hc)

theorem lex_cons_eq_append_iff (hc : isAllowed c = true) :
    lex b (c :: back) = lex b [c] ++ lex true back ↔ ¬ Clings b c back := by
  rcases Lexeme.exists_of_isAllowed hc with ⟨kind, hc⟩ | hc | rfl
  · have hsingle : lex b [c] = [kind.token c.toString] := lex_cons_of_holds hc b []
    rw [hsingle, lex_cons_of_holds hc, push_eq_iff, clings_iff_of_holds hc, not_or, Bool.not_eq_true,
      Bool.not_eq_true]
  · have hsingle : lex b [c] = [ofSymbol c] := lex_symbol hc (by simp [signsNumeral, Lexeme.starts])
    rw [clings_iff_of_isSymbol hc, hsingle]
    cases hsign : signsNumeral b c back with
    | false => exact iff_of_true (lex_symbol hc hsign) Bool.false_ne_true
    | true =>
        refine iff_of_false (fun h => ?_) (not_not_intro rfl)
        obtain ⟨text, later, hnumber⟩ := exists_push .numeral c back (lex (allowsSign c) back)
        rw [lex_cons, attach, hsign, Bool.or_true, if_pos rfl, hnumber] at h
        simp only [signsNumeral, Bool.and_eq_true, beq_iff_eq] at hsign
        obtain ⟨⟨rfl, -⟩, -⟩ := hsign
        cases h
  · rw [clings_iff_signsNumeral rfl rfl]
    exact iff_of_true rfl Bool.false_ne_true

theorem kinds_of_mem_apart (hc : c ∈ apart) :
    isNumericPart c = false ∧ isLetter c = false ∧ c ≠ '-' := by
  have hcases : c = '^' ∨ c = '/' ∨ c = '*' ∨ c = '+' ∨ c = '%' ∨ c = '(' ∨ c = ')' ∨ c = ' ' := by
    simpa [apart] using hc
  rcases hcases with rfl | rfl | rfl | rfl | rfl | rfl | rfl | rfl <;> decide

theorem not_clings_of_mem_apart (hc : c ∈ apart) : ¬ Clings b c back := by
  obtain ⟨hnumeric, hletter, hminus⟩ := kinds_of_mem_apart hc
  rw [clings_iff_signsNumeral hnumeric hletter, not_signsNumeral hminus]
  exact Bool.false_ne_true

theorem not_clings_of_head_mem_apart (hback : ∀ d ∈ back.head?, d ∈ apart) : ¬ Clings b c back := by
  cases back with
  | nil => simp [clings_iff, Lexeme.starts, startsSigned, signsNumeral]
  | cons d rest =>
      obtain ⟨hnumeric, hletter, hminus⟩ := kinds_of_mem_apart (hback d rfl)
      simp [clings_iff, Lexeme.starts, Lexeme.holds, startsSigned, signsNumeral, hnumeric, hletter,
        hminus]

def SpaceTells (front back : List Char) : Prop :=
  ∃ before c, front = before ++ [c] ∧ Clings (allowsSignBehind true before) c back

theorem spaceTells_append_singleton {before : List Char} :
    SpaceTells (before ++ [c]) back ↔ Clings (allowsSignBehind true before) c back := by
  constructor
  · rintro ⟨other, d, hsplit, hclings⟩
    obtain ⟨rfl, hd⟩ := List.append_inj' hsplit rfl
    cases hd
    exact hclings
  · intro hclings
    exact ⟨before, c, rfl, hclings⟩

theorem not_spaceTells_nil : ¬ SpaceTells [] back := by
  rintro ⟨before, c, hsplit, -⟩
  simp at hsplit

theorem lex_append_eq_iff (h : ∀ c ∈ front, isAllowed c = true) (back : List Char) :
    lex true (front ++ back) = lex true front ++ lex true back ↔ ¬ SpaceTells front back := by
  induction front using List.reverseRecOn with
  | nil => exact iff_of_true rfl not_spaceTells_nil
  | append_singleton before c =>
      rw [List.append_assoc, List.singleton_append, lex_append_iff,
        lex_cons_eq_append_iff (h c (by simp)), spaceTells_append_singleton]

theorem not_spaceTells_of_apart
    (h : (∀ c ∈ front.getLast?, c ∈ apart) ∨ ∀ c ∈ back.head?, c ∈ apart) :
    ¬ SpaceTells front back := by
  rintro ⟨before, c, rfl, hclings⟩
  rcases h with hfront | hback
  · exact not_clings_of_mem_apart (hfront c (by simp)) hclings
  · exact not_clings_of_head_mem_apart hback hclings

/-- A space put into a text parts a numeral, a name or a sign from its numeral, or it makes a sign
of a minus. Wherever it does none of these the tokens are the same, as they are at the ends of
the text, beside a space and on either side of a symbol other than the minus. -/
theorem tokenize_insert_space (front back : String) {tokens : List Token}
    (h : tokenize (front ++ back) = .ok tokens) :
    (∃ others, tokenize (front ++ " " ++ back) = .ok others ∧
      (others = tokens ↔ ¬ SpaceTells front.toList back.toList)) ∧
    ((∀ c ∈ front.toList.getLast?, c ∈ apart) ∨ (∀ c ∈ back.toList.head?, c ∈ apart) →
      tokenize (front ++ " " ++ back) = .ok tokens) := by
  obtain ⟨hallowed, rfl⟩ := tokenize_eq_ok_iff_lex.mp h
  rw [String.toList_append] at hallowed
  obtain ⟨hfront, hback⟩ := List.forall_mem_append.mp hallowed
  have hspaced := tokenize_spaced (tokenize_eq_ok_iff_lex.mpr ⟨hfront, rfl⟩)
    (tokenize_eq_ok_iff_lex.mpr ⟨hback, rfl⟩)
  have hsame := lex_append_eq_iff hfront back.toList
  rw [String.toList_append]
  refine ⟨⟨_, hspaced, eq_comm.trans hsame⟩, fun hapart => ?_⟩
  rw [hspaced, hsame.mpr (not_spaceTells_of_apart hapart)]

theorem tokenize_insert_space_minuses :
    (∃ others, tokenize ("(1)-" ++ " " ++ "2") = .ok others ∧
      others ≠ [.openParen, .number "1", .closeParen, .number "-2"]) ∧
    tokenize ("5-" ++ " " ++ "-3") = .ok [.number "5", .operator .subtract, .number "-3"] ∧
    tokenize ("x2" ++ " " ++ "%-3") = .ok [.identifier "x", .number "2", .symbol '%', .number "-3"] := by
  have hparted : SpaceTells "(1)-".toList "2".toList := ⟨['(', '1', ')'], '-', rfl, .sign rfl⟩
  have hkept : ¬ SpaceTells (['5'] ++ ['-']) "-3".toList := by
    rw [spaceTells_append_singleton, clings_iff_of_isSymbol rfl]
    exact Bool.false_ne_true
  refine ⟨?_, ?_, ?_⟩
  · obtain ⟨others, hspaced, hsame⟩ := (tokenize_insert_space "(1)-" "2" rfl).1
    exact ⟨others, hspaced, fun h => hsame.mp h hparted⟩
  · obtain ⟨others, hspaced, hsame⟩ := (tokenize_insert_space "5-" "-3" rfl).1
    rw [hspaced, hsame.mpr hkept]
    rfl
  · exact (tokenize_insert_space "x2" "%-3" rfl).2 (.inr (by simp [apart]))

end DeskCalculator.Token
