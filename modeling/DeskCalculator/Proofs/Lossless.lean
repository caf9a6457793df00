import DeskCalculator.Proofs.FaultOrder
import DeskCalculator.Proofs.Separators
import DeskCalculator.Proofs.Spacing

namespace DeskCalculator

open Character

namespace Numeral

theorem mem_of_mem_splitSign {chars : List Char} {c : Char} (h : c ∈ (splitSign chars).2) :
    c ∈ chars := by
  cases chars with
  | nil => exact h
  | cons d rest =>
      rw [splitSign] at h
      split at h
      · exact List.mem_cons_of_mem d h
      · split at h
        · exact List.mem_cons_of_mem d h
        · exact h

theorem exists_mem_of_word? {chars : List Char} {pattern : Nat} (h : word? chars = some pattern) :
    ∃ c ∈ chars, c.toLower = 'i' ∨ c.toLower = 'n' := by
  have hhead (word : List Char) (hword : String.ofList (chars.map Char.toLower) = String.ofList word) :
      ∀ d ∈ word.head?, ∃ c ∈ chars, c.toLower = d := by
    intro d hd
    rw [← String.ofList_injective hword, List.head?_map] at hd
    obtain ⟨c, hc, rfl⟩ := Option.map_eq_some_iff.mp hd
    exact ⟨c, List.mem_of_head? hc, rfl⟩
  rw [word?] at h
  split at h
  next hword =>
    obtain ⟨c, hc, hlower⟩ := hhead "inf".toList hword 'i' rfl
    exact ⟨c, hc, .inl hlower⟩
  next hword =>
    obtain ⟨c, hc, hlower⟩ := hhead "infinity".toList hword 'i' rfl
    exact ⟨c, hc, .inl hlower⟩
  next hword =>
    obtain ⟨c, hc, hlower⟩ := hhead "nan".toList hword 'n' rfl
    exact ⟨c, hc, .inr hlower⟩
  next => cases h

/-- What the text of a numeral in an expression never is, although a numeral by itself could be. -/
structure Plain (text : String) : Prop where
  sign : '-' ∉ text.toList.tail
  digits : text ≠ "-"
  word : word? (splitSign text.toList).2 = none
  exponent : 'e' ∉ text.toList ∧ 'E' ∉ text.toList

end Numeral

namespace Token

theorem toLower_ne_of_isNumericPart {c : Char} (h : isNumericPart c = true) :
    c.toLower ≠ 'i' ∧ c.toLower ≠ 'n' := by
  have hall : (alphabet.filter isNumericPart).all
      (fun d => d.toLower ≠ 'i' ∧ d.toLower ≠ 'n') = true := by decide +kernel
  have hallowed : isAllowed c = true := by simp [isAllowed, h]
  have hmem := List.mem_filter.mpr ⟨(isAllowed_iff c).mp hallowed, h⟩
  exact of_decide_eq_true (List.all_eq_true.mp hall c hmem)

theorem plain_of_isLexical {text : String} (h : (number text).isLexical = true) :
    Numeral.Plain text := by
  obtain ⟨digits, hrun, hchars⟩ := isLexical_number_iff.mp h
  have hminus : '-' ∉ digits := hrun.not_mem rfl
  have hkinds : ∀ c ∈ text.toList, isNumericPart c = true ∨ c = '-' := by
    intro c hc
    rcases hchars with hchars | hchars
    · rw [hchars] at hc
      exact .inl (hrun.all c hc)
    · rw [hchars] at hc
      exact (List.mem_cons.mp hc).symm.imp_left (hrun.all c)
  have hfree (c : Char) (hnumeric : isNumericPart c = false) (hother : c ≠ '-') : c ∉ text.toList := by
    intro hc
    rcases hkinds c hc with h | h
    · simp [hnumeric] at h
    · exact hother h
  constructor
  · rcases hchars with hchars | hchars
    · rw [hchars]
      exact mt List.mem_of_mem_tail hminus
    · rw [hchars]
      exact hminus
  · rintro rfl
    rcases hchars with rfl | hchars
    · exact hminus (by simp)
    · exact hrun.nonempty (List.cons.inj hchars).2.symm
  · apply Option.eq_none_iff_forall_ne_some.mpr
    intro pattern hword
    obtain ⟨c, hc, hlower⟩ := Numeral.exists_mem_of_word? hword
    rcases hkinds c (Numeral.mem_of_mem_splitSign hc) with hnumeric | rfl
    · exact (not_or.mpr (toLower_ne_of_isNumericPart hnumeric)) hlower
    · simp at hlower
  · exact ⟨hfree 'e' rfl (by decide), hfree 'E' rfl (by decide)⟩

theorem Run.filter_space {p : Char → Bool} {run rest : List Char} (h : Run p run rest)
    (hp : p ' ' = false) : run.filter (· != ' ') = run := by
  apply List.filter_eq_self.mpr
  rintro c hc
  rw [bne_iff_ne]
  rintro rfl
  exact h.not_mem hp hc

theorem compact_of_lexes {b : Bool} {chars : List Char} {tokens : List Token}
    (h : Lexes b chars tokens) : (compact tokens).toList = chars.filter (· != ' ') := by
  induction h with
  | nil b => rfl
  | space b _ ih => exact ih
  | lexeme b kind hrun _ ih =>
      rw [toList_compact_cons, ih, List.filter_append, hrun.filter_space (kind.holds_eq_false rfl rfl),
        Lexeme.text_token, String.toList_ofList]
  | signed hrun _ ih =>
      rw [toList_compact_cons, ih, List.filter_append, List.filter_cons_of_pos rfl,
        hrun.filter_space rfl, text, String.toList_ofList]
  | @symbol b c rest tokens hc _ _ ih =>
      have hspace : c ≠ ' ' := by rintro rfl; cases hc
      simp [toList_compact_cons, ih, text_ofSymbol, hspace]

/-- The lexer reads all of a text over the alphabet and tells the first character that is outside of
it. What it has read are the characters of the text without the spaces, cut into tokens each of which
has its own form, so no numeral among them is a word or has an exponent. -/
theorem tokenize_lossless (text : String) :
    ((∃ tokens, tokenize text = .ok tokens) ↔ ∀ c ∈ text.toList, c ∈ alphabet) ∧
    (∀ fault, tokenize text = .error fault ↔
      ∃ c index, FirstOutside text.toList c index ∧ fault = .unknownCharacter c index) ∧
    ∀ tokens, tokenize text = .ok tokens →
      (compact tokens).toList = text.toList.filter (· != ' ') ∧
      (∀ token ∈ tokens, token.isLexical = true) ∧
      ∀ numeral, .number numeral ∈ tokens → Numeral.Plain numeral := by
  refine ⟨⟨?_, fun h => ⟨_, tokenize_of_alphabet text h⟩⟩, fun fault => ?_, fun tokens h => ?_⟩
  · rintro ⟨tokens, h⟩ c hc
    exact (isAllowed_iff c).mp ((tokenize_eq_ok_iff_lex.mp h).1 c hc)
  · simp only [tokenize_eq_error_iff, firstForeign?_eq_some_iff]
  · have hlexes := (tokenize_eq_ok_iff text tokens).mp h
    have hlexical := isLexical_of_lexes hlexes
    exact ⟨compact_of_lexes hlexes, hlexical, fun numeral hmem => plain_of_isLexical (hlexical _ hmem)⟩

theorem tokenize_lossless_signs :
    (∃ tokens, tokenize "(x) -.5--1,0 %" = .ok tokens ∧ (compact tokens).toList = "(x)-.5--1,0%".toList ∧
      Numeral.Plain "-1,0") ∧
    tokenize "2 & 3=" = .error (.unknownCharacter '&' 2) := by
  constructor
  · obtain ⟨hcompact, -, hplain⟩ := (tokenize_lossless "(x) -.5--1,0 %").2.2 _ rfl
    exact ⟨_, rfl, hcompact, hplain "-1,0" (by decide)⟩
  · exact ((tokenize_lossless "2 & 3=").2.1 _).mpr
      ⟨'&', 2, firstForeign?_eq_some_iff.mp rfl, rfl⟩

end Token

end DeskCalculator
