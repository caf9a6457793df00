import DeskCalculator.Proofs.Rendering

namespace DeskCalculator

namespace Parentheses

/-- No part of the text from its start closes more than it opens, and the whole closes all. -/
def Matched (chars : List Char) : Prop :=
  (∀ front, front <+: chars → front.count ')' ≤ front.count '(') ∧
    chars.count ')' = chars.count '('

theorem forall_prefix_cons {α : Type} {p : List α → Prop} {a : α} {rest : List α} :
    (∀ front, front <+: a :: rest → p front) ↔
      p [] ∧ ∀ front, front <+: rest → p (a :: front) := by
  simp only [List.prefix_cons_iff]
  constructor
  · intro h
    exact ⟨h [] (.inl rfl), fun front hfront => h (a :: front) (.inr ⟨front, rfl, hfront⟩)⟩
  · rintro ⟨hnil, hcons⟩ front (rfl | ⟨later, rfl, hlater⟩)
    · exact hnil
    · exact hcons later hlater

theorem balancedFrom_iff (depth : Nat) (chars : List Char) :
    balancedFrom depth chars = true ↔
      (∀ front, front <+: chars → front.count ')' ≤ depth + front.count '(') ∧
        chars.count ')' = depth + chars.count '(' := by
  induction chars generalizing depth with
  | nil => simp [balancedFrom, @eq_comm Nat 0 depth]
  | cons c rest ih =>
      rw [forall_prefix_cons, balancedFrom]
      by_cases hopen : c = '('
      · simp [hopen, ih, Nat.add_assoc, Nat.add_comm 1]
      · by_cases hclose : c = ')'
        · cases depth with
          | zero =>
              refine iff_of_false (by simp [hclose]) fun h => ?_
              exact absurd (h.1.2 [] List.nil_prefix) (by simp [hclose])
          | succ depth => simp [hclose, ih, Nat.add_right_comm _ 1]
        · simp [hopen, hclose, ih]

theorem balanced_iff (text : String) : balanced text = true ↔ Matched text.toList := by
  simp [balanced, balancedFrom_iff, Matched]

end Parentheses

namespace Character

def alphabet : List Char :=
  "0123456789.,ABCDEFGHIJKLMNOPQRSTUVWXYZabcdefghijklmnopqrstuvwxyz^/*+%() -".toList

theorem toNat_lt_of_isAllowed {c : Char} (h : isAllowed c = true) : c.toNat < 128 := by
  rcases Lexeme.exists_of_isAllowed h with ⟨kind, hc⟩ | hc | rfl
  · have := Lexeme.bounds_of_holds hc
    omega
  · rcases eq_of_isSymbol hc with rfl | rfl | rfl | rfl | rfl | rfl | rfl | rfl <;> decide
  · decide

theorem isAllowed_iff (c : Char) : isAllowed c = true ↔ c ∈ alphabet := by
  have hperm : (((List.range 128).map Char.ofNat).filter isAllowed).Perm alphabet := by
    decide +kernel
  rw [← hperm.mem_iff, List.mem_filter, List.mem_map]
  constructor
  · intro h
    exact ⟨⟨c.toNat, List.mem_range.mpr (toNat_lt_of_isAllowed h), Char.ofNat_toNat c⟩, h⟩
  · exact And.right

end Character

namespace Token

open Character

def FirstOutside (chars : List Char) (c : Char) (index : Nat) : Prop :=
  chars[index]? = some c ∧ c ∉ alphabet ∧ ∀ d ∈ chars.take index, d ∈ alphabet

theorem firstForeign?_eq_some_iff {chars : List Char} {c : Char} {index : Nat} :
    firstForeign? chars = some (c, index) ↔ FirstOutside chars c index := by
  simp only [firstForeign?, List.find?_eq_some_iff_getElem, FirstOutside, ← isAllowed_iff,
    List.getElem?_eq_some_iff, List.mem_take_iff_getElem, Bool.not_eq_true', Bool.not_eq_true,
    Bool.not_not, List.length_zipIdx, List.getElem_zipIdx, Nat.zero_add, Prod.mk.injEq]
  constructor
  · rintro ⟨hc, i, hi, ⟨hget, rfl⟩, hbefore⟩
    refine ⟨⟨hi, hget⟩, hc, ?_⟩
    rintro d ⟨j, hj, rfl⟩
    exact hbefore j (by omega)
  · rintro ⟨⟨hi, hget⟩, hc, hbefore⟩
    exact ⟨hc, index, hi, ⟨hget, rfl⟩, fun j hj => hbefore _ ⟨j, by omega, rfl⟩⟩

theorem firstForeign?_eq_none_iff_alphabet {chars : List Char} :
    firstForeign? chars = none ↔ ∀ c ∈ chars, c ∈ alphabet := by
  simp only [firstForeign?_eq_none_iff, isAllowed_iff]

theorem ofSymbol_eq_symbol_iff {c character : Char} (hc : isSymbol c = true) :
    ofSymbol c = .symbol character ↔ c = '%' ∧ character = '%' := by
  rcases eq_of_isSymbol hc with rfl | rfl | rfl | rfl | rfl | rfl | rfl | rfl <;>
    simp [ofSymbol, Operator.ofSymbol?, Operator.all, Operator.symbol, eq_comm]

theorem Run.not_mem {p : Char → Bool} {run rest : List Char} (h : Run p run rest) {c : Char}
    (hc : p c = false) : c ∉ run := by
  intro hmem
  rw [h.all c hmem] at hc
  cases hc

/-- The percent sign is the one symbol without an operator, and it is kept wherever it stands. -/
theorem symbol_mem_iff_of_lexes {b : Bool} {chars : List Char} {tokens : List Token}
    (h : Lexes b chars tokens) (character : Char) :
    .symbol character ∈ tokens ↔ character = '%' ∧ '%' ∈ chars := by
  induction h with
  | nil b => simp
  | space b _ ih => simp [ih]
  | lexeme b kind hrun _ ih =>
      have hpercent : '%' ∉ _ := hrun.not_mem (kind.holds_eq_false rfl rfl)
      cases kind <;> simp [Lexeme.token, ih, hpercent]
  | signed hrun _ ih => simp [ih, hrun.not_mem (c := '%') rfl]
  | @symbol b c rest tokens hc _ _ ih =>
      rw [List.mem_cons, List.mem_cons, ih, eq_comm, ofSymbol_eq_symbol_iff hc]
      grind

theorem tokenize_of_outside (text : String) {c : Char} {index : Nat}
    (h : FirstOutside text.toList c index) :
    tokenize text = .error (.unknownCharacter c index) := by
  rw [tokenize, firstForeign?_eq_some_iff.mpr h]

theorem tokenize_of_alphabet (text : String) (h : ∀ c ∈ text.toList, c ∈ alphabet) :
    tokenize text = .ok (lex true text.toList) := by
  rw [tokenize, firstForeign?_eq_none_iff_alphabet.mpr h]

theorem findSome?_symbol? {text : String} {tokens : List Token} (h : tokenize text = .ok tokens) :
    tokens.findSome? symbol? = if '%' ∈ text.toList then some '%' else none := by
  have hsymbol := symbol_mem_iff_of_lexes ((tokenize_eq_ok_iff text tokens).mp h)
  cases hfound : tokens.findSome? symbol? with
  | some character =>
      obtain ⟨token, hmem, htoken⟩ := List.exists_of_findSome?_eq_some hfound
      cases token with
      | symbol other =>
          obtain rfl := Option.some.inj htoken
          obtain ⟨rfl, hpercent⟩ := (hsymbol other).mp hmem
          rw [if_pos hpercent]
      | number | identifier | operator | openParen | closeParen => cases htoken
  | none =>
      rw [if_neg]
      intro hpercent
      have hnone := List.findSome?_eq_none_iff.mp hfound _ ((hsymbol '%').mpr ⟨rfl, hpercent⟩)
      cases hnone

theorem ofInfix_of_percent {text : String} {tokens : List Token} (h : tokenize text = .ok tokens)
    (hpercent : '%' ∈ text.toList) : Postfix.ofInfix tokens = .error (.unsupportedOperator '%') := by
  rw [Postfix.ofInfix, findSome?_symbol? h]
  simp only [hpercent, if_true]

theorem ofInfix_of_no_percent {text : String} {tokens : List Token} (h : tokenize text = .ok tokens)
    (hpercent : '%' ∉ text.toList) : Postfix.ofInfix tokens = .ok (Postfix.order [] tokens) := by
  rw [Postfix.ofInfix, findSome?_symbol? h]
  simp only [hpercent, if_false]

end Token

def Fault.FromRun (fault : Fault) : Prop :=
  fault = .malformedExpression ∨ fault = .divisionByZero ∨ ∃ name, fault = .unknownVariable name

namespace Postfix

variable {store : Store} {token : Token} {tokens : List Token} {values : List Float} {fault : Fault}

theorem step_fault (hcarried : token.isCarried = true) (h : step store values token = .error fault) :
    fault.FromRun := by
  have hoperand (operand : Operand) (ho : operand.token = token) : fault.FromRun := by
    subst ho
    rw [step_operand] at h
    cases hvalue : (Tree.leaf operand).value store with
    | ok value =>
        rw [hvalue] at h
        cases h
    | error found =>
        rw [hvalue] at h
        obtain rfl := Except.error.inj h
        exact .inr (Tree.value_error_kind hvalue)
  cases token with
  | number text => exact hoperand (.number text) rfl
  | identifier name => exact hoperand (.identifier name) rfl
  | operator op =>
      match values with
      | [] | [_] => exact .inl (Except.error.inj h).symm
      | right :: left :: below =>
          simp only [step, combine] at h
          split at h
          · exact .inr (.inl (Except.error.inj h).symm)
          · cases h
  | symbol | openParen | closeParen => cases hcarried

theorem foldlM_fault (hcarried : ∀ token ∈ tokens, token.isCarried = true)
    (h : tokens.foldlM (step store) values = .error fault) : fault.FromRun := by
  induction tokens generalizing values with
  | nil => cases h
  | cons token rest ih =>
      obtain ⟨htoken, hrest⟩ := List.forall_mem_cons.mp hcarried
      rw [List.foldlM_cons] at h
      rcases Fault.bind_eq_error_iff.mp h with hstep | ⟨after, -, hrun⟩
      · exact step_fault htoken hstep
      · exact ih hrest hrun

theorem evaluate_fault (hcarried : ∀ token ∈ tokens, token.isCarried = true)
    (h : evaluate store tokens = .error fault) : fault.FromRun := by
  rcases Fault.bind_eq_error_iff.mp h with hrun | ⟨values, -, hlast⟩
  · exact foldlM_fault hcarried hrun
  · match values with
    | [_] => cases hlast
    | [] | _ :: _ :: _ => exact .inl (Except.error.inj hlast).symm

end Postfix

namespace Expression

open Parentheses Character Token

def trimmed (text : String) : List Char := (Blank.trim text).toList

variable {text : String}

theorem trimmed_eq_nil_iff : trimmed text = [] ↔ Blank.trim text = "" := String.toList_eq_nil_iff

theorem toPostfix_unbalanced (h : ¬ Matched (trimmed text)) :
    toPostfix text = .error .unbalancedParentheses := by
  rw [toPostfix, convert, if_neg (mt (balanced_iff _).mp h)]

theorem toPostfix_outside (h : Matched (trimmed text)) {c : Char} {index : Nat}
    (hfirst : FirstOutside (trimmed text) c index) :
    toPostfix text = .error (.unknownCharacter c index) := by
  rw [toPostfix, convert, if_pos ((balanced_iff _).mpr h), tokenize_of_outside _ hfirst]
  rfl

theorem toPostfix_of_matched (h : Matched (trimmed text)) {tokens : List Token}
    (htokens : tokenize (Blank.trim text) = .ok tokens) : toPostfix text = Postfix.ofInfix tokens := by
  have hbalanced := (balanced_iff _).mpr h
  rw [balanced_of_tokenize htokens] at hbalanced
  exact toPostfix_eq_ofInfix htokens hbalanced

theorem toPostfix_percent (h : Matched (trimmed text))
    (halphabet : ∀ c ∈ trimmed text, c ∈ alphabet) (hpercent : '%' ∈ trimmed text) :
    toPostfix text = .error (.unsupportedOperator '%') := by
  have htokens := tokenize_of_alphabet (Blank.trim text) halphabet
  rw [toPostfix_of_matched h htokens, ofInfix_of_percent htokens hpercent]

theorem toPostfix_readable (h : Matched (trimmed text))
    (halphabet : ∀ c ∈ trimmed text, c ∈ alphabet) (hpercent : '%' ∉ trimmed text) :
    ∃ result, toPostfix text = .ok result ∧ ∀ token ∈ result, token.isCarried = true := by
  have htokens := tokenize_of_alphabet (Blank.trim text) halphabet
  have horder := ofInfix_of_no_percent htokens hpercent
  exact ⟨_, (toPostfix_of_matched h htokens).trans horder, Postfix.isCarried_of_ofInfix horder⟩

theorem evaluate_of_toPostfix_error {fault : Fault} (hblank : trimmed text ≠ [])
    (h : toPostfix text = .error fault) (store : Store) : evaluate store text = .error fault := by
  rw [evaluate_of_not_blank (mt trimmed_eq_nil_iff.mpr hblank), h]
  rfl

theorem evaluate_readable (hblank : trimmed text ≠ []) (h : Matched (trimmed text))
    (halphabet : ∀ c ∈ trimmed text, c ∈ alphabet) (hpercent : '%' ∉ trimmed text) (store : Store) :
    ∃ result, toPostfix text = .ok result ∧ (∀ token ∈ result, token.isCarried = true) ∧
      evaluate store text = Postfix.evaluate store result ∧
      ∀ fault, evaluate store text = .error fault → fault.FromRun := by
  obtain ⟨result, hresult, hcarried⟩ := toPostfix_readable h halphabet hpercent
  have heval : evaluate store text = Postfix.evaluate store result := by
    rw [evaluate_of_not_blank (mt trimmed_eq_nil_iff.mpr hblank), hresult]
    rfl
  exact ⟨result, hresult, hcarried, heval, fun _ hfault =>
    Postfix.evaluate_fault hcarried (heval ▸ hfault)⟩

/-- Which fault wins. The parentheses are looked at first, then the characters, then the
percent signs, and only a text that is right in all these ways is run. -/
theorem evaluate_fault_order (store : Store) (text : String) :
    (evaluate store text = .error .unbalancedParentheses ↔ ¬ Matched (trimmed text)) ∧
    (trimmed text = [] → evaluate store text = .ok 0) ∧
    (((∃ c index, evaluate store text = .error (.unknownCharacter c index)) ↔
        Matched (trimmed text) ∧ ∃ c ∈ trimmed text, c ∉ alphabet) ∧
      ∀ c index, evaluate store text = .error (.unknownCharacter c index) →
        FirstOutside (trimmed text) c index) ∧
    (∀ character, evaluate store text = .error (.unsupportedOperator character) ↔
      Matched (trimmed text) ∧ (∀ c ∈ trimmed text, c ∈ alphabet) ∧
        '%' ∈ trimmed text ∧ character = '%') ∧
    (Matched (trimmed text) → trimmed text ≠ [] → (∀ c ∈ trimmed text, c ∈ alphabet) →
      '%' ∉ trimmed text →
        ∃ result, toPostfix text = .ok result ∧ (∀ token ∈ result, token.isCarried = true) ∧
          evaluate store text = Postfix.evaluate store result ∧
          ∀ fault, evaluate store text = .error fault → fault.FromRun) := by
  by_cases hblank : trimmed text = []
  · have hmatched : Matched [] := ⟨by simp, rfl⟩
    have hzero : evaluate store text = .ok 0 := by
      rw [evaluate, trimmed_eq_nil_iff.mp hblank]
      rfl
    simp [hzero, hblank, hmatched]
  by_cases hm : Matched (trimmed text)
  case neg =>
    have heval := evaluate_of_toPostfix_error hblank (toPostfix_unbalanced hm) store
    simp [heval, hblank, hm]
  cases hforeign : firstForeign? (trimmed text) with
  | some found =>
      obtain ⟨c, index⟩ := found
      have hfirst := firstForeign?_eq_some_iff.mp hforeign
      have heval := evaluate_of_toPostfix_error hblank (toPostfix_outside hm hfirst) store
      have houtside : ∃ d ∈ trimmed text, d ∉ alphabet :=
        ⟨c, List.mem_of_getElem? hfirst.1, hfirst.2.1⟩
      have hnot : ¬ ∀ d ∈ trimmed text, d ∈ alphabet := by simpa using houtside
      simpa [heval, hm, hblank, houtside, hnot] using hfirst
  | none =>
      have halphabet := firstForeign?_eq_none_iff_alphabet.mp hforeign
      have hnone : ¬ ∃ d ∈ trimmed text, d ∉ alphabet := by simpa using halphabet
      by_cases hpercent : '%' ∈ trimmed text
      · have heval :=
          evaluate_of_toPostfix_error hblank (toPostfix_percent hm halphabet hpercent) store
        simp only [heval, hm, hblank, hnone, hpercent]
        simpa using fun _ => eq_comm.trans (and_iff_right halphabet).symm
      · have hrun := evaluate_readable hblank hm halphabet hpercent store
        have hother (fault : Fault) (hnot : ¬ fault.FromRun) : evaluate store text ≠ .error fault := by
          obtain ⟨-, -, -, -, hfault⟩ := hrun
          exact fun h => hnot (hfault fault h)
        simp only [Fault.FromRun] at hother
        refine ⟨?_, fun h => absurd h hblank, ⟨?_, ?_⟩, ?_, fun _ _ _ _ => hrun⟩
        · exact iff_of_false (hother _ (by simp)) (not_not_intro hm)
        · refine iff_of_false ?_ fun h => hnone h.2
          rintro ⟨c, index, h⟩
          exact hother _ (by simp) h
        · exact fun _ _ h => absurd h (hother _ (by simp))
        · exact fun _ => iff_of_false (hother _ (by simp)) fun h => hpercent h.2.2.1

theorem evaluate_fault_order_masked :
    evaluate .empty " #)(% " = .error .unbalancedParentheses ∧
      evaluate .empty " 1/0 % x " = .error (.unsupportedOperator '%') ∧
      ∃ result, toPostfix "x / 0" = .ok result ∧
        evaluate .empty "x / 0" = Postfix.evaluate .empty result := by
  have hparens := (evaluate_fault_order .empty " #)(% ").1
  have hpercent := (evaluate_fault_order .empty " 1/0 % x ").2.2.2.1 '%'
  have hrun := (evaluate_fault_order .empty "x / 0").2.2.2.2
  refine ⟨hparens.mpr (mt (balanced_iff _).mpr (by decide)),
    hpercent.mpr
      ⟨(balanced_iff _).mp rfl, firstForeign?_eq_none_iff_alphabet.mp rfl, by decide, rfl⟩, ?_⟩
  obtain ⟨result, hresult, -, heval, -⟩ :=
    hrun ((balanced_iff _).mp rfl) (by decide) (firstForeign?_eq_none_iff_alphabet.mp rfl) (by decide)
  exact ⟨result, hresult, heval⟩

end Expression

end DeskCalculator
