import DeskCalculator.Proofs.Juxtaposition

namespace DeskCalculator

namespace Derivation

def raise : Derivation .power → Derivation .primary → Derivation .power
  | .ofPrimary base, last => .power base (.ofPrimary last)
  | .power base exponent, last => .power base (exponent.raise last)

def mapLastFactor (f : Derivation .power → Derivation .power) :
    Derivation .product → Derivation .product
  | .ofPower factor => .ofPower (f factor)
  | .product left op hop right => .product left op hop (f right)

def mapLastTerm (f : Derivation .product → Derivation .product) : Derivation .sum → Derivation .sum
  | .ofProduct term => .ofProduct (f term)
  | .sum left op hop right => .sum left op hop (f right)

/-- One more operand behind a phrase. A sum takes in the whole phrase, a product only the
last term of it and a power only the last operand. -/
def append (phrase : Derivation .sum) (op : Operator) (last : Derivation .primary) : Derivation .sum :=
  match op with
  | .add => .sum phrase .add (.inl rfl) (.ofPower (.ofPrimary last))
  | .subtract => .sum phrase .subtract (.inr rfl) (.ofPower (.ofPrimary last))
  | .multiply => phrase.mapLastTerm fun term => .product term .multiply (.inl rfl) (.ofPrimary last)
  | .divide => phrase.mapLastTerm fun term => .product term .divide (.inr rfl) (.ofPrimary last)
  | .power => phrase.mapLastTerm fun term => term.mapLastFactor fun factor => factor.raise last

variable {behind : List Token}

theorem yield_raise (factor : Derivation .power) (last : Derivation .primary) :
    (factor.raise last).yield = factor.yield ++ .operator .power :: last.yield := by
  match factor with
  | .ofPrimary base => simp [raise, yield]
  | .power base exponent => simp [raise, yield, yield_raise exponent last]

theorem yield_mapLastFactor {f : Derivation .power → Derivation .power}
    (hf : ∀ factor, (f factor).yield = factor.yield ++ behind) (term : Derivation .product) :
    (term.mapLastFactor f).yield = term.yield ++ behind := by
  cases term with
  | ofPower factor => exact hf factor
  | product left op hop right => simp [mapLastFactor, yield, hf]

theorem yield_mapLastTerm {f : Derivation .product → Derivation .product}
    (hf : ∀ term, (f term).yield = term.yield ++ behind) (phrase : Derivation .sum) :
    (phrase.mapLastTerm f).yield = phrase.yield ++ behind := by
  cases phrase with
  | ofProduct term => exact hf term
  | sum left op hop right => simp [mapLastTerm, yield, hf]

theorem yield_append (phrase : Derivation .sum) (op : Operator) (last : Derivation .primary) :
    (phrase.append op last).yield = phrase.yield ++ .operator op :: last.yield := by
  cases op with
  | add | subtract => rfl
  | multiply | divide => exact yield_mapLastTerm (fun _ => rfl) phrase
  | power =>
      exact yield_mapLastTerm (yield_mapLastFactor fun factor => factor.yield_raise last) phrase

/-- What can have been read of a group or of a whole text, and whether an operand has just
ended there. -/
inductive Begun : Bool → List Token → Prop
  | empty : Begun false []
  | operator (phrase : Derivation .sum) (op : Operator) : Begun false (phrase.yield ++ [.operator op])
  | phrase (phrase : Derivation .sum) : Begun true phrase.yield

theorem Begun.primary {front : List Token} (h : Begun false front) (last : Derivation .primary) :
    Begun true (front ++ last.yield) := by
  cases h with
  | empty => exact .phrase (.ofProduct (.ofPower (.ofPrimary last)))
  | operator phrase op =>
      rw [List.append_assoc, List.singleton_append, ← yield_append]
      exact .phrase (phrase.append op last)

end Derivation

namespace Token

def Alternates (ended : Bool) : List Token → Prop
  | [] => ended = true
  | token :: rest => token.startsOperand = !ended ∧ Alternates token.endsOperand rest

theorem alternates_iff (before : Option Token) {tokens : List Token} :
    Alternates (before.any endsOperand) tokens ↔
      (places before tokens).countP isJuxtaposition = 0 ∧
        (places before tokens).countP isVacancy = 0 := by
  induction tokens generalizing before with
  | nil => simp [Alternates, places, isJuxtaposition, isVacancy]
  | cons token rest ih =>
      have hstep := ih (some token)
      rw [Option.any_some] at hstep
      rw [Alternates, hstep, places, List.countP_cons, List.countP_cons, isJuxtaposition, isVacancy,
        Option.any_some]
      cases before.any endsOperand <;> cases token.startsOperand <;> simp

end Token

namespace Derivation

open Token

def opened : List (List Token) → List Token
  | [] => []
  | front :: outer => opened outer ++ front ++ [.openParen]

/-- A text is read from the left. The fronts of the open groups are kept, and a group that
is closed becomes the last operand of the one around it. -/
theorem exists_of_alternates {tokens : List Token} (hplain : ∀ token ∈ tokens, token.symbol? = none)
    {ended : Bool} {front : List Token} (outer : List (List Token)) (halt : Alternates ended tokens)
    (hbalanced : Parentheses.balancedTokens outer.length tokens = true) (hfront : Begun ended front)
    (houter : ∀ group ∈ outer, Begun false group) :
    ∃ phrase : Derivation .sum, phrase.yield = opened outer ++ front ++ tokens := by
  induction tokens generalizing ended front outer with
  | nil =>
      cases outer with
      | nil =>
          cases hfront with
          | phrase phrase => exact ⟨phrase, by simp [opened]⟩
          | empty | operator => cases halt
      | cons group outer => simp [Parentheses.balancedTokens] at hbalanced
  | cons token rest ih =>
      obtain ⟨htoken, hrest⟩ := List.forall_mem_cons.mp hplain
      obtain ⟨hstart, halt⟩ := halt
      have hread {front' : List Token} {outer' : List (List Token)}
          (hsame : opened outer' ++ front' = opened outer ++ front ++ [token])
          (hbalanced' : Parentheses.balancedTokens outer'.length rest = true)
          (hfront' : Begun token.endsOperand front')
          (houter' : ∀ group ∈ outer', Begun false group) :
          ∃ phrase : Derivation .sum, phrase.yield = opened outer ++ front ++ token :: rest := by
        obtain ⟨phrase, hphrase⟩ := ih hrest outer' halt hbalanced' hfront' houter'
        exact ⟨phrase, by rw [hphrase, hsame, List.append_assoc, List.singleton_append]⟩
      cases token with
      | number text =>
          cases ended with
          | true => cases hstart
          | false =>
              have hfront' := hfront.primary (.leaf (.number text))
              exact hread (List.append_assoc ..).symm hbalanced hfront' houter
      | identifier name =>
          cases ended with
          | true => cases hstart
          | false =>
              have hfront' := hfront.primary (.leaf (.identifier name))
              exact hread (List.append_assoc ..).symm hbalanced hfront' houter
      | operator op =>
          cases hfront with
          | empty | operator => cases hstart
          | phrase phrase =>
              exact hread (List.append_assoc ..).symm hbalanced (.operator phrase op) houter
      | symbol character => cases htoken
      | openParen =>
          cases ended with
          | true => cases hstart
          | false =>
              refine hread ?_ hbalanced .empty (List.forall_mem_cons.mpr ⟨hfront, houter⟩)
              simp [opened]
      | closeParen =>
          cases hfront with
          | empty | operator => cases hstart
          | phrase phrase =>
              cases outer with
              | nil => cases hbalanced
              | cons group outer =>
                  obtain ⟨hgroup, houter⟩ := List.forall_mem_cons.mp houter
                  refine hread ?_ hbalanced (hgroup.primary (.group phrase)) houter
                  simp [opened, yield]

theorem alternates_yield {category : Category} (phrase : Derivation category) (rest : List Token) :
    Alternates false (phrase.yield ++ rest) ↔ Alternates true rest := by
  induction phrase generalizing rest with
  | leaf operand =>
      cases operand <;> simp [yield, Operand.token, Alternates, startsOperand, endsOperand]
  | group inner ih => simp [yield, Alternates, startsOperand, endsOperand, ih]
  | ofPrimary base ih => exact ih rest
  | ofPower factor ih => exact ih rest
  | ofProduct term ih => exact ih rest
  | power left right ihl ihr | product left _ _ right ihl ihr | sum left _ _ right ihl ihr =>
      rw [yield, List.append_assoc, ihl, List.cons_append, Alternates, endsOperand, ihr]
      simp [startsOperand]

theorem alternates (phrase : Derivation .sum) : Alternates false phrase.yield := by
  have h := (phrase.alternates_yield []).mpr rfl
  rwa [List.append_nil] at h

theorem exists_yield_iff {tokens : List Token} :
    (∃ phrase : Derivation .sum, phrase.yield = tokens) ↔
      Parentheses.balancedTokens 0 tokens = true ∧ (∀ token ∈ tokens, token.symbol? = none) ∧
        juxtapositions tokens = 0 ∧ vacancies tokens = 0 := by
  constructor
  · rintro ⟨phrase, rfl⟩
    have hbalanced := phrase.balancedTokens_yield 0 []
    rw [List.append_nil] at hbalanced
    have hplaces := (alternates_iff none).mp phrase.alternates
    exact ⟨hbalanced, fun _ => symbol?_of_mem_yield, hplaces⟩
  · rintro ⟨hbalanced, hplain, hplaces⟩
    have halt := (alternates_iff none).mpr hplaces
    exact exists_of_alternates hplain [] halt hbalanced .empty (by simp)

theorem countP_isOperand_yield (phrase : Derivation .sum) :
    phrase.yield.countP isOperand = phrase.yield.countP isOperator + 1 := by
  obtain ⟨-, hplain, hjuxtapositions, hvacancies⟩ := exists_yield_iff.mp ⟨phrase, rfl⟩
  have hplaces := countP_places none hplain
  rw [juxtapositions] at hjuxtapositions
  rw [vacancies] at hvacancies
  simpa [hjuxtapositions, hvacancies] using hplaces

end Derivation

namespace Expression

open Token

/-- What is no sentence has no value, whatever else is right or wrong with it, as long as no
two operands stand side by side. A blank text is left out, since it is worth zero. -/
theorem evaluate_not_sentence (store : Store) {text : String} {tokens : List Token}
    (hblank : Blank.trim text ≠ "") (h : tokenize (Blank.trim text) = .ok tokens)
    (hapart : ¬ Juxtaposed tokens) (hnone : ∀ phrase : Derivation .sum, phrase.yield ≠ tokens) :
    ∃ fault, evaluate store text = .error fault := by
  refine exists_fault_of_no_tree hblank (fun tree htree => ?_) store
  obtain ⟨hbalanced, horder⟩ := (toPostfix_eq_ok_iff h).mp htree
  have hplain := (Postfix.ofInfix_eq_ok_iff.mp horder).1
  have hjuxtapositions := juxtapositions_eq_zero_iff.mpr hapart
  have hvacancies := (juxtapositions_eq_vacancies h htree).symm.trans hjuxtapositions
  obtain ⟨phrase, hphrase⟩ :=
    Derivation.exists_yield_iff.mpr ⟨hbalanced, hplain, hjuxtapositions, hvacancies⟩
  exact hnone phrase hphrase

theorem evaluate_not_sentence_hole :
    tokenize (Blank.trim " 2 * (x -) ") =
        .ok [.number "2", .operator .multiply, .openParen, .identifier "x", .operator .subtract,
          .closeParen] ∧
      ∃ fault, evaluate (Store.empty.insert "x" 5) " 2 * (x -) " = .error fault := by
  have h : tokenize (Blank.trim " 2 * (x -) ") =
      .ok [.number "2", .operator .multiply, .openParen, .identifier "x", .operator .subtract,
        .closeParen] := rfl
  refine ⟨h, evaluate_not_sentence _ (not_blank_of_tokenize h (by simp)) h (by decide) ?_⟩
  intro phrase hphrase
  have hvacancies := (Derivation.exists_yield_iff.mp ⟨phrase, hphrase⟩).2.2.2
  exact absurd hvacancies (by decide)

end Expression

end DeskCalculator
