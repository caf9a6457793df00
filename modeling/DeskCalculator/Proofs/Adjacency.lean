import DeskCalculator.Proofs.Conservation
import DeskCalculator.Proofs.Tree

namespace DeskCalculator

namespace Token

def isOperand : Token → Bool
  | .number _ | .identifier _ => true
  | .operator _ | .symbol _ | .openParen | .closeParen => false

theorem isCarried_of_isOperand {token : Token} (h : token.isOperand = true) :
    token.isCarried = true := by
  cases token with
  | number | identifier => rfl
  | operator | symbol | openParen | closeParen => cases h

def endsOperand : Token → Bool
  | .number _ | .identifier _ | .closeParen => true
  | .operator _ | .symbol _ | .openParen => false

def startsOperand : Token → Bool
  | .number _ | .identifier _ | .openParen => true
  | .operator _ | .symbol _ | .closeParen => false

/-- Somewhere an operand or a group is followed by another one with no operator between. -/
def Juxtaposed (tokens : List Token) : Prop :=
  ∃ a b, [a, b] <:+: tokens ∧ a.endsOperand = true ∧ b.startsOperand = true

/-- The places between neighbouring tokens, those at the two ends of the sequence among them. -/
def places (before : Option Token) : List Token → List (Option Token × Option Token)
  | [] => [(before, none)]
  | token :: rest => (before, some token) :: places (some token) rest

def isJuxtaposition (place : Option Token × Option Token) : Bool :=
  place.1.any endsOperand && place.2.any startsOperand

def isVacancy (place : Option Token × Option Token) : Bool :=
  !place.1.any endsOperand && !place.2.any startsOperand

def juxtapositions (tokens : List Token) : Nat := (places none tokens).countP isJuxtaposition

def vacancies (tokens : List Token) : Nat := (places none tokens).countP isVacancy

theorem mem_places_iff {before : Option Token} {tokens : List Token} {a b : Token} :
    (some a, some b) ∈ places before tokens ↔ [a, b] <:+: before.toList ++ tokens := by
  induction tokens generalizing before with
  | nil => cases before <;> simp [places, List.infix_cons_iff]
  | cons token rest ih =>
      rw [places, List.mem_cons, ih]
      cases before with
      | none => simp
      | some other => simp [List.infix_cons_iff]

theorem juxtapositions_pos_iff {tokens : List Token} :
    0 < juxtapositions tokens ↔ Juxtaposed tokens := by
  rw [juxtapositions, List.countP_pos_iff]
  constructor
  · rintro ⟨⟨_ | a, _ | b⟩, hmem, hplace⟩
    · simp [isJuxtaposition] at hplace
    · simp [isJuxtaposition] at hplace
    · simp [isJuxtaposition] at hplace
    · exact ⟨a, b, mem_places_iff.mp hmem, by simpa [isJuxtaposition] using hplace⟩
  · rintro ⟨a, b, hinfix, ha, hb⟩
    exact ⟨(some a, some b), mem_places_iff.mpr hinfix, by simp [isJuxtaposition, ha, hb]⟩

theorem juxtapositions_eq_zero_iff {tokens : List Token} :
    juxtapositions tokens = 0 ↔ ¬ Juxtaposed tokens := by
  rw [← juxtapositions_pos_iff]
  omega

instance (tokens : List Token) : Decidable (Juxtaposed tokens) :=
  decidable_of_iff (0 < juxtapositions tokens) juxtapositions_pos_iff

/-- Places and tokens are counted against each other: an operand closes one place and opens
another, and an operator does neither. -/
theorem countP_places (before : Option Token) {tokens : List Token}
    (h : ∀ token ∈ tokens, token.symbol? = none) :
    tokens.countP isOperand + (places before tokens).countP isVacancy +
        (before.any endsOperand).toNat =
      tokens.countP isOperator + (places before tokens).countP isJuxtaposition + 1 := by
  induction tokens generalizing before with
  | nil => cases hb : before.any endsOperand <;> simp [places, isVacancy, isJuxtaposition, hb]
  | cons token rest ih =>
      obtain ⟨htoken, hrest⟩ := List.forall_mem_cons.mp h
      have hstep := ih (some token) hrest
      simp only [places, List.countP_cons]
      cases token with
      | symbol character => cases htoken
      | number | identifier | operator | openParen | closeParen =>
          cases hb : before.any endsOperand <;>
            simp [isVacancy, isJuxtaposition, isOperand, isOperator, endsOperand, startsOperand, hb]
              at hstep ⊢ <;> omega

end Token

end DeskCalculator
