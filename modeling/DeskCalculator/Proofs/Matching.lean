import DeskCalculator.Proofs.Balance
import Mathlib.Data.List.Induction

namespace DeskCalculator.Parentheses

def depthAfter (depth : Nat) : Token → Nat
  | .openParen => depth + 1
  | .closeParen => depth - 1
  | .number _ | .identifier _ | .operator _ | .symbol _ => depth

theorem balancedTokens_cons_iff {depth : Nat} {token : Token} {rest : List Token} :
    balancedTokens depth (token :: rest) = true ↔
      (token = .closeParen → 0 < depth) ∧ balancedTokens (depthAfter depth token) rest = true := by
  cases token <;> simp [balancedTokens, depthAfter]

/-- How many groups stay open behind these tokens. -/
def unclosed (tokens : List Token) : Nat := tokens.foldl depthAfter 0

/-- How many groups these tokens close that were opened in front of them. -/
def unopened : List Token → Nat
  | [] => 0
  | .openParen :: rest => unopened rest - 1
  | .closeParen :: rest => unopened rest + 1
  | .number _ :: rest | .identifier _ :: rest | .operator _ :: rest | .symbol _ :: rest =>
    unopened rest

theorem foldl_depthAfter (depth : Nat) (tokens : List Token) :
    tokens.foldl depthAfter depth = unclosed tokens + (depth - unopened tokens) := by
  induction tokens generalizing depth with
  | nil => simp [unclosed, unopened]
  | cons token rest ih =>
      rw [List.foldl_cons, unclosed, List.foldl_cons, ih, ih (depthAfter 0 token)]
      cases token <;> simp only [depthAfter, unopened] <;> omega

theorem unclosed_cons (token : Token) (rest : List Token) :
    unclosed (token :: rest) = unclosed rest + (depthAfter 0 token - unopened rest) :=
  foldl_depthAfter _ rest

theorem unclosed_append_singleton (front : List Token) (token : Token) :
    unclosed (front ++ [token]) = depthAfter (unclosed front) token := by
  rw [unclosed, List.foldl_append]
  rfl

theorem unclosed_append (front back : List Token) :
    unclosed (front ++ back) = unclosed back + (unclosed front - unopened back) := by
  rw [unclosed, List.foldl_append, foldl_depthAfter, ← unclosed]

theorem unopened_append (front back : List Token) :
    unopened (front ++ back) = unopened front + (unopened back - unclosed front) := by
  induction front with
  | nil => simp [unopened, unclosed]
  | cons token rest ih =>
      cases token <;> simp only [List.cons_append, unopened, unclosed_cons, ih, depthAfter] <;> omega

theorem balancedTokens_iff {depth : Nat} {tokens : List Token} :
    balancedTokens depth tokens = true ↔ unopened tokens = depth ∧ unclosed tokens = 0 := by
  have hscan : balancedTokens depth tokens = true ↔
      unopened tokens ≤ depth ∧ tokens.foldl depthAfter depth = 0 := by
    induction tokens generalizing depth with
    | nil => simp [balancedTokens, unopened]
    | cons token rest ih =>
        rw [balancedTokens_cons_iff, ih, List.foldl_cons, ← and_assoc]
        apply and_congr_left'
        cases token with
        | openParen => simp [unopened, depthAfter]
        | closeParen =>
            simp [unopened, depthAfter]
            omega
        | number | identifier | operator | symbol => simp [unopened, depthAfter]
  rw [hscan, foldl_depthAfter]
  omega

/-- A closing parenthesis right behind these tokens finds the one it closes among them. -/
def Closes (front : List Token) : Prop :=
  ∃ outer inner, front = outer ++ .openParen :: inner ∧ balancedTokens 0 inner = true

def IsClosedIn (back : List Token) : Prop :=
  ∃ inner later, back = inner ++ .closeParen :: later ∧ balancedTokens 0 inner = true

/-- The text in front is searched backwards. What has been passed opens nothing that it does not
close, and the first opening parenthesis for which it closes no more is the one that matches. -/
theorem closes_append {front passed : List Token} (hpassed : unclosed passed = 0)
    (h : unopened passed < unclosed front) : Closes (front ++ passed) := by
  induction front using List.reverseRecOn generalizing passed with
  | nil => cases h
  | append_singleton front token ih =>
      rw [unclosed_append_singleton] at h
      rw [List.append_assoc, List.singleton_append]
      cases token with
      | openParen =>
          by_cases hopened : unopened passed = 0
          · exact ⟨front, passed, rfl, balancedTokens_iff.mpr ⟨hopened, hpassed⟩⟩
          · rw [depthAfter] at h
            refine ih ?_ ?_
            · rw [unclosed_cons, hpassed, depthAfter]
              omega
            · rw [unopened]
              omega
      | closeParen => exact ih (by simp [unclosed_cons, hpassed, depthAfter]) (Nat.add_lt_of_lt_sub h)
      | number | identifier | operator | symbol => exact ih hpassed h

theorem closes_iff (front : List Token) : Closes front ↔ 0 < unclosed front := by
  constructor
  · rintro ⟨outer, inner, rfl, hinner⟩
    obtain ⟨hopened, -⟩ := balancedTokens_iff.mp hinner
    rw [unclosed_append, unclosed_cons, hopened, depthAfter]
    omega
  · intro h
    have hclosed := closes_append (rfl : unclosed [] = 0) h
    rwa [List.append_nil] at hclosed

theorem isClosedIn_append {passed back : List Token} (hpassed : unopened passed = 0)
    (h : unclosed passed < unopened back) : IsClosedIn (passed ++ back) := by
  induction back generalizing passed with
  | nil => cases h
  | cons token rest ih =>
      rw [← List.singleton_append, ← List.append_assoc]
      cases token with
      | openParen =>
          refine ih ?_ ?_
          · rw [unopened_append, hpassed, unopened, unopened]
            omega
          · rw [unclosed_append_singleton, depthAfter]
            exact Nat.add_lt_of_lt_sub h
      | closeParen =>
          by_cases hclosed : unclosed passed = 0
          · exact ⟨passed, rest, by simp, balancedTokens_iff.mpr ⟨hpassed, hclosed⟩⟩
          · rw [unopened] at h
            refine ih ?_ ?_
            · rw [unopened_append, hpassed, unopened, unopened]
              omega
            · rw [unclosed_append_singleton, depthAfter]
              omega
      | number | identifier | operator | symbol =>
          refine ih ?_ ?_
          · rw [unopened_append, hpassed, unopened, unopened, Nat.zero_sub]
          · rw [unclosed_append_singleton]
            exact h

theorem isClosedIn_iff (back : List Token) : IsClosedIn back ↔ 0 < unopened back := by
  constructor
  · rintro ⟨inner, later, rfl, hinner⟩
    obtain ⟨-, hclosed⟩ := balancedTokens_iff.mp hinner
    rw [unopened_append, hclosed, unopened]
    omega
  · exact isClosedIn_append (rfl : unopened [] = 0)

instance (front : List Token) : Decidable (Closes front) := decidable_of_iff _ (closes_iff front).symm

instance (back : List Token) : Decidable (IsClosedIn back) :=
  decidable_of_iff _ (isClosedIn_iff back).symm

structure Cut where
  front : List Token
  token : Token
  back : List Token

def cuts (front : List Token) : List Token → List Cut
  | [] => []
  | token :: rest => ⟨front, token, rest⟩ :: cuts (front ++ [token]) rest

def strayCloses (tokens : List Token) : Nat :=
  (cuts [] tokens).countP fun cut => cut.token = .closeParen ∧ ¬ Closes cut.front

def leftoverOpens (tokens : List Token) : Nat :=
  (cuts [] tokens).countP fun cut => cut.token = .openParen ∧ ¬ IsClosedIn cut.back

theorem strayCloses_eq (tokens : List Token) : strayCloses tokens = unopened tokens := by
  have hcount (front : List Token) :
      (cuts front tokens).countP (fun cut => cut.token = .closeParen ∧ ¬ Closes cut.front) =
        unopened tokens - unclosed front := by
    induction tokens generalizing front with
    | nil => simp [cuts, unopened]
    | cons token rest ih =>
        rw [cuts, List.countP_cons, ih, unclosed_append_singleton]
        cases token with
        | closeParen =>
            simp only [unopened, depthAfter, closes_iff]
            grind
        | openParen =>
            simp [unopened, depthAfter]
            omega
        | number | identifier | operator | symbol => simp [unopened, depthAfter]
  exact hcount []

theorem leftoverOpens_eq (tokens : List Token) : leftoverOpens tokens = unclosed tokens := by
  have hcount (front : List Token) :
      (cuts front tokens).countP (fun cut => cut.token = .openParen ∧ ¬ IsClosedIn cut.back) =
        unclosed tokens := by
    induction tokens generalizing front with
    | nil => rfl
    | cons token rest ih =>
        rw [cuts, List.countP_cons, ih, unclosed_cons]
        cases token with
        | openParen =>
            simp only [depthAfter, isClosedIn_iff]
            grind
        | number | identifier | operator | symbol | closeParen => simp [depthAfter]
  exact hcount []

end DeskCalculator.Parentheses
