import DeskCalculator.Fault
import DeskCalculator.Postfix.Evaluation
import Mathlib.Data.List.Induction

namespace DeskCalculator.Postfix

/-- The run comes to the token at this place, and has these values on its stack then. -/
structure Meets (store : Store) (tokens : List Token) (place : Nat) (token : Token)
    (values : List Float) : Prop where
  token : tokens[place]? = some token
  values : (tokens.take place).foldlM (step store) [] = .ok values

def RaisedAt (store : Store) (tokens : List Token) (place : Nat) (fault : Fault) : Prop :=
  ∃ token values, Meets store tokens place token values ∧ step store values token = .error fault

/-- An operator has fewer than two values to work on, or the token is a parenthesis. -/
def Stumbles (values : List Float) (token : Token) : Prop :=
  (token.isOperator = true ∧ values.length < 2) ∨ token = .openParen ∨ token = .closeParen

variable {store : Store} {tokens : List Token} {place : Nat} {token : Token} {values : List Float}
  {fault : Fault}

theorem step_eq_malformed_iff :
    step store values token = .error .malformedExpression ↔ Stumbles values token := by
  cases token with
  | number text =>
      refine iff_of_false ?_ (by simp [Stumbles, Token.isOperator])
      cases hread : Numeral.read? text <;> cases hget : store.get? text <;>
        simp [step, numeralValue, namedValue, hread, hget, Except.map]
  | identifier name =>
      refine iff_of_false ?_ (by simp [Stumbles, Token.isOperator])
      cases hget : store.get? name <;> simp [step, namedValue, hget, Except.map]
  | operator op =>
      match values with
      | [] | [_] => simp [step, Stumbles, Token.isOperator]
      | right :: left :: below =>
          refine iff_of_false ?_ (by simp [Stumbles])
          simp only [step, combine]
          split <;> simp [Except.map]
  | symbol character => simp [step, Stumbles, Token.isOperator]
  | openParen | closeParen => simp [step, Stumbles]

theorem Meets.place_lt (h : Meets store tokens place token values) : place < tokens.length :=
  (List.getElem?_eq_some_iff.mp h.token).1

theorem RaisedAt.place_lt (h : RaisedAt store tokens place fault) : place < tokens.length := by
  obtain ⟨token, values, hmeets, -⟩ := h
  exact hmeets.place_lt

theorem meets_append_iff (h : place < tokens.length) (later : List Token) :
    Meets store (tokens ++ later) place token values ↔ Meets store tokens place token values := by
  have htoken : (tokens ++ later)[place]? = tokens[place]? := List.getElem?_append_left h
  have hfront : (tokens ++ later).take place = tokens.take place :=
    List.take_append_of_le_length (Nat.le_of_lt h)
  constructor
  · rintro ⟨ht, hv⟩
    exact ⟨htoken ▸ ht, hfront ▸ hv⟩
  · rintro ⟨ht, hv⟩
    exact ⟨htoken.symm ▸ ht, hfront.symm ▸ hv⟩

theorem raisedAt_append_iff (h : place < tokens.length) (later : List Token) :
    RaisedAt store (tokens ++ later) place fault ↔ RaisedAt store tokens place fault := by
  simp only [RaisedAt, meets_append_iff h]

theorem RaisedAt.foldlM (h : RaisedAt store tokens place fault) :
    tokens.foldlM (step store) [] = .error fault := by
  obtain ⟨token, values, ⟨htoken, hvalues⟩, hstep⟩ := h
  obtain ⟨hplace, rfl⟩ := List.getElem?_eq_some_iff.mp htoken
  rw [← List.take_append_drop place tokens, List.foldlM_append, hvalues, List.drop_eq_getElem_cons hplace]
  simp only [List.foldlM_cons, bind, Except.bind, hstep]

theorem exists_raisedAt (h : tokens.foldlM (step store) [] = .error fault) :
    ∃ place, RaisedAt store tokens place fault := by
  induction tokens using List.reverseRecOn with
  | nil => cases h
  | append_singleton front token ih =>
      rw [List.foldlM_append] at h
      rcases Fault.bind_eq_error_iff.mp h with hfront | ⟨values, hfront, hlast⟩
      · obtain ⟨place, hraised⟩ := ih hfront
        exact ⟨place, (raisedAt_append_iff hraised.place_lt [token]).mpr hraised⟩
      · have hmeets : Meets store (front ++ [token]) front.length token values :=
          ⟨List.getElem?_concat_length, List.take_left.symm ▸ hfront⟩
        rw [List.foldlM_cons] at hlast
        rcases Fault.bind_eq_error_iff.mp hlast with hstep | ⟨after, -, hnil⟩
        · exact ⟨front.length, token, values, hmeets, hstep⟩
        · cases hnil

theorem RaisedAt.evaluate (h : RaisedAt store tokens place fault) :
    evaluate store tokens = .error fault := by
  rw [Postfix.evaluate, h.foldlM]
  rfl

/-- Tokens raise every fault but one: that a run has not left a single value is found behind all of them. -/
theorem evaluate_eq_error_iff (hfault : fault ≠ .malformedExpression) :
    evaluate store tokens = .error fault ↔ ∃ place, RaisedAt store tokens place fault := by
  constructor
  · intro h
    rcases Fault.bind_eq_error_iff.mp h with hrun | ⟨values, -, hlast⟩
    · exact exists_raisedAt hrun
    · match values with
      | [_] => cases hlast
      | [] | _ :: _ :: _ => exact absurd (Except.error.inj hlast).symm hfault
  · rintro ⟨place, h⟩
    exact h.evaluate

theorem Meets.raisedAt (h : Meets store tokens place token values) (hstumbles : Stumbles values token) :
    RaisedAt store tokens place .malformedExpression :=
  ⟨token, values, h, step_eq_malformed_iff.mpr hstumbles⟩

/-- The first fault wins. What a token raises is final, whatever comes behind it: a name without a
value, a division by zero, a symbol, and an operator without operands or a parenthesis too. Only a
run that ends without one value can still become a good one. -/
theorem evaluate_append_fault (store : Store) (tokens later : List Token) :
    (∀ fault, fault ≠ .malformedExpression →
      evaluate store tokens = .error fault → evaluate store (tokens ++ later) = .error fault) ∧
    (∀ place token values, Meets store tokens place token values → Stumbles values token →
      evaluate store tokens = .error .malformedExpression ∧
      evaluate store (tokens ++ later) = .error .malformedExpression) ∧
    (∀ fault, fault ≠ .malformedExpression → evaluate store (tokens ++ later) = .error fault →
      ∃ place, RaisedAt store (tokens ++ later) place fault) ∧
    ∀ place fault, RaisedAt store (tokens ++ later) place fault → place < tokens.length →
      evaluate store tokens = .error fault := by
  refine ⟨fun fault hfault h => ?_, fun place token values hmeets hstumbles => ?_,
    fun fault hfault => (evaluate_eq_error_iff hfault).mp, fun place fault h hplace => ?_⟩
  · obtain ⟨place, hraised⟩ := (evaluate_eq_error_iff hfault).mp h
    exact ((raisedAt_append_iff hraised.place_lt later).mpr hraised).evaluate
  · have hraised := hmeets.raisedAt hstumbles
    exact ⟨hraised.evaluate, ((raisedAt_append_iff hmeets.place_lt later).mpr hraised).evaluate⟩
  · exact ((raisedAt_append_iff hplace later).mp h).evaluate

theorem evaluate_append_fault_cut_short :
    evaluate .empty ([.number "1", .number "0", .operator .divide] ++ [.identifier "y", .operator .add]) =
        .error .divisionByZero ∧
      evaluate .empty ([.number "1", .operator .add] ++ [.number "2"]) = .error .malformedExpression ∧
      (∃ place, RaisedAt .empty ([.number "1", .identifier "x"] ++ [.symbol '%']) place
        (.unknownVariable "x")) ∧
      evaluate .empty [.number "1", .identifier "x"] = .error (.unknownVariable "x") := by
  refine ⟨?_, ?_, ?_, ?_⟩
  · exact (evaluate_append_fault .empty _ _).1 _ (by decide) (by decide +kernel)
  · have hmeets : Meets .empty [.number "1", .operator .add] 1 (.operator .add) [1] :=
      ⟨rfl, by decide +kernel⟩
    exact ((evaluate_append_fault .empty _ _).2.1 1 _ _ hmeets (.inl ⟨rfl, by decide⟩)).2
  · exact (evaluate_append_fault .empty _ _).2.2.1 _ (by decide) (by decide +kernel)
  · have hmeets : Meets .empty ([.number "1", .identifier "x"] ++ [.symbol '%']) 1 (.identifier "x") [1] :=
      ⟨rfl, by decide +kernel⟩
    exact (evaluate_append_fault .empty _ [.symbol '%']).2.2.2 1 _ ⟨_, _, hmeets, rfl⟩ (by decide)

example : evaluate .empty [.number "1", .number "2"] = .error .malformedExpression ∧
    evaluate .empty [.number "1", .number "2", .operator .add] = .ok 3 := by decide +kernel

end DeskCalculator.Postfix
