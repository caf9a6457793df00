import DeskCalculator.Proofs.FaultOrder

namespace DeskCalculator

def Fault.FromText (fault : Fault) : Prop :=
  fault = .unbalancedParentheses ∨ (∃ c index, fault = .unknownCharacter c index) ∨
    ∃ c, fault = .unsupportedOperator c

theorem Fault.FromText.not_fromRun {fault : Fault} (h : fault.FromText) : ¬ fault.FromRun := by
  rcases h with rfl | ⟨c, index, rfl⟩ | ⟨c, rfl⟩ <;> simp [FromRun]

namespace Expression

open Token

variable {text : String} {tokens : List Token} {fault : Fault}

theorem toPostfix_fault (h : toPostfix text = .error fault) : fault.FromText := by
  rw [toPostfix, convert] at h
  split at h
  case isFalse => exact .inl (Except.error.inj h).symm
  case isTrue =>
    rcases Fault.bind_eq_error_iff.mp h with htokens | ⟨tokens, -, horder⟩
    · rw [tokenize] at htokens
      split at htokens
      next c index _ => exact .inr (.inl ⟨c, index, (Except.error.inj htokens).symm⟩)
      next => cases htokens
    · rw [Postfix.ofInfix] at horder
      split at horder
      next c _ => exact .inr (.inr ⟨c, (Except.error.inj horder).symm⟩)
      next => cases horder

theorem isCarried_of_toPostfix (h : toPostfix text = .ok tokens) :
    ∀ token ∈ tokens, token.isCarried = true := by
  obtain ⟨infixTokens, -, horder⟩ := exists_tokens_of_toPostfix h
  exact Postfix.isCarried_of_ofInfix horder

theorem evaluate_of_toPostfix_ok (hblank : Blank.trim text ≠ "") (h : toPostfix text = .ok tokens)
    (store : Store) : evaluate store text = Postfix.evaluate store tokens := by
  rw [evaluate_of_not_blank hblank, h]
  rfl

theorem toPostfix_eq_error_iff (hblank : Blank.trim text ≠ "") (store : Store) :
    toPostfix text = .error fault ↔ evaluate store text = .error fault ∧ fault.FromText := by
  constructor
  · intro h
    have heval := evaluate_of_toPostfix_error (mt trimmed_eq_nil_iff.mp hblank) h store
    exact ⟨heval, toPostfix_fault h⟩
  · rintro ⟨heval, hkind⟩
    cases hpostfix : toPostfix text with
    | error found =>
        have hfound := evaluate_of_toPostfix_error (mt trimmed_eq_nil_iff.mp hblank) hpostfix store
        rw [Except.error.inj (hfound.symm.trans heval)]
    | ok tokens =>
        rw [evaluate_of_toPostfix_ok hblank hpostfix] at heval
        have hrun := Postfix.evaluate_fault (isCarried_of_toPostfix hpostfix) heval
        exact absurd hrun hkind.not_fromRun

theorem tokenize_render_of_toPostfix (h : toPostfix text = .ok tokens) :
    tokenize (render tokens) = .ok tokens :=
  (tokenize_eq_ok_iff _ _).mpr (lexes_render (isLexical_of_toPostfix h))

/-- What is shown in postfix order is what is evaluated. A text that cannot be shown has the
same fault either way, and one that is shown can be read again and has the value or the
fault of the text. Only a blank text is worth something of its own. -/
theorem evaluate_reread (store : Store) (text : String) :
    (Blank.trim text ≠ "" →
      (∀ fault, toPostfix text = .error fault ↔
        evaluate store text = .error fault ∧ fault.FromText) ∧
      ∀ tokens, toPostfix text = .ok tokens →
        tokenize (render tokens) = .ok tokens ∧
          (tokenize (render tokens) >>= Postfix.evaluate store) = evaluate store text) ∧
    (Blank.trim text = "" →
      toPostfix text = .ok [] ∧ evaluate store text = .ok 0 ∧
        (tokenize (render []) >>= Postfix.evaluate store) = .error .malformedExpression) := by
  constructor
  · intro hblank
    refine ⟨fun fault => toPostfix_eq_error_iff hblank store, fun tokens h => ?_⟩
    have hread := tokenize_render_of_toPostfix h
    refine ⟨hread, ?_⟩
    rw [hread, evaluate_of_toPostfix_ok hblank h]
    rfl
  · intro hblank
    refine ⟨?_, ?_, rfl⟩
    · rw [toPostfix, hblank]
      rfl
    · rw [evaluate, hblank]
      rfl

theorem evaluate_reread_minuses :
    (tokenize "2 -3 x - ^" >>= Postfix.evaluate .empty) = evaluate .empty " 2^(-3-x) " ∧
      evaluate .empty "2 % x" = .error (.unsupportedOperator '%') ∧
      evaluate .empty "\t" = .ok 0 := by
  have hshown := ((evaluate_reread .empty " 2^(-3-x) ").1 (by decide)).2 _ rfl
  have hrefused := ((evaluate_reread .empty "2 % x").1 (by decide)).1 (.unsupportedOperator '%')
  have hblank := (evaluate_reread .empty "\t").2 (by decide)
  exact ⟨hshown.2, (hrefused.mp rfl).1, hblank.2.1⟩

end Expression

end DeskCalculator
