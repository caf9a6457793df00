import DeskCalculator.Proofs.LineKinds
import DeskCalculator.Proofs.Rereading
import DeskCalculator.Proofs.SessionSteps

namespace DeskCalculator

open Token

/-- A postfix form has the characters of an expression, so it takes one line. -/
theorem Expression.newline_not_mem_render {text : String} {tokens : List Token}
    (h : toPostfix text = .ok tokens) : '\n' ∉ (render tokens).toList := by
  intro hmem
  have hallowed := (tokenize_eq_ok_iff_lex.mp (tokenize_render_of_toPostfix h)).1
  cases hallowed '\n' hmem

namespace Session

/-- What a session that shows postfix forms writes for a line before anything else: the form of
a statement that has one, and for any other line nothing. -/
inductive Preamble (line : String) : String → Prop
  | shown {statement : Statement} {tokens : List Token} (stated : Statement.OnLine line statement)
      (converted : Expression.toPostfix statement.expression = .ok tokens) :
      Preamble line (render tokens ++ "\n")
  | none (unconverted : ∀ statement tokens, Statement.OnLine line statement →
      Expression.toPostfix statement.expression ≠ .ok tokens) : Preamble line ""

theorem preamble_postfixText {line : String} {statement : Statement} (store : Store)
    (h : Statement.OnLine line statement) :
    Preamble line (postfixText ⟨true, store⟩ statement.expression) := by
  cases hpostfix : Expression.toPostfix statement.expression with
  | ok tokens =>
      simp only [postfixText, hpostfix, if_true]
      exact .shown h hpostfix
  | error fault =>
      simp only [postfixText, hpostfix, if_true]
      refine .none fun other tokens hother hok => ?_
      rw [← h.unique hother, hpostfix] at hok
      cases hok

theorem handleLine_preamble (store : Store) (line : String) :
    ∃ next flow output preamble,
      (Session.mk false store).handleLine .working line = (⟨false, next⟩, .ok ⟨flow, output⟩) ∧
      (Session.mk true store).handleLine .working line =
        (⟨true, next⟩, .ok ⟨flow, preamble ++ output⟩) ∧
      Preamble line preamble := by
  rcases line_cases line with ⟨command, hcommand⟩ | ⟨hword, invalid, hinvalid⟩ | ⟨statement, hstatement⟩
  · refine ⟨store, _, _, "", handleLine_of_command hcommand .working _, ?_, .none ?_⟩
    · rw [handleLine_of_command hcommand, String.empty_append]
      rfl
    · intro statement _ hstatement
      cases hstatement.ofLine?_eq_none.symm.trans hcommand
  · refine ⟨store, _, _, "", handleLine_of_invalid hword hinvalid .working _, ?_, .none ?_⟩
    · rw [handleLine_of_invalid hword hinvalid, String.empty_append]
      rfl
    · intro statement _ hstatement
      cases hstatement.parsed.symm.trans hinvalid
  · have hhidden : postfixText ⟨false, store⟩ statement.expression = "" := rfl
    refine ⟨store.keep statement.target (Expression.evaluate store statement.expression), .proceed,
      resultText (Expression.evaluate store statement.expression), _, ?_, ?_,
      preamble_postfixText store hstatement⟩
    · rw [handleLine_of_onLine hstatement, handleStatement_working, hhidden, String.empty_append]
    · rw [handleLine_of_onLine hstatement, handleStatement_working]

theorem exists_after_lines (store : Store) (lines : List String) :
    ∃ final, (Session.mk false store).after (lines.map (Input.mk .working)) = ⟨false, final⟩ ∧
      (Session.mk true store).after (lines.map (Input.mk .working)) = ⟨true, final⟩ := by
  induction lines generalizing store with
  | nil => exact ⟨store, rfl, rfl⟩
  | cons line rest ih =>
      obtain ⟨next, flow, output, preamble, hhidden, hshown, -⟩ := handleLine_preamble store line
      obtain ⟨final, hfinal, hfinal'⟩ := ih next
      refine ⟨final, ?_, ?_⟩
      · rw [List.map_cons, after_cons, step, hhidden, hfinal]
      · rw [List.map_cons, after_cons, step, hshown, hfinal']

theorem Preamble.one_line {line text : String} (h : Preamble line text) :
    text = "" ∨ ∃ body, text = body ++ "\n" ∧ '\n' ∉ body.toList := by
  cases h with
  | shown stated converted => exact .inr ⟨_, rfl, Expression.newline_not_mem_render converted⟩
  | none unconverted => exact .inl rfl

/-- Two sessions that are given the same lines, one of which shows postfix forms, always have the
same variables. To each further line they answer the same, but for the one line of the form. -/
theorem handleLine_postfix_shown (lines : List String) :
    ∃ store,
      (new false).after (lines.map (Input.mk .working)) = ⟨false, store⟩ ∧
      (new true).after (lines.map (Input.mk .working)) = ⟨true, store⟩ ∧
      ∀ line, ∃ next flow output preamble,
        (Session.mk false store).handleLine .working line = (⟨false, next⟩, .ok ⟨flow, output⟩) ∧
        (Session.mk true store).handleLine .working line =
          (⟨true, next⟩, .ok ⟨flow, preamble ++ output⟩) ∧
        Preamble line preamble ∧
        (preamble = "" ∨ ∃ body, preamble = body ++ "\n" ∧ '\n' ∉ body.toList) := by
  obtain ⟨store, hhidden, hshown⟩ := exists_after_lines .empty lines
  refine ⟨store, hhidden, hshown, fun line => ?_⟩
  obtain ⟨next, flow, output, preamble, hfalse, htrue, hpreamble⟩ := handleLine_preamble store line
  exact ⟨next, flow, output, preamble, hfalse, htrue, hpreamble, hpreamble.one_line⟩

end Session

end DeskCalculator
