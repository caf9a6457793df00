import DeskCalculator.Proofs.LineKinds
import DeskCalculator.Proofs.SessionSteps

namespace DeskCalculator

theorem Writer.write_broken (stage : Stage) {text : String} (h : text ≠ "") :
    Writer.broken.write stage text = .error stage := by
  have hempty : ¬ text.isEmpty = true := mt String.isEmpty_iff.mp h
  exact if_neg hempty

theorem Command.output_eq_empty_iff (command : Command) (word : String) (given : List String)
    (store : Store) : command.output word given store = "" ↔ command.flow given = .exit := by
  by_cases hgiven : given = []
  · subst hgiven
    cases command with
    | exit => exact iff_of_true rfl rfl
    | vars => simp [output, flow, storeText]
    | help => simp [output, flow, helpText]
    | version => simp [output, flow]
  · simp [output_of_arguments hgiven, flow_of_arguments hgiven]

namespace Session

variable {line : String} {statement : Statement}

theorem errorText_ne_empty (message : String) : errorText message ≠ "" := by
  simp [errorText]

theorem resultText_ne_empty (result : Except Fault Float) : resultText result ≠ "" := by
  cases result with
  | ok value => simp [resultText]
  | error fault => exact errorText_ne_empty fault.message

theorem postfixText_eq_empty_iff {session : Session} {expression : String} :
    session.postfixText expression = "" ↔
      ¬ (session.showPostfix = true ∧ ∃ tokens, Expression.toPostfix expression = .ok tokens) := by
  cases hshow : session.showPostfix with
  | false => simp [postfixText, hshow]
  | true =>
      cases hpostfix : Expression.toPostfix expression with
      | ok tokens => simp [postfixText, hshow, hpostfix]
      | error fault => simp [postfixText, hshow, hpostfix]

/-- When the session is given the line and nothing can be written, it is left like this, and the
failure is told with this context. -/
def FailsToWrite (session : Session) (line : String) (left : Session) (context : String) : Prop :=
  ∃ stage, session.handleLine .broken line = (left, .error stage) ∧ stage.message = context

theorem handleCommand_broken (session : Session) (command : Command) (line : String) :
    session.handleCommand .broken command line =
      if command.flow (Command.arguments line) = .exit then .ok ⟨.exit, ""⟩
      else .error .commandOutput := by
  by_cases hflow : command.flow (Command.arguments line) = .exit
  · have hempty := (command.output_eq_empty_iff (Command.firstWord line) _ session.store).mpr hflow
    rw [if_pos hflow, handleCommand, hempty, hflow]
    rfl
  · have houtput := mt (command.output_eq_empty_iff (Command.firstWord line) _ session.store).mp hflow
    rw [if_neg hflow, handleCommand, Writer.write_broken _ houtput]
    rfl

theorem handleLine_broken_exit (session : Session)
    (h : Blank.trim line = "exit" ∨ Blank.trim line = "quit") :
    session.handleLine .broken line = (session, .ok ⟨.exit, ""⟩) := by
  obtain ⟨command, hcommand⟩ := Command.exists_of_firstWord (Command.firstWord_mem_words_of_exit h)
  rw [handleLine_of_command hcommand, handleCommand_broken, if_pos ((Command.exits_iff hcommand).mpr h)]

theorem failsToWrite_command (session : Session)
    (hword : Command.firstWord (Blank.trim line) ∈ Command.words)
    (hexit : ¬ (Blank.trim line = "exit" ∨ Blank.trim line = "quit")) :
    session.FailsToWrite line session "failed to write command output" := by
  obtain ⟨command, hcommand⟩ := Command.exists_of_firstWord hword
  refine ⟨.commandOutput, ?_, rfl⟩
  rw [handleLine_of_command hcommand, handleCommand_broken,
    if_neg (mt (Command.exits_iff hcommand).mp hexit)]

theorem failsToWrite_invalid (session : Session) {invalid : InvalidTarget}
    (hword : Command.firstWord (Blank.trim line) ∉ Command.words)
    (h : Statement.ofLine (Blank.trim line) = .error invalid) :
    session.FailsToWrite line session "failed to write error" := by
  refine ⟨.error, ?_, rfl⟩
  rw [handleLine_of_invalid hword h, Writer.write_broken _ (errorText_ne_empty _)]
  rfl

theorem failsToWrite_postfixText {session : Session} (h : Statement.OnLine line statement)
    (hshown : session.showPostfix = true ∧
      ∃ tokens, Expression.toPostfix statement.expression = .ok tokens) :
    session.FailsToWrite line session "failed to write postfix expression" := by
  have htext : session.postfixText statement.expression ≠ "" :=
    fun hempty => postfixText_eq_empty_iff.mp hempty hshown
  refine ⟨.postfixExpression, ?_, rfl⟩
  rw [handleLine_of_onLine h, handleStatement, Writer.write_broken _ htext]

/-- The value is stored before it is written, so it is kept as it would have been. -/
theorem failsToWrite_result {session : Session} (h : Statement.OnLine line statement)
    (hshown : ¬ (session.showPostfix = true ∧
      ∃ tokens, Expression.toPostfix statement.expression = .ok tokens)) :
    session.FailsToWrite line (session.handleLine .working line).1 "failed to write result" := by
  have htext := postfixText_eq_empty_iff.mpr hshown
  refine ⟨.result, ?_, rfl⟩
  have hwritten : Writer.broken.write .postfixExpression "" = .ok "" := rfl
  simp only [handleLine_of_onLine h, handleStatement, htext, hwritten,
    Writer.write_broken .result (resultText_ne_empty _)]
  rfl

theorem handleLine_broken_eq_ok_iff (session : Session) (line : String) :
    (∃ reply, (session.handleLine .broken line).2 = .ok reply) ↔
      Blank.trim line = "exit" ∨ Blank.trim line = "quit" := by
  refine ⟨fun ⟨reply, hreply⟩ => ?_, fun h => ⟨_, congrArg Prod.snd (handleLine_broken_exit session h)⟩⟩
  by_contra hexit
  have hfails : ∃ left context, session.FailsToWrite line left context := by
    by_cases hword : Command.firstWord (Blank.trim line) ∈ Command.words
    · exact ⟨_, _, failsToWrite_command session hword hexit⟩
    · cases hparsed : Statement.ofLine (Blank.trim line) with
      | error invalid => exact ⟨_, _, failsToWrite_invalid session hword hparsed⟩
      | ok statement =>
          by_cases hshown : session.showPostfix = true ∧
              ∃ tokens, Expression.toPostfix statement.expression = .ok tokens
          · exact ⟨_, _, failsToWrite_postfixText ⟨hword, hparsed⟩ hshown⟩
          · exact ⟨_, _, failsToWrite_result ⟨hword, hparsed⟩ hshown⟩
  obtain ⟨left, context, stage, hstage, -⟩ := hfails
  rw [hstage] at hreply
  cases hreply

/-- What a session does with a line when nothing can be written. Only the bare words that end it
get through. Otherwise the failure says what was to be written, and no variable is changed unless
it was the result. -/
theorem handleLine_broken (session : Session) (line : String) :
    ((∃ reply, (session.handleLine .broken line).2 = .ok reply) ↔
      Blank.trim line = "exit" ∨ Blank.trim line = "quit") ∧
    (Blank.trim line = "exit" ∨ Blank.trim line = "quit" →
      session.handleLine .broken line = (session, .ok ⟨.exit, ""⟩)) ∧
    (Command.firstWord (Blank.trim line) ∈ Command.words →
      ¬ (Blank.trim line = "exit" ∨ Blank.trim line = "quit") →
      session.FailsToWrite line session "failed to write command output") ∧
    (∀ invalid, Command.firstWord (Blank.trim line) ∉ Command.words →
      Statement.ofLine (Blank.trim line) = .error invalid →
      session.FailsToWrite line session "failed to write error") ∧
    ∀ statement, Statement.OnLine line statement →
      (session.showPostfix = true ∧
          (∃ tokens, Expression.toPostfix statement.expression = .ok tokens) →
        session.FailsToWrite line session "failed to write postfix expression") ∧
      (¬ (session.showPostfix = true ∧
          ∃ tokens, Expression.toPostfix statement.expression = .ok tokens) →
        session.FailsToWrite line (session.handleLine .working line).1 "failed to write result") :=
  ⟨handleLine_broken_eq_ok_iff session line, handleLine_broken_exit session,
    failsToWrite_command session, fun _ => failsToWrite_invalid session,
    fun _ h => ⟨failsToWrite_postfixText h, failsToWrite_result h⟩⟩

theorem handleLine_broken_stages :
    (new true).handleLine .broken " quit\n" = (new true, .ok ⟨.exit, ""⟩) ∧
      (new true).FailsToWrite "quit now" (new true) "failed to write command output" ∧
      (new true).FailsToWrite "x1 = 3" (new true) "failed to write error" ∧
      (new true).FailsToWrite "x = 1 / 0" (new true) "failed to write postfix expression" ∧
      (new true).FailsToWrite "x = #" (new true) "failed to write result" ∧
      (new false).FailsToWrite "x = 2 * 3" ⟨false, Store.empty.insert "x" 6⟩
        "failed to write result" := by
  have hquotient : Statement.OnLine "x = 1 / 0" ⟨"x", "1 / 0"⟩ := ⟨by decide, rfl⟩
  have hforeign : Statement.OnLine "x = #" ⟨"x", "#"⟩ := ⟨by decide, rfl⟩
  have hproduct : Statement.OnLine "x = 2 * 3" ⟨"x", "2 * 3"⟩ := ⟨by decide, rfl⟩
  have hrefused : ¬ ((new true).showPostfix = true ∧
      ∃ tokens, Expression.toPostfix "#" = .ok tokens) := by
    rintro ⟨-, tokens, htokens⟩
    cases htokens
  have hvalue : Expression.evaluate (new false).store "2 * 3" = .ok 6 := by decide +kernel
  have hresult := ((handleLine_broken (new false) "x = 2 * 3").2.2.2.2 _ hproduct).2 (by simp [new])
  rw [handleLine_of_onLine hproduct, handleStatement_working, hvalue] at hresult
  exact ⟨(handleLine_broken (new true) " quit\n").2.1 (by decide),
    (handleLine_broken (new true) "quit now").2.2.1 (by decide) (by decide),
    (handleLine_broken (new true) "x1 = 3").2.2.2.1 ⟨"x1"⟩ (by decide) rfl,
    ((handleLine_broken (new true) "x = 1 / 0").2.2.2.2 _ hquotient).1 ⟨rfl, _, rfl⟩,
    ((handleLine_broken (new true) "x = #").2.2.2.2 _ hforeign).2 hrefused,
    hresult⟩

end Session

end DeskCalculator
