import DeskCalculator.Session
import DeskCalculator.Proofs.Blanks
import DeskCalculator.Proofs.LineForms
import DeskCalculator.Proofs.Trimming

namespace DeskCalculator

namespace Statement

/-- The blanks around a line lie in its target or in its expression, which are trimmed anyway. -/
theorem ofLine_trim (line : String) : ofLine (Blank.trim line) = ofLine line := by
  by_cases hsign : '=' ∈ line.toList
  · obtain ⟨target, expression, hline, htarget⟩ := List.eq_append_cons_of_mem hsign
    have hkept : '=' ∉ Blank.trimLeft target :=
      fun h => htarget ((List.dropWhile_suffix Blank.isBlank).subset h)
    rw [ofLine_of_sign hline htarget, ofLine_of_sign (Blank.toList_trim_of_mid rfl hline) hkept,
      Blank.trim_ofList_trimLeft, Blank.trim_ofList_trimRight]
  · rw [ofLine_of_no_sign hsign, ofLine_of_no_sign (mt Blank.mem_of_mem_trim hsign), Blank.trim_trim]

structure OnLine (line : String) (statement : Statement) : Prop where
  notCommand : Command.firstWord (Blank.trim line) ∉ Command.words
  parsed : ofLine (Blank.trim line) = .ok statement

theorem OnLine.ofLine?_eq_none {line : String} {statement : Statement} (h : OnLine line statement) :
    Command.ofLine? (Blank.trim line) = none :=
  Command.ofLine?_eq_none_iff.mpr h.notCommand

theorem OnLine.unique {line : String} {statement other : Statement} (h : OnLine line statement)
    (h' : OnLine line other) : statement = other :=
  Except.ok.inj (h.parsed.symm.trans h'.parsed)

theorem onLine_of_no_sign {line : String} (hword : Command.firstWord (Blank.trim line) ∉ Command.words)
    (hsign : '=' ∉ line.toList) : OnLine line ⟨defaultTarget, Blank.trim line⟩ :=
  ⟨hword, by rw [ofLine_trim, ofLine_of_no_sign hsign]⟩

end Statement

namespace Command

theorem output_of_arguments {given : List String} (h : given ≠ []) (command : Command) (word : String)
    (store : Store) :
    command.output word given store = "Error: command '" ++ word ++ "' has no arguments.\n" := by
  have hgiven : (!given.isEmpty) = true := by simpa using h
  exact if_pos hgiven

theorem flow_of_arguments {given : List String} (h : given ≠ []) (command : Command) :
    command.flow given = .proceed := by
  simp [flow, h]

/-- The words of the commands have no equals sign in them, so there is one more word behind. -/
theorem arguments_ne_nil_of_sign {line : String} (hword : firstWord line ∈ words)
    (hsign : '=' ∈ line.toList) : arguments line ≠ [] := by
  intro hnil
  rw [firstWord_of_no_space (arguments_eq_nil_iff.mp hnil)] at hword
  exact sign_not_mem_of_mem_words hword hsign

end Command

namespace Session

variable {line : String} {command : Command} {statement : Statement}

theorem line_cases (line : String) :
    (∃ command, Command.ofLine? (Blank.trim line) = some command) ∨
    (Command.firstWord (Blank.trim line) ∉ Command.words ∧
      ∃ invalid, Statement.ofLine (Blank.trim line) = .error invalid) ∨
    ∃ statement, Statement.OnLine line statement := by
  cases hcommand : Command.ofLine? (Blank.trim line) with
  | some command => exact .inl ⟨command, rfl⟩
  | none =>
      have hword := Command.ofLine?_eq_none_iff.mp hcommand
      cases hparsed : Statement.ofLine (Blank.trim line) with
      | error invalid => exact .inr (.inl ⟨hword, invalid, rfl⟩)
      | ok statement => exact .inr (.inr ⟨statement, hword, hparsed⟩)

theorem handleLine_of_command (h : Command.ofLine? (Blank.trim line) = some command)
    (writer : Writer) (session : Session) :
    session.handleLine writer line = (session, session.handleCommand writer command (Blank.trim line)) := by
  simp only [handleLine, h]

theorem handleLine_of_arguments (hword : Command.firstWord (Blank.trim line) ∈ Command.words)
    (hgiven : Command.arguments (Blank.trim line) ≠ []) (writer : Writer) (session : Session) :
    session.handleLine writer line =
      (session, (writer.write .commandOutput ("Error: command '" ++
        Command.firstWord (Blank.trim line) ++ "' has no arguments.\n")).map (Reply.mk .proceed)) := by
  obtain ⟨command, hcommand⟩ := Command.exists_of_firstWord hword
  rw [handleLine_of_command hcommand, handleCommand, Command.output_of_arguments hgiven,
    Command.flow_of_arguments hgiven]

theorem handleLine_of_invalid {invalid : InvalidTarget}
    (hword : Command.firstWord (Blank.trim line) ∉ Command.words)
    (h : Statement.ofLine (Blank.trim line) = .error invalid) (writer : Writer) (session : Session) :
    session.handleLine writer line =
      (session, (writer.write .error (errorText invalid.message)).map (Reply.mk .proceed)) := by
  simp only [handleLine, Command.ofLine?_eq_none_iff.mpr hword, h]

theorem handleLine_of_onLine (h : Statement.OnLine line statement) (writer : Writer) (session : Session) :
    session.handleLine writer line = session.handleStatement writer statement := by
  simp only [handleLine, h.ofLine?_eq_none, h.parsed]

theorem handleStatement_working (session : Session) (statement : Statement) :
    session.handleStatement .working statement =
      ({ session with
          store := session.store.keep statement.target
            (Expression.evaluate session.store statement.expression) },
        .ok ⟨.proceed, session.postfixText statement.expression ++
          resultText (Expression.evaluate session.store statement.expression)⟩) :=
  rfl

end Session

end DeskCalculator
