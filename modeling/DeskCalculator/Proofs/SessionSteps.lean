import DeskCalculator.Proofs.LineKinds
import DeskCalculator.Proofs.Passes
import Mathlib.Data.List.Basic

namespace DeskCalculator

namespace Expression

open Token

theorem tokenize_of_evaluate_ok {store : Store} {text : String} {value : Float}
    (h : evaluate store text = .ok value) : ∃ tokens, tokenize (Blank.trim text) = .ok tokens := by
  by_cases hblank : Blank.trim text = ""
  · exact ⟨[], by rw [hblank]; rfl⟩
  · obtain ⟨tree, htree, -⟩ := (evaluate_eq_ok_iff hblank).mp h
    obtain ⟨tokens, htokens, -⟩ := exists_tokens_of_toPostfix htree
    exact ⟨tokens, htokens⟩

end Expression

namespace Session

structure Input where
  writer : Writer
  line : String
  deriving DecidableEq, Repr

def step (session : Session) (input : Input) : Session := (session.handleLine input.writer input.line).1

def after (session : Session) (inputs : List Input) : Session := inputs.foldl step session

/-- The line is a statement for this name, and its expression has this value in the session.
It is not evaluated unless its postfix form has been written, where that is shown. -/
structure Assigns (session : Session) (input : Input) (name : String) (value : Float) : Prop where
  notCommand : Command.firstWord (Blank.trim input.line) ∉ Command.words
  evaluated : ∃ expression, Statement.ofLine (Blank.trim input.line) = .ok ⟨name, expression⟩ ∧
    (input.writer = .working ∨ session.postfixText expression = "") ∧
    Expression.evaluate session.store expression = .ok value

def LastAssigned (session : Session) (inputs : List Input) (name : String) (value : Float) : Prop :=
  ∃ front input back, inputs = front ++ input :: back ∧
    (session.after front).Assigns input name value ∧
    ∀ mid other rest, back = mid ++ other :: rest →
      ∀ later, ¬ (session.after (front ++ input :: mid)).Assigns other name later

variable {session : Session} {input : Input} {inputs : List Input} {name : String} {value : Float}

theorem Assigns.unique {other : String} {found : Float} (h : session.Assigns input name value)
    (h' : session.Assigns input other found) : name = other ∧ value = found := by
  obtain ⟨expression, hparsed, -, hvalue⟩ := h.evaluated
  obtain ⟨expression', hparsed', -, hvalue'⟩ := h'.evaluated
  rw [hparsed] at hparsed'
  cases hparsed'
  rw [hvalue] at hvalue'
  exact ⟨rfl, Except.ok.inj hvalue'⟩

theorem write_eq_ok_iff (stage : Stage) {writer : Writer} {text : String} :
    (∃ written, writer.write stage text = .ok written) ↔ writer = .working ∨ text = "" := by
  cases writer with
  | working => simp [Writer.write]
  | broken => by_cases h : text = "" <;> simp [Writer.write, h]

theorem step_of_assigns (h : session.Assigns input name value) :
    session.step input = { session with store := session.store.insert name value } := by
  obtain ⟨expression, hparsed, hwriter, hvalue⟩ := h.evaluated
  obtain ⟨written, hwritten⟩ := (write_eq_ok_iff .postfixExpression).mpr hwriter
  simp only [step, handleLine, Command.ofLine?_eq_none_iff.mpr h.notCommand, hparsed, handleStatement,
    hwritten, hvalue, Store.keep]

theorem step_of_not_assigns (h : ∀ name value, ¬ session.Assigns input name value) :
    session.step input = session := by
  rcases line_cases input.line with
    ⟨command, hcommand⟩ | ⟨hword, invalid, hinvalid⟩ | ⟨statement, hstatement⟩
  · rw [step, handleLine_of_command hcommand]
  · rw [step, handleLine_of_invalid hword hinvalid]
  · rw [step, handleLine_of_onLine hstatement, handleStatement]
    split
    next => rfl
    next written hwritten =>
      cases hvalue : Expression.evaluate session.store statement.expression with
      | error fault => rfl
      | ok value =>
          have hwriter := (write_eq_ok_iff _).mp ⟨written, hwritten⟩
          exact absurd ⟨hstatement.notCommand, _, hstatement.parsed, hwriter, hvalue⟩
            (h statement.target value)

theorem step_cases (session : Session) (input : Input) :
    (∃ name value, session.Assigns input name value ∧
      session.step input = { session with store := session.store.insert name value }) ∨
    ((∀ name value, ¬ session.Assigns input name value) ∧ session.step input = session) := by
  by_cases h : ∃ name value, session.Assigns input name value
  · obtain ⟨name, value, hassigns⟩ := h
    exact .inl ⟨name, value, hassigns, step_of_assigns hassigns⟩
  · have hnone : ∀ name value, ¬ session.Assigns input name value :=
      fun name value hassigns => h ⟨name, value, hassigns⟩
    exact .inr ⟨hnone, step_of_not_assigns hnone⟩

theorem step_of_command (h : Command.firstWord (Blank.trim input.line) ∈ Command.words) :
    session.step input = session :=
  step_of_not_assigns fun _ _ hassigns => hassigns.notCommand h

theorem step_of_no_value
    (h : ∀ statement value, Statement.ofLine (Blank.trim input.line) = .ok statement →
      Expression.evaluate session.store statement.expression ≠ .ok value) :
    session.step input = session := by
  apply step_of_not_assigns
  intro name value hassigns
  obtain ⟨expression, hparsed, -, hvalue⟩ := hassigns.evaluated
  exact h _ value hparsed hvalue

theorem step_of_invalid {invalid : InvalidTarget}
    (h : Statement.ofLine (Blank.trim input.line) = .error invalid) : session.step input = session := by
  apply step_of_no_value
  intro statement value hparsed
  rw [h] at hparsed
  cases hparsed

theorem step_of_fault {statement : Statement} {fault : Fault}
    (h : Statement.ofLine (Blank.trim input.line) = .ok statement)
    (hfault : Expression.evaluate session.store statement.expression = .error fault) :
    session.step input = session := by
  apply step_of_no_value
  intro other value hparsed hvalue
  obtain rfl := Except.ok.inj (h.symm.trans hparsed)
  rw [hfault] at hvalue
  cases hvalue

/-- Behind the first equals sign another one is a character that no expression has. -/
theorem step_of_two_signs (h : 2 ≤ input.line.toList.count '=') : session.step input = session := by
  apply step_of_no_value
  intro statement value hparsed hvalue
  rw [← Blank.count_trim (c := '=') rfl] at h
  have hsign := (Blank.mem_trim_iff rfl).mpr (Statement.mem_expression_of_ofLine hparsed h)
  obtain ⟨tokens, htokens⟩ := Expression.tokenize_of_evaluate_ok hvalue
  cases (Token.tokenize_eq_ok_iff_lex.mp htokens).1 '=' hsign

theorem handleLine_working (session : Session) (line : String) :
    ∃ reply, session.handleLine .working line = (session.step ⟨.working, line⟩, .ok reply) ∧
      (reply.flow = .exit ↔ Blank.trim line = "exit" ∨ Blank.trim line = "quit") := by
  rcases line_cases line with ⟨command, hcommand⟩ | ⟨hword, invalid, hinvalid⟩ | ⟨statement, hstatement⟩
  · simp only [step, handleLine_of_command hcommand]
    exact ⟨_, rfl, Command.exits_iff hcommand⟩
  · simp only [step, handleLine_of_invalid hword hinvalid]
    exact ⟨_, rfl, iff_of_false nofun (mt Command.firstWord_mem_words_of_exit hword)⟩
  · simp only [step, handleLine_of_onLine hstatement, handleStatement_working]
    exact ⟨_, rfl, iff_of_false nofun (mt Command.firstWord_mem_words_of_exit hstatement.notCommand)⟩

theorem after_cons (session : Session) (input : Input) (rest : List Input) :
    session.after (input :: rest) = (session.step input).after rest := by
  rw [after, after, List.foldl_cons]

theorem after_append_singleton (session : Session) (inputs : List Input) (input : Input) :
    session.after (inputs ++ [input]) = (session.after inputs).step input := by
  rw [after, List.foldl_append]
  rfl

theorem lastAssigned_append_singleton :
    session.LastAssigned (inputs ++ [input]) name value ↔
      (session.after inputs).Assigns input name value ∨
      (session.LastAssigned inputs name value ∧
        ∀ later, ¬ (session.after inputs).Assigns input name later) := by
  constructor
  · rintro ⟨front, found, back, hsplit, hassigns, hlast⟩
    rcases List.eq_nil_or_concat' back with rfl | ⟨back, final, rfl⟩
    · obtain ⟨rfl, rfl⟩ := List.append_singleton_inj.mp hsplit
      exact .inl hassigns
    · rw [← List.cons_append, ← List.append_assoc] at hsplit
      obtain ⟨rfl, rfl⟩ := List.append_singleton_inj.mp hsplit
      refine .inr ⟨⟨front, found, back, rfl, hassigns, ?_⟩, hlast back input [] rfl⟩
      intro mid other rest hback
      exact hlast mid other (rest ++ [input]) (by rw [hback, List.append_assoc, List.cons_append])
  · rintro (hassigns | ⟨⟨front, found, back, rfl, hassigns, hlast⟩, hnone⟩)
    · exact ⟨inputs, input, [], rfl, hassigns, by simp⟩
    · refine ⟨front, found, back ++ [input], by simp, hassigns, ?_⟩
      intro mid other rest hsplit
      rcases List.eq_nil_or_concat' rest with rfl | ⟨rest, final, rfl⟩
      · obtain ⟨rfl, rfl⟩ := List.append_singleton_inj.mp hsplit
        exact hnone
      · rw [← List.cons_append, ← List.append_assoc] at hsplit
        exact hlast mid other rest (List.append_singleton_inj.mp hsplit).1

theorem get?_after (showPostfix : Bool) (inputs : List Input) (name : String) (value : Float) :
    ((new showPostfix).after inputs).store.get? name = some value ↔
      (new showPostfix).LastAssigned inputs name value := by
  induction inputs using List.reverseRecOn with
  | nil =>
      refine iff_of_false nofun ?_
      rintro ⟨front, input, back, hsplit, -, -⟩
      simp at hsplit
  | append_singleton inputs input ih =>
      rw [lastAssigned_append_singleton, ← ih, after_append_singleton]
      rcases step_cases ((new showPostfix).after inputs) input with
        ⟨other, found, hassigns, hstep⟩ | ⟨hnone, hstep⟩
      · rw [hstep, Store.get?_insert]
        by_cases hname : name = other
        · subst hname
          rw [if_pos rfl]
          constructor
          · intro h
            exact .inl (Option.some.inj h ▸ hassigns)
          · rintro (h | ⟨-, hnot⟩)
            · rw [(hassigns.unique h).2]
            · exact absurd hassigns (hnot found)
        · rw [if_neg hname]
          have hnot (later : Float) : ¬ ((new showPostfix).after inputs).Assigns input name later :=
            fun h => hname (h.unique hassigns).1
          exact ⟨fun h => .inr ⟨h, hnot⟩, fun h => h.elim (fun h => absurd h (hnot value)) And.left⟩
      · rw [hstep]
        exact ⟨fun h => .inr ⟨h, hnone name⟩,
          fun h => h.elim (fun h => absurd h (hnone name value)) And.left⟩

/-- What a line does to the variables. Commands, lines that are no statement and statements
without a value leave them alone, and any other line binds its own target and nothing else.
After any run a name has the value of the last statement that assigned it. -/
theorem handleLine_law :
    (∀ (session : Session) (line : String), ∃ next reply,
      session.handleLine .working line = (next, .ok reply) ∧
      (Command.firstWord (Blank.trim line) ∈ Command.words → next = session) ∧
      (∀ invalid, Statement.ofLine (Blank.trim line) = .error invalid → next = session) ∧
      (∀ statement fault, Statement.ofLine (Blank.trim line) = .ok statement →
        Expression.evaluate session.store statement.expression = .error fault → next = session) ∧
      (∀ statement value, Command.firstWord (Blank.trim line) ∉ Command.words →
        Statement.ofLine (Blank.trim line) = .ok statement →
        Expression.evaluate session.store statement.expression = .ok value →
        next = { session with store := session.store.insert statement.target value } ∧
        ∀ name, next.store.get? name =
          if name = statement.target then some value else session.store.get? name) ∧
      (reply.flow = .exit ↔ Blank.trim line = "exit" ∨ Blank.trim line = "quit") ∧
      (2 ≤ line.toList.count '=' → next = session)) ∧
    ∀ showPostfix inputs name value,
      ((new showPostfix).after inputs).store.get? name = some value ↔
        (new showPostfix).LastAssigned inputs name value := by
  refine ⟨fun session line => ?_, get?_after⟩
  obtain ⟨reply, hline, hflow⟩ := handleLine_working session line
  refine ⟨session.step ⟨.working, line⟩, reply, hline, fun h => step_of_command h,
    fun _ h => step_of_invalid h, fun _ _ h hfault => step_of_fault h hfault,
    fun statement value hword hparsed hvalue => ?_, hflow, fun h => step_of_two_signs h⟩
  have hassigns : session.Assigns ⟨.working, line⟩ statement.target value :=
    ⟨hword, statement.expression, hparsed, .inl rfl, hvalue⟩
  rw [step_of_assigns hassigns]
  exact ⟨rfl, fun name => Store.get?_insert ..⟩

theorem handleLine_law_own_target :
    (∃ next reply, (Session.mk false (Store.empty.insert "x" 5)).handleLine .working " x = x * 2\n" =
        (next, .ok reply) ∧ next.store.get? "x" = some 10 ∧ reply.flow ≠ .exit) ∧
      ((new true).after [⟨.working, "x = 5"⟩, ⟨.working, "x = x * 2"⟩, ⟨.working, "x = x / 0"⟩]).store.get?
        "x" = some 10 := by
  constructor
  · obtain ⟨next, reply, hline, -, -, -, hassigned, hflow, -⟩ :=
      handleLine_law.1 (Session.mk false (Store.empty.insert "x" 5)) " x = x * 2\n"
    obtain ⟨-, hget⟩ := hassigned ⟨"x", "x * 2"⟩ 10 (by decide) rfl (by decide +kernel)
    exact ⟨next, reply, hline, hget "x", mt hflow.mp (by decide)⟩
  · refine (handleLine_law.2 _ _ _ _).mpr ⟨[⟨.working, "x = 5"⟩], ⟨.working, "x = x * 2"⟩, _, rfl, ?_, ?_⟩
    · exact ⟨by decide, "x * 2", rfl, .inl rfl, by decide +kernel⟩
    · intro mid other rest hback later hassigns
      cases mid with
      | cons first mid => simp at hback
      | nil =>
          obtain ⟨rfl, -⟩ := List.cons.inj hback
          obtain ⟨expression, hparsed, -, hvalue⟩ := hassigns.evaluated
          have hquotient : Statement.ofLine (Blank.trim "x = x / 0") = .ok ⟨"x", "x / 0"⟩ := rfl
          have hfault : Expression.evaluate ((new true).after [⟨.working, "x = 5"⟩,
              ⟨.working, "x = x * 2"⟩]).store "x / 0" = .error .divisionByZero := by decide +kernel
          rw [hquotient] at hparsed
          cases hparsed
          cases hfault.symm.trans hvalue

end Session

end DeskCalculator
