import DeskCalculator.Command
import DeskCalculator.Diagnostic
import DeskCalculator.Statement

namespace DeskCalculator

inductive Stage
  | commandOutput
  | error
  | postfixExpression
  | result
  deriving DecidableEq, Repr

def Stage.message : Stage → String
  | .commandOutput => "failed to write command output"
  | .error => "failed to write error"
  | .postfixExpression => "failed to write postfix expression"
  | .result => "failed to write result"

inductive Writer
  | working
  | broken
  deriving DecidableEq, Repr

/-- The text that was written, or the occasion on which the writing failed. With
nothing to write nothing can fail. -/
def Writer.write (writer : Writer) (stage : Stage) (text : String) : Except Stage String :=
  match writer with
  | .working => .ok text
  | .broken => if text.isEmpty then .ok "" else .error stage

structure Session where
  showPostfix : Bool
  store : Store

structure Reply where
  flow : Flow
  output : String
  deriving DecidableEq, Repr

namespace Session

def new (showPostfix : Bool) : Session := ⟨showPostfix, .empty⟩

def errorText (message : String) : String := "Error: " ++ message ++ "\n"

def resultText : Except Fault Float → String
  | .ok value => Value.format value ++ "\n"
  | .error fault => errorText fault.message

def postfixText (session : Session) (expression : String) : String :=
  if session.showPostfix then
    match Expression.toPostfix expression with
    | .ok tokens => Token.render tokens ++ "\n"
    | .error _ => ""
  else ""

/-- The postfix form is written before anything is evaluated, and the value is
stored before it is written. -/
def handleStatement (writer : Writer) (session : Session) (statement : Statement) :
    Session × Except Stage Reply :=
  match writer.write .postfixExpression (session.postfixText statement.expression) with
  | .error stage => (session, .error stage)
  | .ok shown =>
    let result := Expression.evaluate session.store statement.expression
    (⟨session.showPostfix, session.store.keep statement.target result⟩,
      (writer.write .result (resultText result)).map fun written => ⟨.proceed, shown ++ written⟩)

def handleCommand (writer : Writer) (session : Session) (command : Command) (line : String) :
    Except Stage Reply :=
  let arguments := Command.arguments line
  (writer.write .commandOutput
    (command.output (Command.firstWord line) arguments session.store)).map
      fun written => ⟨command.flow arguments, written⟩

/-- Obeys a command, or evaluates a statement and keeps its value. Mistakes in the
line are told in the reply; only a failed write is an error. -/
def handleLine (writer : Writer) (session : Session) (line : String) : Session × Except Stage Reply :=
  let line := Blank.trim line
  match Command.ofLine? line with
  | some command => (session, session.handleCommand writer command line)
  | none =>
    match Statement.ofLine line with
    | .error invalid =>
      (session, (writer.write .error (errorText invalid.message)).map fun written => ⟨.proceed, written⟩)
    | .ok statement => session.handleStatement writer statement

def evaluationDiagnostics (session : Session) (statement : Statement) : List Diagnostic :=
  Diagnostic.ofEvaluate session.store statement.expression ++
    match Expression.evaluate session.store statement.expression with
    | .ok value => [.stored value statement.target]
    | .error _ => []

def statementDiagnostics (writer : Writer) (session : Session) (statement : Statement) :
    List Diagnostic :=
  (if session.showPostfix then Diagnostic.ofToPostfix statement.expression else []) ++
    match writer.write .postfixExpression (session.postfixText statement.expression) with
    | .error _ => []
    | .ok _ => session.evaluationDiagnostics statement

def diagnostics (writer : Writer) (session : Session) (line : String) : List Diagnostic :=
  let line := Blank.trim line
  match Command.ofLine? line, Statement.ofLine line with
  | none, .ok statement => session.statementDiagnostics writer statement
  | _, _ => []

end Session

end DeskCalculator
