import DeskCalculator.CommandLine.Options
import DeskCalculator.Session

namespace DeskCalculator.CommandLine

structure Outcome where
  status : Nat
  stdout : String
  stderr : String
  deriving DecidableEq, Repr

namespace Outcome

def success (stdout : String) : Outcome := ⟨0, stdout, ""⟩

def indent (text : String) : String :=
  "    " ++ String.ofList (text.toList.flatMap fun c => if c = '\n' then "\n    ".toList else [c])

def failure (context cause : String) : Outcome :=
  ⟨1, "", "Error: " ++ context ++ "\n\nCaused by:\n" ++ indent cause ++ "\n"⟩

def after (stdout : String) (outcome : Outcome) : Outcome :=
  ⟨outcome.status, stdout ++ outcome.stdout, outcome.stderr⟩

end Outcome

def valueOnce (expression : String) : Outcome :=
  match Expression.evaluate .empty expression with
  | .ok value => .success (Value.format value ++ "\n")
  | .error fault =>
    .failure ("could not evaluate expression '" ++ expression ++ "'") fault.message

def evaluateOnce (showPostfix : Bool) (expression : String) : Outcome :=
  if showPostfix then
    match Expression.toPostfix expression with
    | .ok tokens => (valueOnce expression).after (Token.render tokens ++ "\n")
    | .error fault =>
      .failure ("could not parse expression '" ++ expression ++ "'") fault.message
  else valueOnce expression

def diagnosticsOnce (showPostfix : Bool) (expression : String) : List Diagnostic :=
  if showPostfix then
    Diagnostic.ofToPostfix expression ++
      match Expression.toPostfix expression with
      | .ok _ => Diagnostic.ofEvaluate .empty expression
      | .error _ => []
  else Diagnostic.ofEvaluate .empty expression

def prompt : String := "\n> "

def newline : UInt8 := 10

/-- The lines of an input, each with the newline that ends it. The last one may
have none. -/
def lines : List UInt8 → List (List UInt8)
  | [] => []
  | byte :: rest =>
    if byte = newline then [byte] :: lines rest
    else match lines rest with
      | [] => [[byte]]
      | line :: later => (byte :: line) :: later

inductive Turn
  | next (session : Session) (output : String)
  | finish (outcome : Outcome)

/-- A line that is not text ends the program, and so would a failed write, which
a working writer never has. -/
def turn (session : Session) (line : List UInt8) : Turn :=
  match String.fromUTF8? line.toByteArray with
  | none =>
    .finish (.failure "failed to read from standard input" "stream did not contain valid UTF-8")
  | some text =>
    match session.handleLine .working text with
    | (_, .error stage) => .finish (.failure stage.message "the output is broken")
    | (after, .ok reply) =>
      match reply.flow with
      | .exit => .finish (.success reply.output)
      | .proceed => .next after reply.output

def converse (session : Session) : List (List UInt8) → Outcome
  | [] => .success prompt
  | line :: later =>
    match turn session line with
    | .finish outcome => outcome.after prompt
    | .next session output => (converse session later).after (prompt ++ output)

def interact (showPostfix : Bool) (input : List UInt8) : Outcome :=
  (converse (.new showPostfix) (lines input)).after (About.banner ++ "\n")

def usageText : String := "Usage: infix-calculator [-p] [-v | -q] [--] [EXPRESSION]\n"

def Stop.outcome : Stop → Outcome
  | .help => ⟨0, "", usageText⟩
  | .version => .success ("infix-calculator-cli " ++ About.version ++ "\n")
  | .usage => ⟨2, "", usageText⟩

def run (arguments : List String) (input : List UInt8) : Outcome :=
  match Options.ofArguments arguments with
  | .error stop => stop.outcome
  | .ok options =>
    match options.expression with
    | some expression => evaluateOnce (0 < options.showPostfix) expression
    | none => interact (0 < options.showPostfix) input

end DeskCalculator.CommandLine
