import DeskCalculator.Expression
import DeskCalculator.Token

namespace DeskCalculator

structure Statement where
  target : String
  expression : String
  deriving DecidableEq, Repr

structure InvalidTarget where
  text : String
  deriving DecidableEq, Repr

def InvalidTarget.message (invalid : InvalidTarget) : String :=
  "'" ++ invalid.text ++ "' is not a valid variable name"

namespace Statement

def defaultTarget : String := "ans"

def isName (text : String) : Bool := !text.toList.isEmpty && text.toList.all Character.isLetter

/-- A line is cut at its first equals sign. Without one, all of it is an expression. -/
def ofLine (line : String) : Except InvalidTarget Statement :=
  match line.toList.dropWhile (· != '=') with
  | [] => .ok ⟨defaultTarget, Blank.trim line⟩
  | _ :: expression =>
    let target := Blank.trim (String.ofList (line.toList.takeWhile (· != '=')))
    if isName target then .ok ⟨target, Blank.trim (String.ofList expression)⟩
    else .error ⟨target⟩

end Statement

end DeskCalculator
