namespace DeskCalculator

inductive Level
  | silent
  | error
  | warning
  | information
  | debug
  | trace
  deriving DecidableEq, Repr

namespace Level

def rank : Level → Nat
  | .silent => 0
  | .error => 1
  | .warning => 2
  | .information => 3
  | .debug => 4
  | .trace => 5

def hears (listener speaker : Level) : Bool := speaker.rank ≤ listener.rank

def name : Level → String
  | .silent => "OFF"
  | .error => "ERROR"
  | .warning => "WARN"
  | .information => "INFO"
  | .debug => "DEBUG"
  | .trace => "TRACE"

end Level

end DeskCalculator
