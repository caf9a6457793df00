import DeskCalculator.CommandLine.Run

namespace DeskCalculator.CommandLine

def say (level : Level) (diagnostics : List Diagnostic) : IO Unit := do
  let err ← IO.getStderr
  for diagnostic in diagnostics do
    if level.hears diagnostic.level then err.putStrLn diagnostic.line

def finish (outcome : Outcome) : IO UInt32 := do
  IO.print outcome.stdout
  IO.eprint outcome.stderr
  return outcome.status.toUInt32

partial def readLine (input : IO.FS.Stream) (bytes : ByteArray) : IO ByteArray := do
  let byte ← input.read 1
  let bytes := bytes ++ byte
  if byte.isEmpty || byte.toList = [newline] then return bytes
  readLine input bytes

partial def loop (level : Level) (input : IO.FS.Stream) (session : Session) : IO UInt32 := do
  IO.print prompt
  (← IO.getStdout).flush
  let line ← readLine input .empty
  if line.isEmpty then
    say level [.inputEnded]
    return 0
  say level (((String.fromUTF8? line).map (session.diagnostics .working)).getD [])
  match turn session line.toList with
  | .finish outcome => finish outcome
  | .next session output =>
    IO.print output
    loop level input session

end DeskCalculator.CommandLine

open DeskCalculator DeskCalculator.CommandLine in
def main (arguments : List String) : IO UInt32 := do
  match Options.ofArguments arguments with
  | .error stop => finish stop.outcome
  | .ok options =>
    let showPostfix : Bool := 0 < options.showPostfix
    match options.expression with
    | some expression =>
      say options.level (diagnosticsOnce showPostfix expression)
      finish (evaluateOnce showPostfix expression)
    | none =>
      IO.println About.banner
      loop options.level (← IO.getStdin) (.new showPostfix)
