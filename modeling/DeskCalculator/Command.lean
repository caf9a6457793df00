import DeskCalculator.Store
import DeskCalculator.Value

namespace DeskCalculator

namespace About

def version : String := "0.1.0"

def title : String :=
  "infix-calculator " ++ version ++ ", Copyright (C) 2022 Martin Jonsson <martinjonsson01@gmail.com>"

def license : String :=
  "infix-calculator comes with ABSOLUTELY NO WARRANTY.\n" ++
  "This is free software, and you are welcome to redistribute it\n" ++
  "under certain conditions. See the LICENSE file for details."

def banner : String := title ++ "\n" ++ license ++ "\nType 'help' for a list of commands."

end About

inductive Flow
  | proceed
  | exit
  deriving DecidableEq, Repr

inductive Command
  | exit
  | vars
  | help
  | version
  deriving DecidableEq, Repr

namespace Command

/-- The pieces between the spaces of a text: the first one and the others. Two
spaces in a row have an empty piece between them. -/
def pieces : List Char → List Char × List (List Char)
  | [] => ([], [])
  | c :: rest =>
    let (first, others) := pieces rest
    if c = ' ' then ([], first :: others) else (c :: first, others)

def firstWord (line : String) : String := String.ofList (pieces line.toList).1

def arguments (line : String) : List String := (pieces line.toList).2.map String.ofList

def ofWord? (word : String) : Option Command :=
  match word with
  | "exit" | "quit" => some .exit
  | "vars" => some .vars
  | "help" | "?" => some .help
  | "version" => some .version
  | _ => none

def ofLine? (line : String) : Option Command := ofWord? (firstWord line)

def description : Command → String
  | .exit => "Exit the calculator"
  | .vars => "Print list of variables and their values"
  | .help => "Print help text"
  | .version => "Print version information"

def listed : List (String × Command) :=
  [("exit", .exit), ("vars", .vars), ("help", .help), ("version", .version)]

def row (entry text : String) : String :=
  "  " ++ entry ++ String.ofList (List.replicate (10 - entry.length) ' ') ++ text ++ "\n"

def helpText : String :=
  "Commands:\n" ++ String.join (listed.map fun entry => row entry.1 entry.2.description)

def storeText (store : Store) : String :=
  "Variables:\n" ++
    if store.isEmpty then "  (no variables)\n"
    else String.join (store.entries.map fun entry => row entry.1 (Value.format entry.2))

/-- What a command answers. It is called by the word that was typed for it, and
no command takes an argument. -/
def output (command : Command) (word : String) (arguments : List String) (store : Store) : String :=
  if !arguments.isEmpty then "Error: command '" ++ word ++ "' has no arguments.\n"
  else match command with
    | .exit => ""
    | .vars => storeText store
    | .help => helpText
    | .version => About.title ++ "\n"

def flow (command : Command) (arguments : List String) : Flow :=
  if command = .exit && arguments.isEmpty then .exit else .proceed

end Command

end DeskCalculator
