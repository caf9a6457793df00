import DeskCalculator.Level

namespace DeskCalculator.CommandLine

structure Options where
  expression : Option String
  showPostfix : Nat
  verbose : Nat
  quiet : Nat
  deriving DecidableEq, Repr

inductive Stop
  | help
  | version
  | usage
  deriving DecidableEq, Repr

namespace Options

def empty : Options := ⟨none, 0, 0, 0⟩

def level (options : Options) : Level :=
  if 0 < options.quiet then .silent
  else match options.verbose with
    | 0 => .error
    | 1 => .warning
    | 2 => .information
    | 3 => .debug
    | _ => .trace

def positional (options : Options) (argument : String) : Except Stop Options :=
  match options.expression with
  | none => .ok { options with expression := some argument }
  | some _ => .error .usage

/-- Flags take effect in the order in which they stand, so help and version come
before a mistake that follows them and after one that precedes them. -/
def shortFlag (options : Options) (c : Char) : Except Stop Options :=
  if c = 'p' then .ok { options with showPostfix := options.showPostfix + 1 }
  else if c = 'v' then .ok { options with verbose := options.verbose + 1 }
  else if c = 'q' then .ok { options with quiet := options.quiet + 1 }
  else if c = 'h' then .error .help
  else if c = 'V' then .error .version
  else .error .usage

def longFlags : List (String × Char) :=
  [("postfix", 'p'), ("verbose", 'v'), ("quiet", 'q'), ("help", 'h'), ("version", 'V')]

def argument (options : Options) (text : String) : Except Stop Options :=
  match text.toList with
  | '-' :: '-' :: name =>
    match longFlags.lookup (String.ofList name) with
    | some c => options.shortFlag c
    | none => .error .usage
  | '-' :: c :: flags => (c :: flags).foldlM shortFlag options
  | _ => options.positional text

/-- Two minuses end the flags: whatever follows them is not one. -/
def collect (options : Options) : List String → Except Stop Options
  | [] => .ok options
  | text :: rest =>
    if text = "--" then rest.foldlM positional options
    else options.argument text >>= fun options => collect options rest

/-- What can only be told when all flags are known: one of them may not be
repeated, and one cannot be both verbose and quiet. -/
def check (options : Options) : Except Stop Options :=
  if 1 < options.showPostfix || (0 < options.verbose && 0 < options.quiet) then .error .usage
  else .ok options

def ofArguments (arguments : List String) : Except Stop Options := collect empty arguments >>= check

end Options

end DeskCalculator.CommandLine
