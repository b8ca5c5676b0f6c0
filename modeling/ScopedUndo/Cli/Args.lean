import ScopedUndo.LogLevel
import ScopedUndo.Text.Number
/-!
# Command-line arguments

The command line takes a configuration file (`-c`, `--config`), scope names (`-s`, `--scopes`),
an undo limit (`-l`, `--undo-limit`), a log level (`--log-level`), the switches `-v`
(`--verbose`) and `-q` (`--quiet`), which exclude each other, `-h` (`--help`), `-V`
(`--version`), and at most one script path.

Arguments are read left to right. A long option takes its value after `=` or as the next
argument, a short one attached (after an optional `=`) or as the next argument, and short
switches may be bundled as in `-vq`. After `--` every argument is a value. An argument that
starts with `-` is never taken as a value of the option before it, so `-l -1` is an unknown
option `-1`.

A value is checked once the option it belongs to is complete, that is when the next option, the
next script path or the end of the line is reached; this is also when an option given twice is
refused, and when an option left without a value is. Help and the version are answered as soon
as they are met, after the option before them is complete. The two exclusive switches are
checked last.
-/

namespace ScopedUndo.Cli

structure Args where
  config : Option String := none
  scopes : Option String := none
  undoLimit : Option Nat := none
  script : Option String := none
  logLevel : Option LogLevel := none
  verbose : Bool := false
  quiet : Bool := false
  deriving DecidableEq, Repr

inductive Opt where
  | config
  | scopes
  | undoLimit
  | logLevel
  | verbose
  | quiet
  | help
  | version
  deriving DecidableEq, Repr

namespace Opt

def ofLong? : String → Option Opt
  | "config" => some config
  | "scopes" => some scopes
  | "undo-limit" => some undoLimit
  | "log-level" => some logLevel
  | "verbose" => some verbose
  | "quiet" => some quiet
  | "help" => some help
  | "version" => some version
  | _ => none

def ofShort? : Char → Option Opt
  | 'c' => some config
  | 's' => some scopes
  | 'l' => some undoLimit
  | 'v' => some verbose
  | 'q' => some quiet
  | 'h' => some help
  | 'V' => some version
  | _ => none

def takesValue : Opt → Bool
  | config | scopes | undoLimit | logLevel => true
  | _ => false

def display : Opt → String
  | config => "--config <FILE>"
  | scopes => "--scopes <NAMES>"
  | undoLimit => "--undo-limit <N>"
  | logLevel => "--log-level <LEVEL>"
  | verbose => "--verbose"
  | quiet => "--quiet"
  | help => "--help"
  | version => "--version"

end Opt

inductive ArgsError where
  | displayHelp
  | displayVersion
  /-- An option nobody declared, or an argument after the script path. -/
  | unknownArgument (arg : String)
  /-- An option given twice, or with one that excludes it. -/
  | argumentConflict (arg other : String)
  /-- A value its option refuses, and why. -/
  | valueValidation (arg value reason : String)
  /-- An option left without a value, or given an empty path. -/
  | invalidValue (arg value : String)
  /-- A value given to a switch. -/
  | tooManyValues (arg value : String)
  deriving DecidableEq, Repr

structure Reading where
  args : Args := {}
  /-- Options already complete. -/
  given : List Opt := []
  /-- An option still collecting its value, and the value once it came. -/
  pending : Option (Opt × Option String) := none
  /-- Whether a `--` was met. -/
  trailing : Bool := false
  /-- Whether the script path was met. -/
  scriptSeen : Bool := false

namespace Reading

/-- Marks an option complete; a second time is a conflict with itself. -/
def mark (r : Reading) (o : Opt) : Except ArgsError Reading :=
  if o ∈ r.given then .error (.argumentConflict o.display o.display)
  else .ok { r with given := o :: r.given }

def complete (r : Reading) (o : Opt) (value : String) : Except ArgsError Reading := do
  let r ← r.mark o
  match o with
  | .config =>
    if value.isEmpty then throw (.invalidValue o.display value)
    return { r with args := { r.args with config := some value } }
  | .scopes => return { r with args := { r.args with scopes := some value } }
  | .undoLimit =>
    match Text.readNat? Text.sizeMax value with
    | some n => return { r with args := { r.args with undoLimit := some n } }
    | none =>
      let reason := if value.isEmpty then "cannot parse integer from empty string"
        else if (value.toList.dropWhile (· == '+')).all Char.isDigit then
          "number too large to fit in target type"
        else "invalid digit found in string"
      throw (.valueValidation o.display value reason)
  | .logLevel =>
    match LogLevel.parse? value with
    | some level => return { r with args := { r.args with logLevel := some level } }
    | none => throw (.valueValidation o.display value ("unknown log level '" ++ value ++ "'"))
  | _ => return r

/-- Completes the pending option, if any; one without a value is refused. -/
def settle (r : Reading) : Except ArgsError Reading :=
  match r.pending with
  | none => .ok r
  | some (o, none) => .error (.invalidValue o.display "")
  | some (o, some v) => { r with pending := none }.complete o v

/-- Meets an option, after completing the one before it: a switch takes effect, help and the
version are answered, and an option that takes a value completes with an attached one or waits
for the next argument. -/
def meet (r : Reading) (o : Opt) (attached : Option String) : Except ArgsError Reading := do
  let r ← r.settle
  match o with
  | .help => throw .displayHelp
  | .version => throw .displayVersion
  | .verbose | .quiet =>
    match attached with
    | some v => throw (.tooManyValues o.display v)
    | none =>
      let r ← r.mark o
      if o == .verbose then return { r with args := { r.args with verbose := true } }
      else return { r with args := { r.args with quiet := true } }
  | _ =>
    match attached with
    | some v => r.complete o v
    | none => return { r with pending := some (o, none) }

/-- Reads a bundle of short options, the characters after the dash. -/
def shorts (r : Reading) : List Char → Except ArgsError Reading
  | [] => .ok r
  | c :: rest =>
    match Opt.ofShort? c with
    | none => .error (.unknownArgument ("-" ++ String.ofList (c :: rest)))
    | some o =>
      if o.takesValue then
        let value := match rest with
          | '=' :: v => v
          | v => v
        r.meet o (if value.isEmpty && rest.isEmpty then none else some (String.ofList value))
      else do
        let r ← r.meet o none
        shorts r rest

/-- Takes a plain argument: the value of a waiting option, or else the script path. -/
def value (r : Reading) (arg : String) : Except ArgsError Reading :=
  match r.pending with
  | some (o, none) => .ok { r with pending := some (o, some arg) }
  | _ =>
    if r.scriptSeen then .error (.unknownArgument arg)
    else do
      let r ← r.settle
      return { r with args := { r.args with script := some arg }, scriptSeen := true }

def step (r : Reading) (arg : String) : Except ArgsError Reading :=
  if r.trailing then r.value arg
  else
    match arg.toList with
    | ['-', '-'] => .ok { r with trailing := true }
    | '-' :: '-' :: long =>
      let name := String.ofList (long.takeWhile (· != '='))
      let attached := if long.contains '=' then some (String.ofList (long.dropWhile (· != '=')).tail)
        else none
      match Opt.ofLong? name with
      | some o => r.meet o attached
      | none => .error (.unknownArgument arg)
    | '-' :: c :: rest => r.shorts (c :: rest)
    | _ => r.value arg

/-- Reads every argument, then completes the last option and checks the exclusive switches. -/
def finish (r : Reading) : Except ArgsError Args := do
  let r ← r.settle
  if r.args.verbose && r.args.quiet then
    throw (.argumentConflict Opt.quiet.display Opt.verbose.display)
  return r.args

end Reading

def Args.read (args : List String) : Except ArgsError Args := do
  let r ← args.foldlM Reading.step {}
  r.finish

/-- The log level a command line asks for: the one given, else `DEBUG` when verbose, else
`ERROR` when quiet, else `INFO`. -/
def Args.level (a : Args) : LogLevel :=
  match a.logLevel with
  | some level => level
  | none => if a.verbose then .debug else if a.quiet then .error else .info

def ArgsError.kind : ArgsError → String
  | .displayHelp => "DisplayHelp"
  | .displayVersion => "DisplayVersion"
  | .unknownArgument _ => "UnknownArgument"
  | .argumentConflict _ _ => "ArgumentConflict"
  | .valueValidation _ _ _ => "ValueValidation"
  | .invalidValue _ _ => "InvalidValue"
  | .tooManyValues _ _ => "TooManyValues"

end ScopedUndo.Cli
