import ScopedUndo.Cli.Args
import ScopedUndo.Session
import ScopedUndo.Config.File
/-!
# Running the command line

A run loads the configuration file if one is given, lets `--scopes` and `--undo-limit` override
what it says, starts an engine, reads and parses the script (from its path, or from the standard
input without one) and runs it as a session. Unless `--quiet` is given, a last line sums up:
`done: <statements> statements, <failures> failed, <commands> commands on stack <active>`.

A run that ends early ends with a command-line failure: a configuration file that cannot be
loaded, a configuration the engine refuses (a scope failure when the scope names are at fault, a
configuration failure otherwise), a script that cannot be read or parsed, and the fatal failures
of the session. The exit status is 1 then, 2 when statements failed, and 0 otherwise.
-/

namespace ScopedUndo.Cli

/-- The files a run can read: a file's content by path, nothing for a missing file. -/
abbrev Files := String → Option String

def notFound : String := "No such file or directory (os error 2)"

def baseName (path : String) : String :=
  ((path.splitOn "/").getLast?).getD path

/-- Loads a configuration file: its name must have a format, and then it must exist. -/
def loadConfig (files : Files) (path : String) : Except Fault Config :=
  let name := baseName path
  match Format.ofName? name with
  | none => .error unsupportedFormat
  | some _ =>
    match files path with
    | none => .error (.config ("Failed to read config file: " ++ notFound))
    | some content => Config.load name content

def scopeWords (text : String) : List String :=
  Text.tokens (fun c => c == ',' || Text.isBlank c) text

/-- The configuration a command line asks for: the file's, or the defaults, with the overrides
of the command line. -/
def Args.engineConfig (a : Args) (files : Files) : Except CliError Config := do
  let c ← match a.config with
    | some path => (loadConfig files path).mapError .config
    | none => pure {}
  let c := match a.scopes with
    | some text => { c with scopes := scopeWords text }
    | none => c
  return match a.undoLimit with
    | some n => { c with undoLimit := n }
    | none => c

structure Report where
  output : List String
  result : Except CliError Summary

namespace Report

def exitCode (r : Report) : Nat :=
  match r.result with
  | .ok s => if s.failures > 0 then 2 else 0
  | .error _ => 1

def text (r : Report) : String :=
  String.join (r.output.map (· ++ "\n"))

end Report

def doneLine (s : Session) : String :=
  "done: " ++ toString s.summary.statements ++ " statements, " ++ toString s.summary.failures ++
    " failed, " ++ toString ((s.engine.activeStack?.map (·.count)).getD 0) ++
    " commands on stack " ++ s.engine.active

/-- Runs a command line over files, with `input` as the standard input. -/
def run (a : Args) (files : Files) (input : String) : Report :=
  match a.engineConfig files with
  | .error e => ⟨[], .error e⟩
  | .ok c =>
    match Session.start c with
    | .error f => ⟨[], .error (if f.isValidation then .scope f else .config f)⟩
    | .ok s =>
      let source := match a.script with
        | some path => files path
        | none => some input
      match source with
      | none => ⟨[], .error (.io notFound)⟩
      | some text =>
        match Script.parse text with
        | .error e => ⟨[], .error e⟩
        | .ok lines =>
          match s.run lines with
          | .error (e, s) => ⟨s.output, .error e⟩
          | .ok s => ⟨if a.quiet then s.output else s.output ++ [doneLine s], .ok s.summary⟩

end ScopedUndo.Cli
