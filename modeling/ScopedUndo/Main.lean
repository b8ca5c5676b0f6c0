import ScopedUndo.Cli.Run
/-!
# The `rewind` program

Reads the command line, the configuration file and the script, runs them, prints the run's
output, and exits with its status. A failure that ends the run early is explained on the
standard error. A command line that cannot be read is explained there too, with status 2; help
and the version are printed instead of running.
-/

namespace ScopedUndo.Cli

def usage : String := "Usage: rewind [OPTIONS] [SCRIPT]"

def helpText : String :=
  "Run ledger scripts against the rewind undo/redo engine\n\n" ++ usage ++ "\n\n" ++
  "Arguments:\n" ++
  "  [SCRIPT]  Script to run; reads stdin when omitted\n\n" ++
  "Options:\n" ++
  "  -c, --config <FILE>      Engine configuration file (YAML or JSON)\n" ++
  "  -s, --scopes <NAMES>     Scope names, comma separated (overrides the config file)\n" ++
  "  -l, --undo-limit <N>     Commands kept per stack, 0 for unlimited (overrides the config file)\n" ++
  "      --log-level <LEVEL>  Minimum log level\n" ++
  "  -v, --verbose            Enable verbose output\n" ++
  "  -q, --quiet              Minimize output\n" ++
  "  -h, --help               Print help\n" ++
  "  -V, --version            Print version"

def versionText : String := "rewind 0.1.0"

def ArgsError.explain : ArgsError → String
  | .displayHelp => helpText
  | .displayVersion => versionText
  | .unknownArgument arg => "error: unexpected argument '" ++ arg ++ "' found"
  | .argumentConflict arg other =>
    if arg == other then "error: the argument '" ++ arg ++ "' cannot be used multiple times"
    else "error: the argument '" ++ arg ++ "' cannot be used with '" ++ other ++ "'"
  | .valueValidation arg value reason =>
    "error: invalid value '" ++ value ++ "' for '" ++ arg ++ "': " ++ reason
  | .invalidValue arg _ => "error: a value is required for '" ++ arg ++ "' but none was supplied"
  | .tooManyValues arg value =>
    "error: unexpected value '" ++ value ++ "' for '" ++ arg ++ "' found; no more were expected"

/-- Reads the files a command line names, leaving out those that cannot be read. -/
def readFiles (paths : List String) : IO (List (String × String)) := do
  let mut found := []
  for path in paths do
    try
      found := (path, ← IO.FS.readFile path) :: found
    catch _ =>
      pure ()
  return found

end ScopedUndo.Cli

open ScopedUndo.Cli in
def main (argv : List String) : IO UInt32 := do
  match Args.read argv with
  | .error .displayHelp =>
    IO.println helpText
    return 0
  | .error .displayVersion =>
    IO.println versionText
    return 0
  | .error e =>
    IO.eprintln (e.explain ++ "\n\n" ++ usage ++ "\n\nFor more information, try '--help'.")
    return 2
  | .ok a =>
    let found ← readFiles ([a.config, a.script].filterMap id)
    let input ← if a.script.isNone then (← IO.getStdin).readToEnd else pure ""
    let files : Files := fun path => (found.find? (·.1 == path)).map (·.2)
    let report := run a files input
    IO.print report.text
    match report.result with
    | .error e => IO.eprintln e.userMessage
    | .ok _ => pure ()
    return report.exitCode.toUInt32
