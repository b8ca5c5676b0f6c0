import ScopedUndo.Fault
/-!
# Command-line failures

What stops or interrupts a script run, with a short message and a longer one for the user. Scope,
configuration and file failures are fatal and end the run; the others are reported and the run
goes on.
-/

namespace ScopedUndo.Cli

inductive CliError where
  | invalidArgument (message : String)
  /-- A script line that does not parse; lines count from 1. -/
  | script (line : Nat) (message : String)
  /-- A scope that could not be registered or resolved. -/
  | scope (fault : Fault)
  /-- A configuration that could not be loaded or used. -/
  | config (fault : Fault)
  /-- A statement the engine refused or that failed. -/
  | engine (fault : Fault)
  /-- A file that could not be read. -/
  | io (detail : String)
  deriving DecidableEq, Repr

namespace CliError

/-- A fault met while resolving scope names: validation faults are scope failures. -/
def ofScopeLookup (fault : Fault) : CliError :=
  if fault.isValidation then scope fault else engine fault

def isFatal : CliError → Bool
  | scope _ | config _ | io _ => true
  | _ => false

def message : CliError → String
  | invalidArgument m => "Invalid argument: " ++ m
  | script line m => "Line " ++ Text.decimal line ++ ": " ++ m
  | scope f => "Scope error: " ++ f.message
  | config f => "Configuration error: " ++ f.message
  | engine f => "Engine error: " ++ f.message
  | io detail => "IO error: " ++ detail

def userMessage : CliError → String
  | invalidArgument m =>
    "Invalid argument: " ++ m ++ "\n\nRun 'rewind --help' for usage information."
  | script line m => "Script error on line " ++ Text.decimal line ++ ": " ++ m
  | scope f => "Scope error: " ++ f.message ++ "\n\nRegister scopes with --scopes or the config file."
  | config f => "Configuration error: " ++ f.message ++ "\n\nCheck the file passed with --config."
  | engine f => f.message
  | io detail => "File operation failed: " ++ detail

end CliError

end ScopedUndo.Cli
