import ScopedUndo.Text.Number
/-!
# Faults

Everything the engine and its registry can refuse, one constructor per cause. The wording of each
fault is in `Fault.message`; `isValidation` and `isCommandFailure` sort faults into the two
classes callers branch on.
-/

namespace ScopedUndo

/-- A fault of the engine, its registry, its commands or its configuration. -/
inductive Fault where
  /-- The reserved wildcard name was registered as a scope. -/
  | reservedScopeName (name : String)
  /-- A scope name was registered twice. -/
  | duplicateScope (name : String)
  /-- More scopes than the bits of a scope word. -/
  | tooManyScopes (count max : Nat)
  /-- A scope name the registry does not know. -/
  | unknownScope (name : String)
  /-- A command built without a forward action. -/
  | missingForwardAction (command : String)
  /-- A request that breaks a rule of the engine. -/
  | validation (message : String)
  /-- A cursor position past the end of a stack. -/
  | indexOutOfRange (index count : Nat)
  /-- A command's action reported a failure. -/
  | executionFailed (command message : String)
  /-- A command's action stopped without a result. -/
  | unknownFailure (command message : String)
  | noMoreUndos
  | noMoreRedos
  /-- A job discarded before it ran. -/
  | cancelled
  /-- A submission after the worker was stopped. -/
  | engineShutdown
  /-- An unusable configuration. -/
  | config (message : String)
  /-- A JSON document that does not describe the expected value. -/
  | serialization (detail : String)
  /-- A YAML document that does not describe the expected value. -/
  | yaml (detail : String)
  /-- A file could not be read or written. -/
  | io (detail : String)
  deriving DecidableEq, Repr

namespace Fault

def message : Fault → String
  | reservedScopeName name => "Scope name '" ++ name ++ "' is reserved"
  | duplicateScope name => "Scope already registered: " ++ name
  | tooManyScopes count max =>
    "Too many scopes: " ++ Text.decimal count ++ " registered, at most " ++ Text.decimal max ++
      " supported"
  | unknownScope name => "Unknown scope: " ++ name
  | missingForwardAction command => "Command '" ++ command ++ "' has no forward action"
  | validation message => "Validation error: " ++ message
  | indexOutOfRange index count =>
    "Index " ++ Text.decimal index ++ " out of range for stack with " ++ Text.decimal count ++
      " commands"
  | executionFailed command message => "Command '" ++ command ++ "' failed: " ++ message
  | unknownFailure command message =>
    "Critical failure in command '" ++ command ++ "': " ++ message
  | noMoreUndos => "No more undos available"
  | noMoreRedos => "No more redos available"
  | cancelled => "Operation cancelled before execution"
  | engineShutdown => "Undo/redo engine has shut down"
  | config message => "Configuration error: " ++ message
  | serialization detail => "Serialization error: " ++ detail
  | yaml detail => "YAML error: " ++ detail
  | io detail => "IO error: " ++ detail

/-- The underlying failure a fault wraps, for the faults that carry one. -/
def cause : Fault → Option String
  | serialization detail => some detail
  | yaml detail => some detail
  | io detail => some detail
  | _ => none

/-- A fault followed by the failure it wraps, joined by `Caused by:`. -/
def chain (fault : Fault) : String :=
  match fault.cause with
  | some detail => fault.message ++ " Caused by: " ++ detail
  | none => fault.message

/-- Faults that reject a request before anything runs: bad scopes and malformed commands. -/
def isValidation : Fault → Bool
  | reservedScopeName _ | duplicateScope _ | tooManyScopes _ _ | unknownScope _
  | missingForwardAction _ | validation _ => true
  | _ => false

def isCommandFailure : Fault → Bool
  | executionFailed _ _ | unknownFailure _ _ => true
  | _ => false

end Fault

end ScopedUndo
