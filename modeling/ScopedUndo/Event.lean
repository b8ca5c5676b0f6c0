import ScopedUndo.Scope
/-!
# Progress and engine events

A running action reports progress through its reporter; the engine publishes what it does on its
event bus: state changes, the start and end of an undo or redo, the progress of actions and the
completion of every action run.
-/

namespace ScopedUndo

inductive ProgressEvent where
  | started
  | finished
  | range (minimum maximum : Int)
  | value (v : Int)
  | text (s : String)
  deriving DecidableEq, Repr

inductive Operation where
  | execute
  | undo
  | redo
  deriving DecidableEq, Repr

def Operation.name : Operation → String
  | execute => "Execute"
  | undo => "Undo"
  | redo => "Redo"

inductive EngineEvent where
  /-- Some stack's history or the active stack changed. -/
  | stateChanged
  /-- An undo of a command of this scope began (`true`) or ended (`false`). -/
  | undoing (scope : Scope) (active : Bool)
  /-- A redo of a command of this scope began (`true`) or ended (`false`). -/
  | redoing (scope : Scope) (active : Bool)
  /-- A progress report of the action of a command. -/
  | progress (command : Nat) (event : ProgressEvent)
  /-- An action run finished, with the fault's message if it failed. -/
  | completed (command : Nat) (text : String) (operation : Operation) (error : Option String)
  deriving DecidableEq, Repr

end ScopedUndo
