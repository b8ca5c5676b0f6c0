import ScopedUndo.Scope.Registry
import ScopedUndo.Stack
/-!
# Engine configuration

The settings an engine starts from, each with a default: no undo limit, no scopes, the stack
`default`, room for 1024 unread events, and no routes. Routes map scope names to stacks and are
kept sorted by name. `Config.validate` checks a configuration in a fixed order and builds its
scope registry.
-/

namespace ScopedUndo

/-- The number of events a subscriber may fall behind by default. -/
def defaultEventCapacity : Nat := 1024

structure Config where
  /-- Commands kept per stack; 0 keeps all. -/
  undoLimit : Nat := 0
  /-- Scope names in bit order. -/
  scopes : List String := []
  /-- The stack used when no other is chosen. -/
  defaultStack : String := defaultStackId
  /-- Events a subscriber may fall behind by. -/
  eventCapacity : Nat := defaultEventCapacity
  /-- Scope name to stack, sorted by scope name, each name once. -/
  routes : List (String × String) := []
  deriving DecidableEq, Repr

namespace Config

/-- Inserts a route into a sorted route list, replacing one of the same name. -/
def insertRoute (name stack : String) : List (String × String) → List (String × String)
  | [] => [(name, stack)]
  | (n, s) :: rest =>
    if name < n then (name, stack) :: (n, s) :: rest
    else if name == n then (name, stack) :: rest
    else (n, s) :: insertRoute name stack rest

def withRoute (c : Config) (name stack : String) : Config :=
  { c with routes := insertRoute name stack c.routes }

/-- The first route that breaks a rule, in name order: the wildcard cannot be routed, a routed
name must be registered exactly as written, and the stack must not be blank. -/
def routeFault (r : Registry) : List (String × String) → Option Fault
  | [] => none
  | (name, stack) :: rest =>
    if name = Scope.allName then some (.validation "routes need a specific scope, not 'all'")
    else if (r.flagsFor? name).isNone then some (.unknownScope name)
    else if (Text.trim stack).isEmpty then
      some (.config ("route for scope '" ++ name ++ "' has an empty stack id"))
    else routeFault r rest

/-- Checks a configuration and builds its registry: a blank default stack, then a zero event
capacity, then the scope names, then the routes in name order. -/
def validate (c : Config) : Except Fault Registry :=
  if (Text.trim c.defaultStack).isEmpty then .error (.config "default_stack cannot be empty")
  else if c.eventCapacity = 0 then .error (.config "event_capacity must be positive")
  else
    match Registry.ofNames c.scopes with
    | .error f => .error f
    | .ok r =>
      match routeFault r c.routes with
      | some f => .error f
      | none => .ok r

end Config

end ScopedUndo
