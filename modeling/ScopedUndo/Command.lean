import ScopedUndo.Event
import ScopedUndo.Value
/-!
# Commands

A command is a reversible unit of work: display text, a kind, a scope, an optional explicit
stack, and an action with a forward and a reverse direction. Running a direction gives an
`Outcome`; the command turns it into its result, wrapping foreign faults and stops under its own
text, and moves its status: a success records the direction, a failure keeps the last success.
A query is never recorded, and its reverse runs nothing. A run reports progress on reporters,
which forward reports until they are closed; a call closes the reporter it was handed when it
returns.
-/

namespace ScopedUndo

inductive Kind where
  | mutating
  | query
  deriving DecidableEq, Repr

def Kind.name : Kind → String
  | mutating => "Mutating"
  | query => "Query"

inductive Status where
  /-- Never run. -/
  | pending
  /-- An action runs right now. -/
  | running
  /-- The forward action succeeded last. -/
  | applied
  /-- The reverse action succeeded last. -/
  | reversed
  /-- Runs happened and none succeeded. -/
  | failed
  deriving DecidableEq, Repr

def Status.name : Status → String
  | pending => "Pending"
  | running => "Running"
  | applied => "Applied"
  | reversed => "Reversed"
  | failed => "Failed"

inductive Direction where
  | forward
  | reverse
  deriving DecidableEq, Repr

def Direction.success : Direction → Status
  | forward => .applied
  | reverse => .reversed

/-- What an action run produced, before its command interprets it. -/
inductive Outcome where
  | ok (v : Value)
  /-- The action returned a fault. -/
  | fail (fault : Fault)
  /-- The action stopped abruptly, with a text payload when it had one. -/
  | panic (payload : Option String)
  deriving Repr

def Outcome.isOk : Outcome → Bool
  | .ok _ => true
  | _ => false

/-- A command over actions of type `α`; `id` tells commands apart. -/
structure Command (α : Type) where
  id : Nat
  text : String
  kind : Kind := .mutating
  scope : Scope := .all
  stack : Option String := none
  action : α
  deriving Repr

/-- How a command's behaviour was handed to the builder: as one action object, or as a forward
and a reverse closure, each optional. -/
structure Supplied where
  whole : Bool := false
  forward : Bool := false
  reverse : Bool := false
  deriving DecidableEq, Repr

namespace Supplied

/-- The builder's verdict: an action object excludes closures, and without an object a forward
closure is required. -/
def check (s : Supplied) (text : String) : Except Fault Unit :=
  if s.whole then
    if s.forward || s.reverse then
      .error (.validation ("command '" ++ text ++ "' has both an action and closures"))
    else .ok ()
  else if s.forward then .ok ()
  else .error (.missingForwardAction text)

end Supplied

namespace Status

/-- The status after a run that began from `previous`: a success leaves `onSuccess`; a failure
marks a command that never succeeded as failed and otherwise keeps the last success. -/
def finish (previous : Status) (succeeded : Bool) (onSuccess : Status) : Status :=
  if succeeded then onSuccess
  else match previous with
    | pending | failed => failed
    | other => other

end Status

/-- The reports that get through, in the order they were made: those made on a reporter, named by
its serial, that is open. -/
def forwarded (isOpen : Nat → Bool) (made : List (Nat × ProgressEvent)) : List ProgressEvent :=
  (made.filter fun m => isOpen m.1).map Prod.snd

namespace Command

variable {α : Type}

def isQuery (c : Command α) : Bool :=
  c.kind == .query

/-- Whether a run in this direction skips the action: the reverse of a query. -/
def skips (c : Command α) (d : Direction) : Bool :=
  d == .reverse && c.isQuery

/-- The result of a run: a value passes, a command failure passes, any other fault is wrapped
under the command's text, and a stop becomes an unknown failure. -/
def settle (c : Command α) : Outcome → Except Fault Value
  | .ok v => .ok v
  | .fail f => if f.isCommandFailure then .error f else .error (.executionFailed c.text f.message)
  | .panic payload => .error (.unknownFailure c.text (payload.getD "unknown error"))

/-- What a call leaves: the world, the reporters' flags, the command's status, the reports that got
through and the result. -/
structure Called (σ : Type) where
  world : σ
  reporters : List Bool
  status : Status
  reports : List ProgressEvent
  result : Except Fault Value

/-- A run outside the engine, handed the reporter `reporter` among reporters each open or closed.
The action reports on reporters given by serial, its own or clones it kept; what it reports on an
open one gets through. The status moves as the outcome says, and the reporter is closed when the
call returns. The reverse of a query closes the reporter and answers `null` without running
anything or touching the status. -/
def call {σ : Type} (run : σ → Command α → Direction → Nat → σ × List (Nat × ProgressEvent) × Outcome)
    (world : σ) (reporters : List Bool) (reporter : Nat) (c : Command α) (status : Status)
    (d : Direction) : Called σ :=
  let closed := reporters.set reporter false
  if c.skips d then ⟨world, closed, status, [], .ok .null⟩
  else
    let (world', made, outcome) := run world c d reporter
    let result := c.settle outcome
    ⟨world', closed, status.finish (result matches .ok _) d.success,
      forwarded (reporters.getD · false) made, result⟩

end Command

end ScopedUndo
