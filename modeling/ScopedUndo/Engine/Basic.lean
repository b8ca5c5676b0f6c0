import ScopedUndo.Config
/-!
# The engine's state and its callers' operations

An engine holds named stacks, the active one, scope routes, and the queue of its single worker.
Callers submit jobs, which get increasing tickets and run later in ticket order, and act on the
state directly: clearing every history (which cancels waiting jobs by bumping the generation),
changing the undo limit, switching the active stack, routing scopes, and reading the queue.
Everything the engine does is published, in order, in `events`. The engine counts the jobs it took
that the worker has not finished, and each action run reports through a reporter of its own, which
forwards reports to the bus and to the job's handle until it is closed.
-/

namespace ScopedUndo

structure Pending where
  ticket : Nat
  text : String
  scope : Scope
  stack : String
  deriving DecidableEq, Repr

inductive Task (α : Type) where
  /-- Run a command forward and record it on a stack. -/
  | execute (command : Command α) (stack : String)
  | undo (filter : Option Scope)
  | redo (filter : Option Scope)
  /-- Walk the active stack's cursor to just after `target`, or to the start. -/
  | jump (target : Option Nat)
  deriving Repr

/-- A job: a task with its ticket and the generation it was submitted in. -/
structure Job (α : Type) where
  ticket : Nat
  generation : Nat
  task : Task α
  deriving Repr

/-- What the worker does once its outstanding action run returns. -/
inductive Sequel where
  /-- Record the executed command on this stack. -/
  | record (stack : String)
  /-- Move this stack's cursor over the command. -/
  | step (stack : String)
  /-- Move this stack's cursor, then walk on until `wanted` commands are done. -/
  | walk (stack : String) (wanted : Nat) (target : Option Nat)
  deriving DecidableEq, Repr

structure Call (α : Type) where
  command : Command α
  operation : Operation
  deriving Repr

def Operation.direction : Operation → Direction
  | .execute => .forward
  | .undo => .reverse
  | .redo => .forward

/-- The job the worker is in the middle of, stopped at an action run. -/
structure Busy (α : Type) where
  ticket : Nat
  generation : Nat
  call : Call α
  sequel : Sequel
  /-- The command's status before this run. -/
  previous : Status
  /-- What the job's runs reported so far. -/
  progress : List ProgressEvent
  /-- The serial of the run's reporter. -/
  reporter : Nat
  deriving Repr

/-- The reporter handed to one action run: the job and the command it reports for, whether it still
forwards reports, and how many clones of it are held. -/
structure Reporter where
  ticket : Nat
  command : Nat
  isOpen : Bool := true
  held : Nat := 0
  deriving DecidableEq, Repr

/-- What is done with a reporter or a clone of it: a report made on it, a clone kept, or a kept clone
let go. -/
inductive Handling where
  | emit (event : ProgressEvent)
  | keep
  | release
  deriving Repr

/-- The end of a job: its result and everything its runs reported. -/
structure Reply where
  ticket : Nat
  result : Except Fault Value
  progress : List ProgressEvent

inductive Activity where
  | idle
  /-- Jobs are queued and none is running. -/
  | scheduling
  /-- An action is running. -/
  | executing
  deriving DecidableEq, Repr

def Activity.name : Activity → String
  | idle => "Idle"
  | scheduling => "Scheduling"
  | executing => "Executing"

structure Engine (α : Type) where
  registry : Registry
  defaultStack : String
  undoLimit : Nat
  /-- Events a subscriber may fall behind by. -/
  capacity : Nat
  /-- The stacks, in the order they were made. -/
  histories : List (Stack α)
  active : String
  /-- Scope routes in the order they were added. -/
  routes : List (Scope × String)
  pending : List Pending := []
  generation : Nat := 0
  /-- The last sequence number handed to a stack change. -/
  sequence : Nat := 0
  nextTicket : Nat := 1
  queue : List (Job α) := []
  busy : Option (Busy α) := none
  events : List EngineEvent := []
  replies : List Reply := []
  /-- Status of every command that ran, by command id. -/
  statuses : List (Nat × Status) := []
  /-- Whether submissions are still taken. -/
  accepting : Bool := true
  /-- Jobs taken and not yet finished by the worker. -/
  running : Nat := 0
  /-- Whether the worker is processing a job. -/
  inFlight : Bool := false
  /-- Whether the worker still takes jobs from its channel. -/
  receiving : Bool := true
  /-- The reporters of the action runs so far, by serial. -/
  reporters : List Reporter := []

namespace Engine

variable {α : Type}

/-- A fresh engine for a valid configuration: the default stack exists and is active, and each
route's scope name is resolved in name order. -/
def create (c : Config) : Except Fault (Engine α) := do
  let r ← c.validate
  let routes ← c.routes.mapM fun (name, stack) => (r.scopeOf name).map (·, stack)
  let fresh : Engine α :=
    { registry := r
      defaultStack := c.defaultStack
      undoLimit := c.undoLimit
      capacity := c.eventCapacity
      histories := [Stack.empty c.defaultStack]
      active := c.defaultStack
      routes := routes }
  return fresh

def publish (e : Engine α) (ev : EngineEvent) : Engine α :=
  { e with events := e.events ++ [ev] }

def stack? (e : Engine α) (id : String) : Option (Stack α) :=
  e.histories.find? (·.id == id)

def activeStack? (e : Engine α) : Option (Stack α) :=
  e.stack? e.active

/-- Changes the stack with an id, creating it empty first if it is missing. -/
def withStack (e : Engine α) (id : String) (f : Stack α → Stack α) : Engine α :=
  if e.histories.any (·.id == id) then
    { e with histories := e.histories.map fun s => if s.id == id then f s else s }
  else { e with histories := e.histories ++ [f (Stack.empty id)] }

def stackIds (e : Engine α) : List String :=
  (e.histories.map (·.id)).mergeSort (fun a b => decide (a ≤ b))

def statusOf (e : Engine α) (command : Nat) : Status :=
  ((e.statuses.find? (·.1 == command)).map (·.2)).getD .pending

def setStatus (e : Engine α) (command : Nat) (s : Status) : Engine α :=
  { e with statuses := (command, s) :: e.statuses.filter (·.1 != command) }

/-- The stack a command goes to: its explicit stack, else the first route meeting its scope
unless that scope is the wildcard, else the active stack. -/
def resolve (e : Engine α) (c : Command α) : String :=
  match c.stack with
  | some s => s
  | none =>
    if c.scope.isAll then e.active
    else match e.routes.find? (fun (s, _) => s.meets c.scope) with
      | some (_, stack) => stack
      | none => e.active

/-- Hands out a ticket and sends the task that `build` makes to the worker; a refused task still
uses up its ticket. A task counts as running from just before it is sent; when the worker no longer
takes jobs the send fails, the count goes back and the task's pending entry is dropped. After a
shutdown nothing is taken and no ticket is used. -/
def submit (e : Engine α) (build : Engine α → Nat → Except Fault (Engine α × Task α)) :
    Engine α × Except Fault Nat :=
  if !e.accepting then (e, .error .engineShutdown)
  else
    let ticket := e.nextTicket
    let e := { e with nextTicket := ticket + 1 }
    match build e ticket with
    | .error f => (e, .error f)
    | .ok (e', task) =>
      let e' := { e' with running := e'.running + 1 }
      if e'.receiving then
        ({ e' with queue := e'.queue ++ [{ ticket := ticket, generation := e'.generation, task := task }] },
          .ok ticket)
      else
        ({ e' with running := e'.running - 1, pending := e'.pending.filter (·.ticket != ticket) },
          .error .engineShutdown)

/-- Submits a command: its scope must be registered, and it waits on the stack it resolves to. -/
def enqueue (e : Engine α) (c : Command α) : Engine α × Except Fault Nat :=
  e.submit fun e ticket => do
    e.registry.validate c.scope
    let stack := e.resolve c
    return ({ e with pending := e.pending ++ [{ ticket := ticket, text := c.text, scope := c.scope, stack := stack }] },
      .execute c stack)

def checkFilter (e : Engine α) : Option Scope → Except Fault Unit
  | some f => e.registry.validate f
  | none => .ok ()

/-- Submits an undo, of the active stack or, with a filter, of the stack touched last whose next
undo the filter selects. -/
def undo (e : Engine α) (filter : Option Scope) : Engine α × Except Fault Nat :=
  e.submit fun e _ => do e.checkFilter filter; return (e, .undo filter)

def redo (e : Engine α) (filter : Option Scope) : Engine α × Except Fault Nat :=
  e.submit fun e _ => do e.checkFilter filter; return (e, .redo filter)

def jump (e : Engine α) (target : Option Nat) : Engine α × Except Fault Nat :=
  e.submit fun e _ => .ok (e, .jump target)

/-- Empties every stack, drops pending commands and starts a new generation, so that jobs
submitted before are cancelled. -/
def clear (e : Engine α) : Engine α :=
  { e with
    generation := e.generation + 1
    pending := []
    histories := e.histories.map Stack.clear }
    |>.publish .stateChanged

def setUndoLimit (e : Engine α) (limit : Nat) : Engine α :=
  let trimmed := e.histories.map (·.truncate limit)
  let e' := { e with undoLimit := limit, histories := trimmed.map (·.1) }
  if trimmed.any (·.2 > 0) then e'.publish .stateChanged else e'

/-- Makes a stack active, the default one for `none`, creating it if needed. -/
def setActive (e : Engine α) (stack : Option String) : Engine α :=
  let target := stack.getD e.defaultStack
  { e.withStack target (fun s => s) with active := target } |>.publish .stateChanged

/-- Routes commands of a scope to a stack; the scope must be registered, specific and non-empty,
and replaces an earlier route of the same scope. -/
def route (e : Engine α) (scope : Scope) (stack : String) : Except Fault (Engine α) := do
  e.registry.validate scope
  if scope.isAll || scope.isEmpty then throw (.validation "routes need a specific, non-empty scope")
  return { e with routes := e.routes.filter (·.1 != scope) ++ [(scope, stack)] }

/-- Texts of pending commands bound for the active stack that a filter selects. -/
def queued (e : Engine α) (filter : Scope) : List String :=
  (e.pending.filter fun p => p.stack == e.active && filter.meets p.scope).map (·.text)

def isRunning (e : Engine α) : Bool :=
  decide (0 < e.running)

def activity (e : Engine α) : Activity :=
  if e.inFlight then .executing else if e.isRunning then .scheduling else .idle

def shutdown (e : Engine α) : Engine α :=
  { e with accepting := false }

/-- The worker's task ends while it waits on an empty channel, as when the runtime it runs on stops:
from then on nothing takes jobs from the channel. -/
def halt (e : Engine α) : Engine α :=
  if e.busy.isNone && e.queue.isEmpty then { e with receiving := false } else e

def reporterOpen (e : Engine α) (k : Nat) : Bool :=
  (e.reporters[k]?.map (·.isOpen)).getD false

def close (e : Engine α) (k : Nat) : Engine α :=
  { e with reporters := e.reporters.modify k fun r => { r with isOpen := false } }

/-- Changes the count of the held clones of the reporter of serial `k`. -/
def countClones (e : Engine α) (k : Nat) (f : Nat → Nat) : Engine α :=
  { e with reporters := e.reporters.modify k fun r => { r with held := f r.held } }

/-- Passes a report to the handle of the job of a ticket, while that job is in flight. -/
def forward (e : Engine α) (ticket : Nat) (ev : ProgressEvent) : Engine α :=
  { e with busy := e.busy.map fun b => if b.ticket = ticket then { b with progress := b.progress ++ [ev] } else b }

/-- What is done with the reporter of serial `k`. A report gets through only while the reporter is
open: it is published and passed to its job's handle. A clone can be kept only while the reporter is
open, that is from within its run; letting a kept clone go leaves the reporter as it is. -/
def handle (e : Engine α) (k : Nat) : Handling → Engine α
  | .emit ev =>
    match e.reporters[k]? with
    | some r => if r.isOpen then (e.publish (.progress r.command ev)).forward r.ticket ev else e
    | none => e
  | .keep => if e.reporterOpen k then e.countClones k (· + 1) else e
  | .release => e.countClones k (· - 1)

def reply? (e : Engine α) (ticket : Nat) : Option Reply :=
  e.replies.find? (·.ticket == ticket)

end Engine

end ScopedUndo
