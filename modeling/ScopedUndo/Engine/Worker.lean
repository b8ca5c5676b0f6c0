import ScopedUndo.Engine.Basic
/-!
# The worker

The worker takes jobs in ticket order and runs one at a time. A job goes until it must run an
action and then waits in `busy`, the run holding a reporter of its own; `resume` hands it the
reports the run made and its outcome, closes the reporter and carries the job on.
Between the two, callers may change the state, so a run's effects are checked again when it
returns: a command is recorded only if the generation is unchanged, and a cursor moves only if
the command still sits next to it.

A job from an older generation is cancelled without running anything. An undo (redo) publishes
its start, runs the reverse (forward) action, moves the cursor on success, and publishes its end
and its completion; a jump walks one undo or redo at a time and stops at the first failure.
-/

namespace ScopedUndo

namespace Engine

variable {α : Type}

/-- Ends the job in progress with a result: the worker is no longer processing it and counts it as
finished. -/
def finish (e : Engine α) (ticket : Nat) (result : Except Fault Value)
    (progress : List ProgressEvent) : Engine α :=
  let reply : Reply := { ticket := ticket, result := result, progress := progress }
  { e with busy := none, inFlight := false, running := e.running - 1, replies := e.replies ++ [reply] }

/-- Stops the job at an action run, which is handed a new reporter. A run that does anything marks
its command running. -/
def await (e : Engine α) (ticket generation : Nat) (call : Call α) (sequel : Sequel)
    (progress : List ProgressEvent) : Engine α :=
  let c := call.command
  let previous := e.statusOf c.id
  let e := if c.skips call.operation.direction then e else e.setStatus c.id .running
  let job : Busy α :=
    { ticket := ticket
      generation := generation
      call := call
      sequel := sequel
      previous := previous
      progress := progress
      reporter := e.reporters.length }
  { e with busy := some job, reporters := e.reporters ++ [{ ticket := ticket, command := c.id }] }

def jumpAnswer (target : Option Nat) : Value :=
  .obj [("current_index", match target with
    | some i => .int i
    | none => .null)]

/-- The next step of a jump's walk toward `wanted` done commands: an undo while more are done,
a redo while fewer are, the answer once there. -/
def walk (e : Engine α) (ticket generation : Nat) (stack : String) (wanted : Nat)
    (target : Option Nat) (progress : List ProgressEvent) : Engine α :=
  match e.stack? stack with
  | none => e.finish ticket (.ok (jumpAnswer target)) progress
  | some s =>
    if s.applied > wanted then
      match s.undoCommand? with
      | none => e.finish ticket (.error .noMoreUndos) progress
      | some c =>
        (e.publish (.undoing c.scope true)).await ticket generation ⟨c, .undo⟩
          (.walk stack wanted target) progress
    else if s.applied < wanted then
      match s.redoCommand? with
      | none => e.finish ticket (.error .noMoreRedos) progress
      | some c =>
        (e.publish (.redoing c.scope true)).await ticket generation ⟨c, .redo⟩
          (.walk stack wanted target) progress
    else e.finish ticket (.ok (jumpAnswer target)) progress

/-- The stack and command an undo (with `pick := Stack.undoCommand?`) or a redo acts on:
without a filter the active stack's; with one, among the stacks whose command the filter
selects, the one touched last. -/
def target (e : Engine α) (filter : Option Scope) (pick : Stack α → Option (Command α)) :
    Option (String × Command α) :=
  match filter with
  | none => e.activeStack?.bind fun s => (pick s).map (s.id, ·)
  | some f =>
    let options := e.histories.filterMap fun s =>
      (pick s).bind fun c => if f.meets c.scope then some (s, c) else none
    let best := options.foldl (fun best o => match best with
      | some b => if b.1.touched ≤ o.1.touched then some o else some b
      | none => some o) none
    best.map fun (s, c) => (s.id, c)

def begin (e : Engine α) (job : Job α) : Engine α :=
  if job.generation != e.generation then e.finish job.ticket (.error .cancelled) []
  else
    match job.task with
    | .execute c stack =>
      { e with pending := e.pending.filter (·.ticket != job.ticket) }.await job.ticket
        job.generation ⟨c, .execute⟩ (.record stack) []
    | .undo filter =>
      match e.target filter Stack.undoCommand? with
      | none => e.finish job.ticket (.error .noMoreUndos) []
      | some (stack, c) =>
        (e.publish (.undoing c.scope true)).await job.ticket job.generation ⟨c, .undo⟩
          (.step stack) []
    | .redo filter =>
      match e.target filter Stack.redoCommand? with
      | none => e.finish job.ticket (.error .noMoreRedos) []
      | some (stack, c) =>
        (e.publish (.redoing c.scope true)).await job.ticket job.generation ⟨c, .redo⟩
          (.step stack) []
    | .jump target =>
      let count := (e.activeStack?.map (·.count)).getD 0
      match target with
      | some i =>
        if i ≥ count then e.finish job.ticket (.error (.indexOutOfRange i count)) []
        else e.walk job.ticket job.generation e.active (i + 1) target []
      | none => e.walk job.ticket job.generation e.active 0 target []

def pickUp (e : Engine α) : Engine α :=
  match e.busy, e.queue with
  | none, job :: rest => { e with queue := rest, inFlight := true }.begin job
  | _, _ => e

/-- Records an executed command: it is pushed, the stack is trimmed to the limit, and the stack
is touched with a fresh sequence number. -/
def record (e : Engine α) (stack : String) (c : Command α) : Engine α :=
  let sequence := e.sequence + 1
  { e with sequence }.withStack stack fun s => ((s.push c).truncate e.undoLimit).1.touch sequence

/-- Moves a stack's cursor over a command that just ran, provided no clear happened and the
command is still the cursor's neighbour on that side; says whether the cursor moved. -/
def moveCursor (e : Engine α) (generation : Nat) (stack : String) (c : Command α)
    (forward : Bool) : Engine α × Bool :=
  if e.generation != generation then (e, false)
  else
    let sequence := e.sequence + 1
    let e := { e with sequence }
    match e.stack? stack with
    | none => (e, false)
    | some s =>
      let neighbour := if forward then s.redoCommand? else s.undoCommand?
      if (neighbour.map (·.id)) != some c.id then (e, false)
      else
        let (s', moved) := if forward then s.stepForward else s.stepBackward
        ({ e with histories := e.histories.map fun t => if t.id == stack then s'.touch sequence else t },
          moved)

def closing (op : Operation) (scope : Scope) : EngineEvent :=
  if op == .undo then .undoing scope false else .redoing scope false

/-- The engine once the run of a job returned: the reports the run made on its reporter are
published, the reporter is closed and, unless the run was skipped, its command's status moves. -/
def afterRun (e : Engine α) (b : Busy α) (reports : List ProgressEvent) (ok : Bool) : Engine α :=
  let c := b.call.command
  let op := b.call.operation
  let e := (reports.foldl (fun e r => e.publish (.progress c.id r)) e).close b.reporter
  if c.skips op.direction then e else e.setStatus c.id (b.previous.finish ok op.direction.success)

/-- Carries the job on after its action run returned `reports` and `outcome`. -/
def resume (e : Engine α) (reports : List ProgressEvent) (outcome : Outcome) : Engine α :=
  match e.busy with
  | none => e
  | some b =>
    let c := b.call.command
    let op := b.call.operation
    let progress := b.progress ++ reports
    let result := c.settle outcome
    let ok := outcome.isOk
    let e := e.afterRun b reports ok
    let error := match result with
      | .ok _ => none
      | .error f => some f.message
    match b.sequel with
    | .record stack =>
      let recorded := ok && !c.isQuery && e.generation == b.generation
      let e := if recorded then e.record stack c else e
      let e := e.publish (.completed c.id c.text op error)
      let e := if recorded then e.publish .stateChanged else e
      e.finish b.ticket result progress
    | .step stack =>
      let (e, moved) := if ok then e.moveCursor b.generation stack c (op == .redo) else (e, false)
      let e := (e.publish (closing op c.scope)).publish (.completed c.id c.text op error)
      let e := if moved then e.publish .stateChanged else e
      e.finish b.ticket result progress
    | .walk stack wanted target =>
      let (e, moved) := if ok then e.moveCursor b.generation stack c (op == .redo) else (e, false)
      let e := (e.publish (closing op c.scope)).publish (.completed c.id c.text op error)
      let e := if moved then e.publish .stateChanged else e
      match result with
      | .error f => e.finish b.ticket (.error f) progress
      | .ok _ =>
        if e.generation != b.generation then e.finish b.ticket (.error .cancelled) progress
        else e.walk b.ticket b.generation stack wanted target progress

def totalCommands (e : Engine α) : Nat :=
  e.histories.foldl (fun n s => n + s.count) 0

/-- A bound on the worker's steps until the queue is empty: each job is taken up once and makes
at most one run more than the commands a stack can hold while it runs. -/
def workBound (e : Engine α) : Nat :=
  (e.queue.length + 1) * (e.totalCommands + e.queue.length + 4)

/-- Runs the worker, with `run` performing action runs on a world, until nothing is left or the
next run is one that `hold` keeps back; `fuel` bounds the steps. -/
def workFor {σ : Type} (run : σ → Command α → Direction → σ × List ProgressEvent × Outcome)
    (hold : Call α → Bool) : Nat → σ → Engine α → σ × Engine α
  | 0, w, e => (w, e)
  | fuel + 1, w, e =>
    match e.busy with
    | some b =>
      if hold b.call then (w, e)
      else
        let c := b.call.command
        let d := b.call.operation.direction
        let (w', reports, outcome) := if c.skips d then (w, [], .ok .null) else run w c d
        workFor run hold fuel w' (e.resume reports outcome)
    | none =>
      if e.queue.isEmpty then (w, e) else workFor run hold fuel w e.pickUp

def work {σ : Type} (run : σ → Command α → Direction → σ × List ProgressEvent × Outcome)
    (hold : Call α → Bool) (w : σ) (e : Engine α) : σ × Engine α :=
  workFor run hold e.workBound w e

end Engine

end ScopedUndo
