import ScopedUndo.Engine.Worker
import ScopedUndo.Proofs.Cursor
import Mathlib.Data.List.Nodup
/-!
# The engine as a state machine

Everything that can happen to an engine is an `Engine.Input`: an operation of a caller, or a step
of the worker, which either takes up the next queued job or hands the job it waits on the result of
its action run. A run is any list of inputs, so any interleaving of callers and worker is one, and
the outcome of every action run is a free choice of the run.

Beside the state, a run leaves a trace of `Deed`s: the action runs the worker completed, each with
the stack it was for, and the done commands that trimming or clearing removed from the front of a
history. The history laws are stated over this trace.

The rest of the module says once what each worker function can do, so that the invariants never
unfold `begin`, `walk` or `resume`: `walk_cases` and `begin_cases` list the ways a job is started,
and the `resume` lemmas give the new histories, the new status of the command that ran, and the job
the worker goes on with.
-/

namespace ScopedUndo

def Sequel.stack : Sequel → String
  | .record stack => stack
  | .step stack => stack
  | .walk stack _ _ => stack

theorem Command.settle_isOk {α : Type} (c : Command α) (o : Outcome) :
    (c.settle o matches .ok _) = o.isOk := by
  cases o with
  | ok v => rfl
  | fail f =>
      simp only [Command.settle, Outcome.isOk]
      split_ifs <;> rfl
  | panic payload => rfl

namespace Engine

variable {α : Type}

/-- One thing that can happen to an engine: an operation of a caller, or a step of its worker. -/
inductive Input (α : Type) where
  | enqueue (c : Command α)
  | undo (filter : Option Scope)
  | redo (filter : Option Scope)
  | jump (target : Option Nat)
  | clear
  | setUndoLimit (limit : Nat)
  | setActive (stack : Option String)
  | route (scope : Scope) (stack : String)
  | shutdown
  /-- The worker takes up the next queued job, when it is free. -/
  | pickUp
  /-- The action run the worker waits on returns these reports and this outcome. -/
  | resume (reports : List ProgressEvent) (outcome : Outcome)
  /-- A reporter, or a clone of it, is used: at any moment, from any thread. -/
  | reporter (serial : Nat) (act : Handling)
  /-- The worker's task ends while it waits for a job. -/
  | halt

/-- Whether an input is an operation of a caller rather than something the worker, its actions or
its task do. -/
def Input.isCaller : Input α → Bool
  | .pickUp => false
  | .resume _ _ => false
  | .reporter _ _ => false
  | .halt => false
  | _ => true

/-- The engine after an input. A refused route leaves the engine as it was; a refused submission
leaves what the submission itself keeps, a used ticket. -/
def apply (e : Engine α) : Input α → Engine α
  | .enqueue c => (e.enqueue c).1
  | .undo filter => (e.undo filter).1
  | .redo filter => (e.redo filter).1
  | .jump target => (e.jump target).1
  | .clear => e.clear
  | .setUndoLimit limit => e.setUndoLimit limit
  | .setActive stack => e.setActive stack
  | .route scope stack =>
      match e.route scope stack with
      | .ok e' => e'
      | .error _ => e
  | .shutdown => e.shutdown
  | .pickUp => e.pickUp
  | .resume reports outcome => e.resume reports outcome
  | .reporter serial act => e.handle serial act
  | .halt => e.halt

def run (e : Engine α) (xs : List (Input α)) : Engine α :=
  xs.foldl apply e

@[simp] theorem run_nil (e : Engine α) : e.run [] = e := rfl

@[simp] theorem run_cons (e : Engine α) (x : Input α) (xs : List (Input α)) :
    e.run (x :: xs) = (e.apply x).run xs := rfl

theorem run_append (e : Engine α) (xs ys : List (Input α)) :
    e.run (xs ++ ys) = (e.run xs).run ys := by
  simp [run, List.foldl_append]

/-- What happened to the histories in a step, as the history laws count it. -/
inductive Deed (α : Type) where
  /-- An action run for a stack returned, in a generation, with or without success. -/
  | ran (generation : Nat) (stack : String) (command : Command α) (direction : Direction)
      (ok : Bool)
  /-- Done commands left a stack's history from its front. -/
  | shed (stack : String) (commands : List (Command α))

/-- The stack with an id, or an empty one of that id when there is none yet. -/
def stackOrEmpty (e : Engine α) (id : String) : Stack α :=
  (e.stack? id).getD (Stack.empty id)

/-- The deeds of an input: the run a resumed job completed (a skipped run is none), the trimming
of the stack a command is recorded on, and what a new limit or a clear removes. -/
def deeds (e : Engine α) : Input α → List (Deed α)
  | .clear => e.histories.map fun s => .shed s.id s.done
  | .setUndoLimit limit => e.histories.map fun s => .shed s.id (s.trimmedFront limit)
  | .resume _ outcome =>
      match e.busy with
      | none => []
      | some b =>
          let c := b.call.command
          let d := b.call.operation.direction
          if c.skips d then []
          else
            let ran := Deed.ran e.generation b.sequel.stack c d outcome.isOk
            match b.sequel with
            | .record stack =>
                if outcome.isOk && !c.isQuery && e.generation == b.generation then
                  [ran, .shed stack (((e.stackOrEmpty stack).push c).trimmedFront e.undoLimit)]
                else [ran]
            | _ => [ran]
  | _ => []

def trace (e : Engine α) : List (Input α) → List (Deed α)
  | [] => []
  | x :: xs => e.deeds x ++ (e.apply x).trace xs

theorem trace_append (e : Engine α) (xs ys : List (Input α)) :
    e.trace (xs ++ ys) = e.trace xs ++ (e.run xs).trace ys := by
  induction xs generalizing e with
  | nil => rfl
  | cons x xs ih => simp [trace, ih]

/-! ### What the worker leaves alone -/

/-- Two engines agree on what only callers change: the registry, the default and active stacks,
the limit, the routes, the generation and the next ticket. -/
structure SameSetup (e e' : Engine α) : Prop where
  registry : e'.registry = e.registry
  defaultStack : e'.defaultStack = e.defaultStack
  undoLimit : e'.undoLimit = e.undoLimit
  active : e'.active = e.active
  routes : e'.routes = e.routes
  generation : e'.generation = e.generation
  nextTicket : e'.nextTicket = e.nextTicket

theorem SameSetup.refl (e : Engine α) : SameSetup e e := ⟨rfl, rfl, rfl, rfl, rfl, rfl, rfl⟩

theorem SameSetup.trans {e₁ e₂ e₃ : Engine α} (h₁ : SameSetup e₁ e₂) (h₂ : SameSetup e₂ e₃) :
    SameSetup e₁ e₃ :=
  ⟨h₂.registry.trans h₁.registry, h₂.defaultStack.trans h₁.defaultStack,
    h₂.undoLimit.trans h₁.undoLimit, h₂.active.trans h₁.active, h₂.routes.trans h₁.routes,
    h₂.generation.trans h₁.generation, h₂.nextTicket.trans h₁.nextTicket⟩

/-- Two engines agree on the worker's bookkeeping: the queue, the job in flight, the running count
and whether a job is in flight. What a returned run does before its job ends or goes on keeps it. -/
structure SameJobs (e e' : Engine α) : Prop where
  queue : e'.queue = e.queue
  busy : e'.busy = e.busy
  running : e'.running = e.running
  inFlight : e'.inFlight = e.inFlight

theorem SameJobs.trans {e₁ e₂ e₃ : Engine α} (h₁ : SameJobs e₁ e₂) (h₂ : SameJobs e₂ e₃) :
    SameJobs e₁ e₃ :=
  ⟨h₂.queue.trans h₁.queue, h₂.busy.trans h₁.busy, h₂.running.trans h₁.running,
    h₂.inFlight.trans h₁.inFlight⟩

theorem SameJobs.withEvents {e e' : Engine α} (h : SameJobs e e') (evs : List EngineEvent) :
    SameJobs e { e' with events := evs } :=
  ⟨h.queue, h.busy, h.running, h.inFlight⟩

theorem SameJobs.publish (e : Engine α) (ev : EngineEvent) : SameJobs e (e.publish ev) :=
  ⟨rfl, rfl, rfl, rfl⟩

/-- Two engines agree on the worker's books: its jobs and count, the pending list, the replies and
the reporters. -/
structure SameBooks (e e' : Engine α) : Prop where
  jobs : SameJobs e e'
  pending : e'.pending = e.pending
  replies : e'.replies = e.replies
  reporters : e'.reporters = e.reporters

theorem SameBooks.trans {e₁ e₂ e₃ : Engine α} (h₁ : SameBooks e₁ e₂) (h₂ : SameBooks e₂ e₃) :
    SameBooks e₁ e₃ :=
  ⟨h₁.jobs.trans h₂.jobs, h₂.pending.trans h₁.pending, h₂.replies.trans h₁.replies,
    h₂.reporters.trans h₁.reporters⟩

theorem SameBooks.withEvents {e e' : Engine α} (h : SameBooks e e') (evs : List EngineEvent) :
    SameBooks e { e' with events := evs } :=
  ⟨h.jobs.withEvents evs, h.pending, h.replies, h.reporters⟩

theorem SameBooks.publish (e : Engine α) (ev : EngineEvent) : SameBooks e (e.publish ev) :=
  ⟨SameJobs.publish e ev, rfl, rfl, rfl⟩

@[simp] theorem histories_publish (e : Engine α) (ev : EngineEvent) :
    (e.publish ev).histories = e.histories := rfl

@[simp] theorem busy_publish (e : Engine α) (ev : EngineEvent) : (e.publish ev).busy = e.busy := rfl

@[simp] theorem queue_publish (e : Engine α) (ev : EngineEvent) : (e.publish ev).queue = e.queue := rfl

@[simp] theorem statuses_publish (e : Engine α) (ev : EngineEvent) :
    (e.publish ev).statuses = e.statuses := rfl

@[simp] theorem pending_publish (e : Engine α) (ev : EngineEvent) : (e.publish ev).pending = e.pending :=
  rfl

@[simp] theorem replies_publish (e : Engine α) (ev : EngineEvent) : (e.publish ev).replies = e.replies :=
  rfl

@[simp] theorem stack?_publish (e : Engine α) (ev : EngineEvent) (id : String) :
    (e.publish ev).stack? id = e.stack? id := rfl

@[simp] theorem statusOf_publish (e : Engine α) (ev : EngineEvent) (id : Nat) :
    (e.publish ev).statusOf id = e.statusOf id := rfl

@[simp] theorem generation_publish (e : Engine α) (ev : EngineEvent) :
    (e.publish ev).generation = e.generation := rfl

@[simp] theorem active_publish (e : Engine α) (ev : EngineEvent) : (e.publish ev).active = e.active := rfl

@[simp] theorem reporters_publish (e : Engine α) (ev : EngineEvent) :
    (e.publish ev).reporters = e.reporters := rfl

@[simp] theorem histories_finish (e : Engine α) (t : Nat) (r : Except Fault Value)
    (p : List ProgressEvent) : (e.finish t r p).histories = e.histories := rfl

@[simp] theorem busy_finish (e : Engine α) (t : Nat) (r : Except Fault Value)
    (p : List ProgressEvent) : (e.finish t r p).busy = none := rfl

@[simp] theorem queue_finish (e : Engine α) (t : Nat) (r : Except Fault Value)
    (p : List ProgressEvent) : (e.finish t r p).queue = e.queue := rfl

@[simp] theorem statuses_finish (e : Engine α) (t : Nat) (r : Except Fault Value)
    (p : List ProgressEvent) : (e.finish t r p).statuses = e.statuses := rfl

theorem SameSetup.publish (e : Engine α) (ev : EngineEvent) : SameSetup e (e.publish ev) :=
  ⟨rfl, rfl, rfl, rfl, rfl, rfl, rfl⟩

theorem SameSetup.finish (e : Engine α) (t : Nat) (r : Except Fault Value) (p : List ProgressEvent) :
    SameSetup e (e.finish t r p) :=
  ⟨rfl, rfl, rfl, rfl, rfl, rfl, rfl⟩

@[simp] theorem running_finish (e : Engine α) (t : Nat) (r : Except Fault Value)
    (p : List ProgressEvent) : (e.finish t r p).running = e.running - 1 := rfl

@[simp] theorem inFlight_finish (e : Engine α) (t : Nat) (r : Except Fault Value)
    (p : List ProgressEvent) : (e.finish t r p).inFlight = false := rfl

theorem SameSetup.setStatus (e : Engine α) (id : Nat) (st : Status) :
    SameSetup e (e.setStatus id st) :=
  ⟨rfl, rfl, rfl, rfl, rfl, rfl, rfl⟩

@[simp] theorem histories_setStatus (e : Engine α) (id : Nat) (st : Status) :
    (e.setStatus id st).histories = e.histories := rfl

@[simp] theorem busy_setStatus (e : Engine α) (id : Nat) (st : Status) :
    (e.setStatus id st).busy = e.busy := rfl

@[simp] theorem queue_setStatus (e : Engine α) (id : Nat) (st : Status) :
    (e.setStatus id st).queue = e.queue := rfl

@[simp] theorem reporters_setStatus (e : Engine α) (id : Nat) (st : Status) :
    (e.setStatus id st).reporters = e.reporters := rfl

theorem statusOf_setStatus (e : Engine α) (id : Nat) (st : Status) (x : Nat) :
    (e.setStatus id st).statusOf x = if x = id then st else e.statusOf x := by
  unfold statusOf setStatus
  by_cases hx : x = id
  · subst hx
    simp
  · have hne : (id == x) = false := by simp [Ne.symm hx]
    -- the entries of other commands survive the filter unchanged
    have hkeep : (fun a : Nat × Status => decide ((a.1 != id) = true ∧ (a.1 == x) = true))
        = (fun a => a.1 == x) := by
      funext a
      by_cases ha : a.1 = x <;> simp [ha, hx]
    simp only [List.find?_cons, hne, if_neg hx, List.find?_filter, hkeep]

/-- The job the worker stops at an action run: what the run is for, and the status its command had
before it. A run that does something marks its command running. -/
theorem await_eq (e : Engine α) (t g : Nat) (call : Call α) (sq : Sequel) (p : List ProgressEvent) :
    e.await t g call sq p =
      { (if call.command.skips call.operation.direction then e
          else e.setStatus call.command.id .running) with
        busy := some ⟨t, g, call, sq, e.statusOf call.command.id, p, e.reporters.length⟩
        reporters := e.reporters ++ [{ ticket := t, command := call.command.id }] } := by
  by_cases hskip : call.command.skips call.operation.direction <;> simp [await, hskip]

@[simp] theorem histories_await (e : Engine α) (t g : Nat) (call : Call α) (sq : Sequel)
    (p : List ProgressEvent) : (e.await t g call sq p).histories = e.histories := by
  rw [await_eq]
  split_ifs <;> rfl

@[simp] theorem queue_await (e : Engine α) (t g : Nat) (call : Call α) (sq : Sequel)
    (p : List ProgressEvent) : (e.await t g call sq p).queue = e.queue := by
  rw [await_eq]
  split_ifs <;> rfl

@[simp] theorem busy_await (e : Engine α) (t g : Nat) (call : Call α) (sq : Sequel)
    (p : List ProgressEvent) :
    (e.await t g call sq p).busy =
      some ⟨t, g, call, sq, e.statusOf call.command.id, p, e.reporters.length⟩ := by
  rw [await_eq]

@[simp] theorem running_await (e : Engine α) (t g : Nat) (call : Call α) (sq : Sequel)
    (p : List ProgressEvent) : (e.await t g call sq p).running = e.running := by
  rw [await_eq]
  split_ifs <;> rfl

@[simp] theorem inFlight_await (e : Engine α) (t g : Nat) (call : Call α) (sq : Sequel)
    (p : List ProgressEvent) : (e.await t g call sq p).inFlight = e.inFlight := by
  rw [await_eq]
  split_ifs <;> rfl

theorem SameSetup.await (e : Engine α) (t g : Nat) (call : Call α) (sq : Sequel)
    (p : List ProgressEvent) : SameSetup e (e.await t g call sq p) := by
  rw [await_eq]
  split_ifs <;> exact ⟨rfl, rfl, rfl, rfl, rfl, rfl, rfl⟩

/-! ### Reporters and the end of the worker's task -/

theorem map_append_nil (busy : Option (Busy α)) :
    busy.map (fun b => { b with progress := b.progress ++ [] }) = busy := by
  cases busy <;> simp

/-- Using a reporter changes only what is published, the reporters, and the reports the job in
flight has passed to its handle. -/
theorem handle_eq (e : Engine α) (k : Nat) (act : Handling) :
    ∃ evs rs extra, e.handle k act =
      { e with events := evs, reporters := rs
               busy := e.busy.map fun b => { b with progress := b.progress ++ extra } } := by
  have hsame : e = { e with events := e.events, reporters := e.reporters
                            busy := e.busy.map fun b => { b with progress := b.progress ++ [] } } := by
    rw [map_append_nil]
  cases act with
  | emit ev =>
      simp only [handle]
      split
      · rename_i r _
        split_ifs
        · -- the report reaches the job in flight only when that job is the reporter's
          cases hb : e.busy with
          | none => exact ⟨e.events ++ [.progress r.command ev], e.reporters, [], by simp [forward, publish, hb]⟩
          | some b =>
              by_cases ht : b.ticket = r.ticket
              · exact ⟨e.events ++ [.progress r.command ev], e.reporters, [ev],
                  by simp [forward, publish, hb, ht]⟩
              · exact ⟨e.events ++ [.progress r.command ev], e.reporters, [],
                  by simp [forward, publish, hb, ht]⟩
        · exact ⟨_, _, _, hsame⟩
      · exact ⟨_, _, _, hsame⟩
  | keep =>
      simp only [handle]
      split_ifs
      · exact ⟨e.events, (e.countClones k (· + 1)).reporters, [], by rw [map_append_nil]; rfl⟩
      · exact ⟨_, _, _, hsame⟩
  | release => exact ⟨e.events, (e.countClones k (· - 1)).reporters, [], by rw [map_append_nil]; rfl⟩

section handle

variable (e : Engine α) (k : Nat) (act : Handling)

@[simp] theorem histories_handle : (e.handle k act).histories = e.histories := by
  obtain ⟨_, _, _, h⟩ := handle_eq e k act
  rw [h]

@[simp] theorem queue_handle : (e.handle k act).queue = e.queue := by
  obtain ⟨_, _, _, h⟩ := handle_eq e k act
  rw [h]

@[simp] theorem statuses_handle : (e.handle k act).statuses = e.statuses := by
  obtain ⟨_, _, _, h⟩ := handle_eq e k act
  rw [h]

theorem busy_handle {b : Busy α} (h : (e.handle k act).busy = some b) :
    ∃ b₀ extra, e.busy = some b₀ ∧ b = { b₀ with progress := b₀.progress ++ extra } := by
  obtain ⟨_, _, extra, hx⟩ := handle_eq e k act
  rw [hx] at h
  obtain ⟨b₀, hb₀, rfl⟩ := Option.map_eq_some_iff.mp h
  exact ⟨b₀, extra, hb₀, rfl⟩

theorem SameSetup.handle : SameSetup e (e.handle k act) := by
  obtain ⟨_, _, _, h⟩ := handle_eq e k act
  rw [h]
  exact ⟨rfl, rfl, rfl, rfl, rfl, rfl, rfl⟩

end handle

theorem halt_eq (e : Engine α) : ∃ receiving, e.halt = { e with receiving := receiving } := by
  unfold halt
  split_ifs
  · exact ⟨_, rfl⟩
  · exact ⟨e.receiving, rfl⟩

section halt

variable (e : Engine α)

@[simp] theorem histories_halt : e.halt.histories = e.histories := by
  obtain ⟨_, h⟩ := halt_eq e
  rw [h]

@[simp] theorem queue_halt : e.halt.queue = e.queue := by
  obtain ⟨_, h⟩ := halt_eq e
  rw [h]

@[simp] theorem busy_halt : e.halt.busy = e.busy := by
  obtain ⟨_, h⟩ := halt_eq e
  rw [h]

@[simp] theorem statuses_halt : e.halt.statuses = e.statuses := by
  obtain ⟨_, h⟩ := halt_eq e
  rw [h]

theorem SameSetup.halt : SameSetup e e.halt := by
  obtain ⟨_, h⟩ := halt_eq e
  rw [h]
  exact ⟨rfl, rfl, rfl, rfl, rfl, rfl, rfl⟩

end halt

/-! ### How a job starts -/

/-- **The steps of a walk.** A walk either ends, or stops at an undo of the command before the
cursor of its stack, or at a redo of the command after it. -/
theorem walk_cases (e : Engine α) (t g : Nat) (stack : String) (wanted : Nat) (target : Option Nat)
    (p : List ProgressEvent) :
    (∃ r, e.walk t g stack wanted target p = e.finish t r p) ∨
    (∃ s c, e.stack? stack = some s ∧ s.undoCommand? = some c ∧
      e.walk t g stack wanted target p
        = (e.publish (.undoing c.scope true)).await t g ⟨c, .undo⟩ (.walk stack wanted target) p) ∨
    (∃ s c, e.stack? stack = some s ∧ s.redoCommand? = some c ∧
      e.walk t g stack wanted target p
        = (e.publish (.redoing c.scope true)).await t g ⟨c, .redo⟩ (.walk stack wanted target) p) := by
  unfold walk
  split
  · exact .inl ⟨_, rfl⟩
  · rename_i s hs
    split_ifs with hback hforward
    · split
      · exact .inl ⟨_, rfl⟩
      · rename_i c hc
        exact .inr (.inl ⟨s, c, hs, hc, rfl⟩)
    · split
      · exact .inl ⟨_, rfl⟩
      · rename_i c hc
        exact .inr (.inr ⟨s, c, hs, hc, rfl⟩)
    · exact .inl ⟨_, rfl⟩

/-- A fold that at each step keeps its choice or takes the current element ends with the initial
choice or with an element. -/
private theorem foldl_choice_mem {β : Type} (step : Option β → β → Option β)
    (hstep : ∀ best o, step best o = some o ∨ step best o = best) (l : List β) (init : Option β)
    (r : β) (h : l.foldl step init = some r) : init = some r ∨ r ∈ l := by
  induction l generalizing init with
  | nil => exact .inl h
  | cons o l ih =>
      rcases ih _ h with hinit | hmem
      · rcases hstep init o with hnew | hold
        · rw [hnew] at hinit
          exact .inr (by simp_all)
        · exact .inl (hold ▸ hinit)
      · exact .inr (List.mem_cons_of_mem o hmem)

/-- What `target` picks is a stack of the engine with its candidate command, and with a filter the
filter selects that command. -/
theorem target_some {e : Engine α} {f : Option Scope} {pick : Stack α → Option (Command α)} {stack : String}
    {c : Command α} (h : e.target f pick = some (stack, c)) :
    ∃ s ∈ e.histories, s.id = stack ∧ pick s = some c := by
  unfold target at h
  split at h
  · obtain ⟨s, hs, hpick⟩ := Option.bind_eq_some_iff.mp h
    obtain ⟨c', hc', hpair⟩ := Option.map_eq_some_iff.mp hpick
    simp only [Prod.mk.injEq] at hpair
    obtain ⟨rfl, rfl⟩ := hpair
    simp only [activeStack?, stack?] at hs
    exact ⟨s, List.mem_of_find?_eq_some hs, rfl, hc'⟩
  · rename_i g
    obtain ⟨⟨s, c'⟩, hbest, hpair⟩ := Option.map_eq_some_iff.mp h
    simp only [Prod.mk.injEq] at hpair
    obtain ⟨rfl, rfl⟩ := hpair
    refine (foldl_choice_mem _ ?_ _ none _ hbest).elim (fun hnone => by cases hnone) (fun hmem => ?_)
    · -- each step of the fold keeps its best choice or takes the current option
      intro best o
      cases best with
      | none => exact .inl rfl
      | some b =>
          simp only
          split_ifs
          · exact .inl rfl
          · exact .inr rfl
    · obtain ⟨t, ht, hsome⟩ := List.mem_filterMap.mp hmem
      obtain ⟨c'', hc'', hsel⟩ := Option.bind_eq_some_iff.mp hsome
      split_ifs at hsel
      simp only [Option.some.injEq, Prod.mk.injEq] at hsel
      obtain ⟨rfl, rfl⟩ := hsel
      exact ⟨t, ht, rfl, hc''⟩

/-- **How a job starts.** A job is cancelled or ends at once, or, when it is of the current
generation, stops at its first action run: the forward run of an executed command, the run of the
command an undo or a redo targets, or the first step of a walk of the active stack. -/
theorem begin_cases (e : Engine α) (job : Job α) :
    (∃ r, e.begin job = e.finish job.ticket r []) ∨
    (job.generation = e.generation ∧
      ((∃ c stack, job.task = .execute c stack ∧
          e.begin job = { e with pending := e.pending.filter (·.ticket != job.ticket) }.await
            job.ticket job.generation ⟨c, .execute⟩ (.record stack) []) ∨
        (∃ f stack c, job.task = .undo f ∧ e.target f Stack.undoCommand? = some (stack, c) ∧
          e.begin job = (e.publish (.undoing c.scope true)).await job.ticket job.generation
            ⟨c, .undo⟩ (.step stack) []) ∨
        (∃ f stack c, job.task = .redo f ∧ e.target f Stack.redoCommand? = some (stack, c) ∧
          e.begin job = (e.publish (.redoing c.scope true)).await job.ticket job.generation
            ⟨c, .redo⟩ (.step stack) []) ∨
        (∃ wanted target, e.begin job = e.walk job.ticket job.generation e.active wanted target []))) := by
  unfold begin
  split_ifs with hgen
  · exact .inl ⟨_, rfl⟩
  have hsame : job.generation = e.generation := by simpa using hgen
  split
  · rename_i c stack htask
    exact .inr ⟨hsame, .inl ⟨c, stack, htask, rfl⟩⟩
  · rename_i f htask
    split
    · exact .inl ⟨_, rfl⟩
    · rename_i stack c htarget
      exact .inr ⟨hsame, .inr (.inl ⟨f, stack, c, htask, htarget, rfl⟩)⟩
  · rename_i f htask
    split
    · exact .inl ⟨_, rfl⟩
    · rename_i stack c htarget
      exact .inr ⟨hsame, .inr (.inr (.inl ⟨f, stack, c, htask, htarget, rfl⟩))⟩
  · rename_i target htask
    split
    · dsimp only
      split_ifs
      · exact .inl ⟨_, rfl⟩
      · exact .inr ⟨hsame, .inr (.inr (.inr ⟨_, _, rfl⟩))⟩
    · exact .inr ⟨hsame, .inr (.inr (.inr ⟨_, _, rfl⟩))⟩

theorem histories_walk (e : Engine α) (t g : Nat) (stack : String) (wanted : Nat)
    (target : Option Nat) (p : List ProgressEvent) :
    (e.walk t g stack wanted target p).histories = e.histories := by
  rcases walk_cases e t g stack wanted target p with ⟨r, h⟩ | ⟨s, c, -, -, h⟩ | ⟨s, c, -, -, h⟩ <;>
    simp [h]

theorem queue_walk (e : Engine α) (t g : Nat) (stack : String) (wanted : Nat)
    (target : Option Nat) (p : List ProgressEvent) :
    (e.walk t g stack wanted target p).queue = e.queue := by
  rcases walk_cases e t g stack wanted target p with ⟨r, h⟩ | ⟨s, c, -, -, h⟩ | ⟨s, c, -, -, h⟩ <;>
    simp [h]

theorem SameSetup.walk (e : Engine α) (t g : Nat) (stack : String) (wanted : Nat)
    (target : Option Nat) (p : List ProgressEvent) :
    SameSetup e (e.walk t g stack wanted target p) := by
  rcases walk_cases e t g stack wanted target p with ⟨r, h⟩ | ⟨s, c, -, -, h⟩ | ⟨s, c, -, -, h⟩ <;>
    rw [h]
  · exact SameSetup.finish e t r p
  all_goals exact (SameSetup.publish e _).trans (SameSetup.await _ _ _ _ _ _)

theorem histories_begin (e : Engine α) (job : Job α) : (e.begin job).histories = e.histories := by
  rcases begin_cases e job with ⟨r, h⟩ | ⟨-, ⟨c, stack, -, h⟩ | ⟨f, stack, c, -, -, h⟩ |
    ⟨f, stack, c, -, -, h⟩ | ⟨wanted, target, h⟩⟩ <;> rw [h]
  · rfl
  · simp
  · simp
  · simp
  · exact histories_walk e _ _ _ _ _ _

theorem queue_begin (e : Engine α) (job : Job α) : (e.begin job).queue = e.queue := by
  rcases begin_cases e job with ⟨r, h⟩ | ⟨-, ⟨c, stack, -, h⟩ | ⟨f, stack, c, -, -, h⟩ |
    ⟨f, stack, c, -, -, h⟩ | ⟨wanted, target, h⟩⟩ <;> rw [h]
  · rfl
  · simp
  · simp
  · simp
  · exact queue_walk e _ _ _ _ _ _

theorem SameSetup.begin (e : Engine α) (job : Job α) : SameSetup e (e.begin job) := by
  rcases begin_cases e job with ⟨r, h⟩ | ⟨-, ⟨c, stack, -, h⟩ | ⟨f, stack, c, -, -, h⟩ |
    ⟨f, stack, c, -, -, h⟩ | ⟨wanted, target, h⟩⟩ <;> rw [h]
  · exact SameSetup.finish e _ r []
  · have hpending : SameSetup e { e with pending := e.pending.filter (·.ticket != job.ticket) } :=
      ⟨rfl, rfl, rfl, rfl, rfl, rfl, rfl⟩
    exact hpending.trans (SameSetup.await _ _ _ _ _ _)
  · exact (SameSetup.publish e _).trans (SameSetup.await _ _ _ _ _ _)
  · exact (SameSetup.publish e _).trans (SameSetup.await _ _ _ _ _ _)
  · exact SameSetup.walk e _ _ _ _ _ _

theorem pickUp_cases (e : Engine α) :
    e.pickUp = e ∨
      ∃ job rest, e.busy = none ∧ e.queue = job :: rest ∧
        e.pickUp = { e with queue := rest, inFlight := true }.begin job := by
  unfold pickUp
  split
  · rename_i job rest hbusy hqueue
    exact .inr ⟨job, rest, hbusy, hqueue, rfl⟩
  · exact .inl rfl

theorem pickUp_next {e : Engine α} {job : Job α} {rest : List (Job α)} (hbusy : e.busy = none)
    (hqueue : e.queue = job :: rest) : e.pickUp = { e with queue := rest, inFlight := true }.begin job := by
  unfold pickUp
  rw [hbusy, hqueue]

theorem mem_queue_pickUp {e : Engine α} {job : Job α} (h : job ∈ e.pickUp.queue) : job ∈ e.queue := by
  rcases pickUp_cases e with hp | ⟨job', rest, -, hqueue, hp⟩ <;> rw [hp] at h
  · exact h
  · rw [queue_begin] at h
    rw [hqueue]
    exact List.mem_cons_of_mem job' h

theorem histories_pickUp (e : Engine α) : e.pickUp.histories = e.histories := by
  rcases pickUp_cases e with h | ⟨job, rest, -, -, h⟩ <;> rw [h]
  exact histories_begin _ job

theorem SameSetup.pickUp (e : Engine α) : SameSetup e e.pickUp := by
  rcases pickUp_cases e with h | ⟨job, rest, -, -, h⟩ <;> rw [h]
  · exact SameSetup.refl e
  · have hqueue : SameSetup e { e with queue := rest, inFlight := true } :=
      ⟨rfl, rfl, rfl, rfl, rfl, rfl, rfl⟩
    exact hqueue.trans (SameSetup.begin _ job)

/-! ### Looking up stacks -/

theorem mem_of_stack? {e : Engine α} {id : String} {s : Stack α} (h : e.stack? id = some s) :
    s ∈ e.histories ∧ s.id = id := by
  unfold stack? at h
  exact ⟨List.mem_of_find?_eq_some h, by simpa using List.find?_some h⟩

theorem stack?_of_mem {e : Engine α} (hnodup : (e.histories.map Stack.id).Nodup) {s : Stack α}
    (hs : s ∈ e.histories) : e.stack? s.id = some s := by
  unfold stack?
  obtain ⟨t, ht⟩ : ∃ t, e.histories.find? (·.id == s.id) = some t := by
    cases hfind : e.histories.find? (·.id == s.id) with
    | some t => exact ⟨t, rfl⟩
    | none => exact absurd (List.find?_eq_none.mp hfind s hs) (by simp)
  have htid : t.id = s.id := by simpa using List.find?_some ht
  rw [ht, List.inj_on_of_nodup_map hnodup (List.mem_of_find?_eq_some ht) hs htid]

theorem find?_map_id (l : List (Stack α)) (f : Stack α → Stack α) (hf : ∀ t, (f t).id = t.id)
    (x : String) : (l.map f).find? (·.id == x) = (l.find? (·.id == x)).map f := by
  have hsame : ((·.id == x) ∘ f) = (·.id == x) := by
    funext t
    simp [hf]
  rw [List.find?_map, hsame]

theorem stack?_withStack (e : Engine α) (id : String) (f : Stack α → Stack α)
    (hf : ∀ t, (f t).id = t.id) (x : String) :
    (e.withStack id f).stack? x = if x = id then some (f (e.stackOrEmpty id)) else e.stack? x := by
  unfold withStack
  split_ifs with hany hx hx
  · -- the stack exists and is changed in place
    subst hx
    obtain ⟨s, hs⟩ : ∃ s, e.stack? x = some s := by
      cases hfind : e.histories.find? (·.id == x) with
      | some s => exact ⟨s, hfind⟩
      | none =>
          obtain ⟨t, ht, htid⟩ := List.any_eq_true.mp hany
          exact absurd (List.find?_eq_none.mp hfind t ht) (by simpa using htid)
    have hsid := (mem_of_stack? hs).2
    simp only [stack?] at hs ⊢
    rw [find?_map_id _ _ (fun t => by split <;> simp [hf]), hs]
    simp [stackOrEmpty, stack?, hs, hsid]
  · simp only [stack?]
    rw [find?_map_id _ _ (fun t => by split <;> simp [hf])]
    cases hfind : e.histories.find? (·.id == x) with
    | none => rfl
    | some t =>
        have htid : t.id = x := by simpa using List.find?_some hfind
        simp [htid, hx]
  · -- the stack is new and goes last
    subst hx
    have hnone : e.histories.find? (·.id == x) = none :=
      List.find?_eq_none.mpr fun t ht htid => by simp_all
    simp [stack?, List.find?_append, hnone, stackOrEmpty, hf]
  · have hnew : (f (Stack.empty id)).id ≠ x := by simp [hf, Ne.symm hx]
    simp [stack?, List.find?_append, hnew]

theorem ids_map (l : List (Stack α)) (f : Stack α → Stack α) (hf : ∀ t, (f t).id = t.id) :
    (l.map f).map Stack.id = l.map Stack.id := by
  simp [Function.comp_def, hf]

theorem withStack_eq (e : Engine α) (id : String) (f : Stack α → Stack α) :
    e.withStack id f = { e with histories := (e.withStack id f).histories } := by
  unfold withStack
  split_ifs <;> rfl

theorem record_eq (e : Engine α) (stack : String) (c : Command α) :
    e.record stack c =
      { e with sequence := e.sequence + 1, histories := (e.record stack c).histories } := by
  unfold record
  rw [withStack_eq]

theorem moveCursor_eq (e : Engine α) (g : Nat) (stack : String) (c : Command α) (forward : Bool) :
    (e.moveCursor g stack c forward).1 =
      { e with sequence := (e.moveCursor g stack c forward).1.sequence,
               histories := (e.moveCursor g stack c forward).1.histories } := by
  unfold moveCursor
  by_cases hgen : (e.generation != g) = true
  · rw [if_pos hgen]
  rw [if_neg hgen]
  dsimp only
  split
  · rfl
  split_ifs <;> rfl

/-- Recording pushes the command onto its stack, made empty if it is new, trims the stack to the
limit and touches it. -/
theorem stack?_record (e : Engine α) (stack : String) (c : Command α) (x : String) :
    (e.record stack c).stack? x =
      if x = stack then
        some ((((e.stackOrEmpty stack).push c).truncate e.undoLimit).1.touch (e.sequence + 1))
      else e.stack? x :=
  stack?_withStack { e with sequence := e.sequence + 1 } stack _ (fun t => by simp) x

theorem ids_withStack (e : Engine α) (id : String) (f : Stack α → Stack α)
    (hf : ∀ t, (f t).id = t.id) :
    (e.withStack id f).histories.map Stack.id =
      if id ∈ e.histories.map Stack.id then e.histories.map Stack.id
      else e.histories.map Stack.id ++ [id] := by
  unfold withStack
  split_ifs with hany hmem hmem
  · exact ids_map _ _ (fun t => by split <;> simp [hf])
  · obtain ⟨t, ht, htid⟩ := List.any_eq_true.mp hany
    exact absurd (List.mem_map.mpr ⟨t, ht, by simpa using htid⟩) hmem
  · obtain ⟨t, ht, htid⟩ := List.mem_map.mp hmem
    exact absurd (List.any_eq_true.mpr ⟨t, ht, by simpa using htid⟩) hany
  · simp [hf]

/-- **How a cursor moves.** Either nothing changes, or no clear intervened, the command is still
next to the cursor on the side it ran from, and the cursor steps over it. -/
theorem moveCursor_cases (e : Engine α) (g : Nat) (stack : String) (c : Command α) (forward : Bool) :
    ((e.moveCursor g stack c forward).1.histories = e.histories ∧
        (e.moveCursor g stack c forward).2 = false) ∨
      (e.generation = g ∧ ∃ s, e.stack? stack = some s ∧
        (if forward then s.redoCommand? else s.undoCommand?).map (·.id) = some c.id ∧
        (e.moveCursor g stack c forward).2 = true ∧
        (e.moveCursor g stack c forward).1.histories.map Stack.id = e.histories.map Stack.id ∧
        ∀ x, (e.moveCursor g stack c forward).1.stack? x =
          if x = stack then
            some ((if forward then s.stepForward else s.stepBackward).1.touch (e.sequence + 1))
          else e.stack? x) := by
  by_cases hgen : e.generation = g
  swap
  · exact .inl ⟨by simp [moveCursor, hgen], by simp [moveCursor, hgen]⟩
  unfold moveCursor
  rw [if_neg (by simp [hgen])]
  dsimp only
  split
  · exact .inl ⟨rfl, rfl⟩
  rename_i s hs
  have hsid := (mem_of_stack? hs).2
  by_cases hne : ((if forward then s.redoCommand? else s.undoCommand?).map (·.id) != some c.id) = true
  · rw [if_pos hne]
    exact .inl ⟨rfl, rfl⟩
  rw [if_neg hne]
  have hneighbour : (if forward then s.redoCommand? else s.undoCommand?).map (·.id) = some c.id := by
    simpa using hne
  obtain ⟨s', moved, hsm⟩ : ∃ s' moved,
      (if forward then s.stepForward else s.stepBackward) = (s', moved) := ⟨_, _, rfl⟩
  have hmoved : moved = true := by
    obtain ⟨c', hc', -⟩ := Option.map_eq_some_iff.mp hneighbour
    cases forward with
    | true => simp_all [Stack.stepForward_of_redoCommand? hc']
    | false => simp_all [Stack.stepBackward_of_undoCommand? hc']
  have hs'id : s'.id = stack := by
    have hfst : (if forward then s.stepForward else s.stepBackward).1.id = s'.id := by rw [hsm]
    rw [← hfst, ← hsid]
    cases forward <;> simp
  have hid : ∀ t : Stack α, (if t.id == stack then s'.touch (e.sequence + 1) else t).id = t.id := by
    intro t
    split
    · simp_all
    · rfl
  have hfst : (if forward then s.stepForward else s.stepBackward).1 = s' := by rw [hsm]
  rw [hsm]
  refine .inr ⟨hgen, s, hs, hneighbour, hmoved, ids_map _ _ hid, fun x => ?_⟩
  simp only [stack?]
  rw [find?_map_id _ _ hid, hfst]
  by_cases hx : x = stack
  · rw [if_pos hx]
    subst hx
    simp only [stack?] at hs
    simp [hs, hsid]
  · rw [if_neg hx]
    cases hfind : e.histories.find? (·.id == x) with
    | none => rfl
    | some t =>
        have htid : t.id = x := by simpa using List.find?_some hfind
        simp [htid, hx]

/-! ### How a job goes on after its run -/

@[simp] theorem statuses_close (e : Engine α) (k : Nat) : (e.close k).statuses = e.statuses := rfl

@[simp] theorem events_close (e : Engine α) (k : Nat) : (e.close k).events = e.events := rfl

@[simp] theorem reporters_close (e : Engine α) (k : Nat) :
    (e.close k).reporters = e.reporters.modify k fun r => { r with isOpen := false } := rfl

theorem foldl_publish (e : Engine α) (f : ProgressEvent → EngineEvent) (reports : List ProgressEvent) :
    reports.foldl (fun e r => e.publish (f r)) e = { e with events := e.events ++ reports.map f } := by
  induction reports generalizing e with
  | nil => simp
  | cons r rs ih =>
      rw [List.foldl_cons, ih]
      simp [publish]

/-- Publishing a run's reports, closing its reporter and moving its command's status changes the
events, the reporters and the statuses only. -/
theorem afterRun_eq (e : Engine α) (b : Busy α) (reports : List ProgressEvent) (ok : Bool) :
    e.afterRun b reports ok = { e with events := (e.afterRun b reports ok).events,
                                       statuses := (e.afterRun b reports ok).statuses,
                                       reporters := (e.close b.reporter).reporters } := by
  unfold afterRun
  dsimp only
  split_ifs
  · rw [foldl_publish]
    rfl
  · rw [foldl_publish]
    rfl

theorem statusOf_afterRun (e : Engine α) (b : Busy α) (reports : List ProgressEvent) (ok : Bool)
    (x : Nat) :
    (e.afterRun b reports ok).statusOf x =
      if !b.call.command.skips b.call.operation.direction && x = b.call.command.id then
        b.previous.finish ok b.call.operation.direction.success
      else e.statusOf x := by
  unfold afterRun
  dsimp only
  by_cases hskip : b.call.command.skips b.call.operation.direction
  · simp [hskip, foldl_publish, statusOf]
  · rw [if_neg hskip, statusOf_setStatus]
    simp [hskip, foldl_publish, statusOf]

theorem histories_record_congr {e e' : Engine α} (hh : e'.histories = e.histories)
    (hs : e'.sequence = e.sequence) (hl : e'.undoLimit = e.undoLimit) (stack : String)
    (c : Command α) : (e'.record stack c).histories = (e.record stack c).histories := by
  unfold record withStack
  simp only [hh, hs, hl]
  split_ifs <;> rfl

theorem moveCursor_congr {e e' : Engine α} (hh : e'.histories = e.histories)
    (hs : e'.sequence = e.sequence) (hg : e'.generation = e.generation) (g : Nat) (stack : String)
    (c : Command α) (forward : Bool) :
    (e'.moveCursor g stack c forward).1.histories = (e.moveCursor g stack c forward).1.histories ∧
      (e'.moveCursor g stack c forward).2 = (e.moveCursor g stack c forward).2 := by
  unfold moveCursor stack?
  simp only [hh, hs, hg]
  split_ifs
  · exact ⟨hh, rfl⟩
  all_goals
    split
    · exact ⟨rfl, rfl⟩
    split_ifs <;> exact ⟨rfl, rfl⟩


@[simp] theorem queue_record (e : Engine α) (stack : String) (c : Command α) :
    (e.record stack c).queue = e.queue := by
  rw [record_eq]

@[simp] theorem statuses_record (e : Engine α) (stack : String) (c : Command α) :
    (e.record stack c).statuses = e.statuses := by
  rw [record_eq]

@[simp] theorem pending_record (e : Engine α) (stack : String) (c : Command α) :
    (e.record stack c).pending = e.pending := by
  rw [record_eq]

@[simp] theorem replies_record (e : Engine α) (stack : String) (c : Command α) :
    (e.record stack c).replies = e.replies := by
  rw [record_eq]

@[simp] theorem pending_moveCursor (e : Engine α) (g : Nat) (stack : String) (c : Command α)
    (forward : Bool) : (e.moveCursor g stack c forward).1.pending = e.pending := by
  rw [moveCursor_eq]

@[simp] theorem replies_moveCursor (e : Engine α) (g : Nat) (stack : String) (c : Command α)
    (forward : Bool) : (e.moveCursor g stack c forward).1.replies = e.replies := by
  rw [moveCursor_eq]

theorem SameSetup.record (e : Engine α) (stack : String) (c : Command α) :
    SameSetup e (e.record stack c) := by
  rw [record_eq]
  exact ⟨rfl, rfl, rfl, rfl, rfl, rfl, rfl⟩

@[simp] theorem queue_moveCursor (e : Engine α) (g : Nat) (stack : String) (c : Command α)
    (forward : Bool) : (e.moveCursor g stack c forward).1.queue = e.queue := by
  rw [moveCursor_eq]

@[simp] theorem statuses_moveCursor (e : Engine α) (g : Nat) (stack : String) (c : Command α)
    (forward : Bool) : (e.moveCursor g stack c forward).1.statuses = e.statuses := by
  rw [moveCursor_eq]

theorem SameBooks.record (e : Engine α) (stack : String) (c : Command α) :
    SameBooks e (e.record stack c) := by
  rw [record_eq]
  exact ⟨⟨rfl, rfl, rfl, rfl⟩, rfl, rfl, rfl⟩

theorem SameBooks.moveCursor (e : Engine α) (g : Nat) (stack : String) (c : Command α)
    (forward : Bool) : SameBooks e (e.moveCursor g stack c forward).1 := by
  rw [moveCursor_eq]
  exact ⟨⟨rfl, rfl, rfl, rfl⟩, rfl, rfl, rfl⟩

theorem SameSetup.moveCursor (e : Engine α) (g : Nat) (stack : String) (c : Command α)
    (forward : Bool) : SameSetup e (e.moveCursor g stack c forward).1 := by
  rw [moveCursor_eq]
  exact ⟨rfl, rfl, rfl, rfl, rfl, rfl, rfl⟩

theorem moveCursor_ite {e e₂ : Engine α} {ok : Bool} {g : Nat} {stack : String} {c : Command α}
    {forward moved : Bool}
    (hm : (if ok then e.moveCursor g stack c forward else (e, false)) = (e₂, moved)) :
    SameSetup e e₂ ∧ SameBooks e e₂ ∧
      e₂.statuses = e.statuses ∧
      e₂.histories = if ok then (e.moveCursor g stack c forward).1.histories else e.histories := by
  have he₂ : e₂ = (if ok then e.moveCursor g stack c forward else (e, false)).1 := by rw [hm]
  subst he₂
  split_ifs
  · exact ⟨SameSetup.moveCursor e g stack c forward, SameBooks.moveCursor e g stack c forward,
      statuses_moveCursor .., rfl⟩
  · exact ⟨SameSetup.refl e, ⟨⟨rfl, rfl, rfl, rfl⟩, rfl, rfl, rfl⟩, rfl, rfl⟩

/-- The cursor move of a returned undo or redo is made on the engine that published the run's
reports: it changes the stacks as a move on the engine itself would, and keeps the queue, the
replies and the setup. -/
theorem afterRun_moveCursor_ite {e e₂ : Engine α} {b : Busy α} {reports : List ProgressEvent}
    {ok : Bool} {stack : String} {moved : Bool}
    (hm : (if ok then (e.afterRun b reports ok).moveCursor b.generation stack b.call.command
        (b.call.operation == .redo) else (e.afterRun b reports ok, false)) = (e₂, moved)) :
    SameSetup e e₂ ∧ e₂.queue = e.queue ∧ e₂.replies = e.replies ∧
      e₂.histories = if ok then (e.moveCursor b.generation stack b.call.command
        (b.call.operation == .redo)).1.histories else e.histories := by
  obtain ⟨hsame₂, hqueue₂, -, hhist₂⟩ := moveCursor_ite hm
  have hafter := afterRun_eq e b reports ok
  have hsame : SameSetup e (e.afterRun b reports ok) := by
    rw [hafter]
    exact ⟨rfl, rfl, rfl, rfl, rfl, rfl, rfl⟩
  have hmove := (moveCursor_congr (by rw [hafter]) (by rw [hafter]) hsame.generation b.generation
    stack b.call.command (b.call.operation == .redo)).1
  have he₂ : e₂ = (if ok then (e.afterRun b reports ok).moveCursor b.generation stack b.call.command
      (b.call.operation == .redo) else (e.afterRun b reports ok, false)).1 := by rw [hm]
  refine ⟨hsame.trans hsame₂, by rw [hqueue₂.jobs.queue, hafter], ?_, ?_⟩
  · rw [he₂]
    split_ifs
    · rw [moveCursor_eq, hafter]
    · rw [hafter]
  · rw [hhist₂, hmove]
    split_ifs
    · rfl
    · rw [hafter]

theorem SameSetup.withEvents {e e' : Engine α} (h : SameSetup e e') (evs : List EngineEvent) :
    SameSetup e { e' with events := evs } :=
  ⟨h.registry, h.defaultStack, h.undoLimit, h.active, h.routes, h.generation, h.nextTicket⟩

theorem publish_closing (e : Engine α) (moved : Bool) (ev₁ ev₂ : EngineEvent) :
    (if moved then ((e.publish ev₁).publish ev₂).publish .stateChanged else (e.publish ev₁).publish ev₂)
      = { e with events := e.events ++ (if moved then [ev₁, ev₂, .stateChanged] else [ev₁, ev₂]) } := by
  split_ifs <;> simp [publish]

/-- The histories once a job's run returned, with success or not: an executed command is recorded
when its run succeeded, it is no query and no clear came between; an undo or a redo moves the
cursor when its run succeeded and the cursor still allows it. -/
def settled (e : Engine α) (b : Busy α) (ok : Bool) : List (Stack α) :=
  match b.sequel with
  | .record stack =>
      if ok && !b.call.command.isQuery && e.generation == b.generation then
        (e.record stack b.call.command).histories
      else e.histories
  | .step stack | .walk stack _ _ =>
      if ok then (e.moveCursor b.generation stack b.call.command (b.call.operation == .redo)).1.histories
      else e.histories

theorem resume_idle {e : Engine α} (h : e.busy = none) (reports : List ProgressEvent) (outcome : Outcome) :
    e.resume reports outcome = e := by
  simp only [resume, h]

/-- What the return of the run of `b` leaves of the worker's books before its job ends or walks on:
the jobs and the count, the pending list, the replies, and the reporters with the run's closed. -/
structure Returned (b : Busy α) (e e₁ : Engine α) : Prop where
  jobs : SameJobs e e₁
  pending : e₁.pending = e.pending
  replies : e₁.replies = e.replies
  reporters : e₁.reporters = (e.close b.reporter).reporters

/-- **How a job goes on after a run.** The run's effect on the histories is `settled`, and its
command's status is moved; then the job ends, or, for a walk whose step succeeded with no clear
in between, walks on. -/
theorem resume_cases {e : Engine α} {b : Busy α} (h : e.busy = some b) (reports : List ProgressEvent)
    (outcome : Outcome) :
    ∃ e₁ : Engine α, SameSetup e e₁ ∧ Returned b e e₁ ∧
      e₁.histories = e.settled b outcome.isOk ∧
      e₁.statuses = (e.afterRun b reports outcome.isOk).statuses ∧
      ((∃ r p, e.resume reports outcome = e₁.finish b.ticket r p) ∨
        (∃ stack wanted target, b.sequel = .walk stack wanted target ∧ outcome.isOk ∧
          e.generation = b.generation ∧
          e.resume reports outcome
            = e₁.walk b.ticket b.generation stack wanted target (b.progress ++ reports))) := by
  obtain ⟨ev, st, hrun⟩ : ∃ ev st, e.afterRun b reports outcome.isOk
      = { e with events := ev, statuses := st, reporters := (e.close b.reporter).reporters } :=
    ⟨_, _, afterRun_eq e b reports outcome.isOk⟩
  set X : Engine α := { e with events := ev, statuses := st, reporters := (e.close b.reporter).reporters }
    with hX
  have hsame : SameSetup e X := ⟨rfl, rfl, rfl, rfl, rfl, rfl, rfl⟩
  -- what the run's return does after closing its reporter keeps the books
  have hjobs : ∀ {e₁}, SameBooks X e₁ → Returned b e e₁ := fun h =>
    ⟨⟨h.jobs.queue, h.jobs.busy, h.jobs.running, h.jobs.inFlight⟩, h.pending, h.replies, h.reporters⟩
  have hhist : X.histories = e.histories := rfl
  -- a cursor move on the published engine moves the same stacks as on the engine itself
  have hmove : ∀ stack, (if outcome.isOk then
        (X.moveCursor b.generation stack b.call.command (b.call.operation == Operation.redo)).1.histories
        else X.histories) =
      if outcome.isOk then
        (e.moveCursor b.generation stack b.call.command (b.call.operation == Operation.redo)).1.histories
      else e.histories := by
    intro stack
    rw [(moveCursor_congr hhist rfl rfl _ _ _ _).1, hhist]
  unfold resume settled
  rw [h]
  dsimp only
  rw [hrun]
  cases hseq : b.sequel with
  | record stack =>
      dsimp only
      refine ⟨_, ?_, ?_, ?_, ?_, .inl ⟨_, _, rfl⟩⟩
      · split_ifs
        · exact ((hsame.trans (SameSetup.record _ _ _)).trans (SameSetup.publish _ _)).trans
            (SameSetup.publish _ _)
        · exact hsame.trans (SameSetup.publish _ _)
      · split_ifs
        · exact hjobs (((SameBooks.record _ _ _).trans (SameBooks.publish _ _)).trans (SameBooks.publish _ _))
        · exact hjobs (SameBooks.publish _ _)
      · split_ifs
        · simp only [histories_publish]
          exact histories_record_congr hhist rfl rfl _ _
        · rfl
      · split_ifs <;> simp [hX]
  | step stack =>
      dsimp only
      obtain ⟨e₂, moved, hm⟩ : ∃ e₂ moved, (if outcome.isOk then
          X.moveCursor b.generation stack b.call.command (b.call.operation == Operation.redo)
          else (X, false)) = (e₂, moved) := ⟨_, _, rfl⟩
      obtain ⟨hsame₂, hjobs₂, hstatuses₂, hhist₂⟩ := moveCursor_ite hm
      rw [hm]
      dsimp only
      rw [publish_closing]
      refine ⟨_, ?_, ?_, ?_, ?_, .inl ⟨_, _, rfl⟩⟩
      · exact (hsame.trans hsame₂).withEvents _
      · exact hjobs (hjobs₂.withEvents _)
      · rw [← hmove stack, ← hhist₂]
      · exact hstatuses₂
  | walk stack wanted target =>
      dsimp only
      obtain ⟨e₂, moved, hm⟩ : ∃ e₂ moved, (if outcome.isOk then
          X.moveCursor b.generation stack b.call.command (b.call.operation == Operation.redo)
          else (X, false)) = (e₂, moved) := ⟨_, _, rfl⟩
      obtain ⟨hsame₂, hjobs₂, hstatuses₂, hhist₂⟩ := moveCursor_ite hm
      rw [hm]
      dsimp only
      rw [publish_closing]
      generalize hE : ({ e₂ with events := _ } : Engine α) = E
      have hsameE : SameSetup e E := hE ▸ (hsame.trans hsame₂).withEvents _
      refine ⟨E, hsameE, hE ▸ hjobs (hjobs₂.withEvents _),
        hE ▸ by rw [← hmove stack, ← hhist₂],
        hE ▸ hstatuses₂, ?_⟩
      split
      · exact .inl ⟨_, _, rfl⟩
      · rename_i v hres
        split_ifs with hgen
        · exact .inl ⟨_, _, rfl⟩
        · have hok : outcome.isOk = true := by
            rw [← Command.settle_isOk, hres]
          have hgen' : e.generation = b.generation := by
            rw [← hsameE.generation]
            simpa using hgen
          exact .inr ⟨stack, wanted, target, rfl, hok, hgen', rfl⟩

theorem SameSetup.resume (e : Engine α) (reports : List ProgressEvent) (outcome : Outcome) :
    SameSetup e (e.resume reports outcome) := by
  cases hbusy : e.busy with
  | none =>
      rw [resume_idle hbusy]
      exact SameSetup.refl e
  | some b =>
      obtain ⟨e₁, hsame, -, -, -, ⟨r, p, h⟩ | ⟨stack, wanted, target, -, -, -, h⟩⟩ :=
        resume_cases hbusy reports outcome <;> rw [h]
      · exact hsame.trans (SameSetup.finish _ _ _ _)
      · exact hsame.trans (SameSetup.walk _ _ _ _ _ _ _)

theorem queue_resume (e : Engine α) (reports : List ProgressEvent) (outcome : Outcome) :
    (e.resume reports outcome).queue = e.queue := by
  cases hbusy : e.busy with
  | none => rw [resume_idle hbusy]
  | some b =>
      obtain ⟨e₁, -, hjobs, -, -, ⟨r, p, h⟩ | ⟨stack, wanted, target, -, -, -, h⟩⟩ :=
        resume_cases hbusy reports outcome <;> rw [h]
      · exact hjobs.jobs.queue
      · rw [queue_walk, hjobs.jobs.queue]

theorem histories_resume {e : Engine α} {b : Busy α} (hbusy : e.busy = some b)
    (reports : List ProgressEvent) (outcome : Outcome) :
    (e.resume reports outcome).histories = e.settled b outcome.isOk := by
  obtain ⟨e₁, -, -, hhist, -, ⟨r, p, h⟩ | ⟨stack, wanted, target, -, -, -, h⟩⟩ :=
    resume_cases hbusy reports outcome <;> rw [h]
  · exact hhist
  · rw [histories_walk, hhist]

end Engine

end ScopedUndo
