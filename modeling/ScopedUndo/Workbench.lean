import ScopedUndo.Engine.Worker
import ScopedUndo.Engine.Bus
import ScopedUndo.Playback
import ScopedUndo.Ledger
/-!
# The workbench

An engine whose commands either play back prepared outcomes or keep a ledger, driven one caller
step at a time. After every submission the worker runs until it is done, except that a gated
submission holds the worker at the first played-back run it reaches; until the hold is released
by `wait` or `shutdown`, submissions go to the background and are collected, and the other
caller steps act on the state while the held run waits. Commands are numbered from 0 in the
order they are built.
-/

namespace ScopedUndo

inductive Act where
  | playback (p : Playback)
  | ledger (entry : Entry)
  deriving Repr

/-- The world workbench actions run in: the played-back runs and the ledger. -/
structure Scene where
  stage : Stage := {}
  ledger : Ledger := {}
  deriving Repr

namespace Scene

def run (w : Scene) (c : Command Act) (d : Direction) : Scene × List ProgressEvent × Outcome :=
  match c.action with
  | .playback p =>
    let (st, reports, outcome) := w.stage.run { c with action := p } d
    ({ w with stage := st }, reports, outcome)
  | .ledger entry =>
    let (l, reports, outcome) := w.ledger.run { c with action := entry } d
    ({ w with ledger := l }, reports, outcome)

end Scene

/-- Whether a run is a played-back one, the only kind a gate holds. -/
def Call.isPlayback (call : Call Act) : Bool :=
  match call.command.action with
  | .playback _ => true
  | .ledger _ => false

/-- A scope given outright, or as names for the registry to resolve. -/
inductive ScopeRef where
  | exact (scope : Scope)
  | named (text : String)
  deriving DecidableEq, Repr

def Registry.resolve (r : Registry) : ScopeRef → Except Fault Scope
  | .exact s => .ok s
  | .named text => r.scopeOfText text

/-- A played-back command to build. Without a scope the builder's default, the wildcard, is
used. -/
structure Spec where
  text : String := ""
  kind : Kind := .mutating
  scope : Option ScopeRef := none
  stack : Option String := none
  playback : Playback := {}
  deriving Repr

inductive Label where
  | enqueue (text : String)
  | undo
  | redo
  | jump (target : Option Nat)
  deriving DecidableEq, Repr

inductive Refusal where
  /-- A background submission while no run is held. -/
  | backgroundWithoutHold
  /-- A submission that would wait for the held run. -/
  | waitBehindHold
  /-- A gate while a run is already held. -/
  | secondGate
  deriving DecidableEq, Repr

structure Mode where
  background : Bool := false
  gate : Bool := false
  deriving DecidableEq, Repr

inductive Receipt where
  /-- The submission failed before it got a ticket, or was refused with its ticket used. -/
  | refused (command : Option Nat) (fault : Fault)
  /-- A foreground job and its reply. -/
  | done (ticket : Nat) (command : Option Nat) (reply : Reply)
  /-- A gated job; `held` tells whether it stopped at a played-back run. -/
  | gated (ticket : Nat) (command : Option Nat) (held : Bool)
  /-- A background job, collected for the next `wait`. -/
  | queued (ticket : Nat) (command : Option Nat)

structure Bench where
  engine : Engine Act
  scene : Scene := {}
  /-- Commands built so far. -/
  built : Nat := 0
  /-- Whether the worker is held at a played-back run. -/
  held : Bool := false
  /-- Collected jobs in submission order. -/
  collected : List (Nat × Label) := []
  subscription : Subscription := {}

namespace Bench

def start (c : Config) : Except Fault Bench :=
  (Engine.create c).map fun e => { engine := e }

def settle (b : Bench) : Bench :=
  let (w, e) := b.engine.work Scene.run (fun _ => false) b.scene
  { b with scene := w, engine := e }

def permit (b : Bench) (m : Mode) : Except Refusal Unit :=
  if m.gate && b.held then .error .secondGate
  else if m.background && !b.held then .error .backgroundWithoutHold
  else if !m.background && b.held then .error .waitBehindHold
  else .ok ()

def follow (b : Bench) (m : Mode) (label : Label) (command : Option Nat)
    (submitted : Engine Act × Except Fault Nat) : Bench × Receipt :=
  let b := { b with engine := submitted.1 }
  match submitted.2 with
  | .error f => (b, .refused command f)
  | .ok ticket =>
    if m.background then
      ({ b with collected := b.collected ++ [(ticket, label)] }, .queued ticket command)
    else if m.gate then
      let (w, e) := b.engine.work Scene.run Call.isPlayback b.scene
      let held := e.busy.isSome
      ({ b with scene := w, engine := e, held := held, collected := b.collected ++ [(ticket, label)] },
        .gated ticket command held)
    else
      let b := b.settle
      match b.engine.reply? ticket with
      | some r => (b, .done ticket command r)
      | none => (b, .refused command .cancelled)

def build (b : Bench) (text : String) (kind : Kind) (scope : Scope) (stack : Option String)
    (act : Act) (supplied : Supplied) : Except Fault (Bench × Command Act) := do
  supplied.check text
  let c : Command Act :=
    { id := b.built, text := text, kind := kind, scope := scope, stack := stack, action := act }
  return ({ b with built := b.built + 1 }, c)

/-- Submits a played-back command: the scope's names are resolved, the command is built and
numbered, and the engine takes or refuses it. -/
def enqueue (b : Bench) (m : Mode) (spec : Spec) : Except Refusal (Bench × Receipt) := do
  b.permit m
  let scope := match spec.scope with
    | some r => b.engine.registry.resolve r
    | none => .ok .all
  match scope with
  | .error f => return (b, .refused none f)
  | .ok scope =>
    match b.build spec.text spec.kind scope spec.stack (.playback spec.playback)
        spec.playback.supplied with
    | .error f => return (b, .refused none f)
    | .ok (b, c) => return b.follow m (.enqueue c.text) (some c.id) (b.engine.enqueue c)

def ledger (b : Bench) (m : Mode) (entry : Entry) : Except Refusal (Bench × Receipt) := do
  b.permit m
  match b.engine.registry.scopeOf entry.account.1 with
  | .error f => return (b, .refused none f)
  | .ok scope =>
    match b.build entry.text entry.kind scope none (.ledger entry) entry.supplied with
    | .error f => return (b, .refused none f)
    | .ok (b, c) => return b.follow m (.enqueue c.text) (some c.id) (b.engine.enqueue c)

def filter (b : Bench) : Option ScopeRef → Except Fault (Option Scope)
  | some r => (b.engine.registry.resolve r).map some
  | none => .ok none

def undo (b : Bench) (m : Mode) (f : Option ScopeRef) : Except Refusal (Bench × Receipt) := do
  b.permit m
  match b.filter f with
  | .error fault => return (b, .refused none fault)
  | .ok f => return b.follow m .undo none (b.engine.undo f)

def redo (b : Bench) (m : Mode) (f : Option ScopeRef) : Except Refusal (Bench × Receipt) := do
  b.permit m
  match b.filter f with
  | .error fault => return (b, .refused none fault)
  | .ok f => return b.follow m .redo none (b.engine.redo f)

def jump (b : Bench) (m : Mode) (target : Option Nat) : Except Refusal (Bench × Receipt) := do
  b.permit m
  return b.follow m (.jump target) none (b.engine.jump target)

def alter (b : Bench) (f : Engine Act → Engine Act) : Bench :=
  { b with engine := f b.engine }

def route (b : Bench) (r : ScopeRef) (stack : String) : Bench × Except Fault Unit :=
  match b.engine.registry.resolve r with
  | .error f => (b, .error f)
  | .ok scope =>
    match b.engine.route scope stack with
    | .error f => (b, .error f)
    | .ok e => ({ b with engine := e }, .ok ())

/-- Texts of pending commands of the active stack that a filter selects. -/
def queued (b : Bench) (r : ScopeRef) : Except Fault (List String) :=
  (b.engine.registry.resolve r).map b.engine.queued

/-- Releases the held run and waits for every collected job: their labels and replies, in
submission order. -/
def wait (b : Bench) : Bench × List (Label × Reply) :=
  let b := { b with held := false }.settle
  let results := b.collected.filterMap fun (ticket, label) =>
    (b.engine.reply? ticket).map (label, ·)
  ({ b with collected := [] }, results)

/-- Releases the held run, stops taking submissions and lets every queued job finish. -/
def shutdown (b : Bench) : Bench :=
  { b with held := false, engine := b.engine.shutdown }.settle

/-- Reports on the kept reporter: whether it still listened, `none` when none was kept. -/
def late (b : Bench) : Option Bool :=
  b.scene.stage.keptListens

def read (b : Bench) : Bench × List Delivery :=
  let (sub, deliveries) := b.subscription.read b.engine
  ({ b with subscription := sub }, deliveries)

end Bench

end ScopedUndo
