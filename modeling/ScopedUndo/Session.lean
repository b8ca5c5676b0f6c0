import ScopedUndo.Engine.Worker
import ScopedUndo.Ledger
import ScopedUndo.Script
import ScopedUndo.Value.Json
/-!
# Running a script

A session runs script statements, one after the other, against an engine whose commands keep a
ledger, and writes what happens as lines of text. A ledger statement becomes a command; an undo,
redo or jump becomes a job; the other statements act on the engine at once and say what they did.

A statement that waits prints `ok <label>`, followed by ` -> <value>` when its job answered
something other than `null`. A statement with a trailing `&` does not wait: a command prints
`queued <text>` instead, and every job left behind is reported, in order, at the next `wait` and
at the end of the script.

A failed statement prints `error: <message>` and counts as a failure, and the script goes on.
Only a fatal failure, an unknown scope name, stops it.

The engine's worker has no one to share the ledger with, so every job runs as soon as it is
submitted; a script that reads the queue while a background job is pending is outside what a
session promises.
-/

namespace ScopedUndo

open Cli

/-- How a finished script went: statements run and how many of them failed. -/
structure Summary where
  statements : Nat := 0
  failures : Nat := 0
  deriving DecidableEq, Repr

/-- A job submitted in the background: its line, what to call it, and its ticket. -/
structure Deferred where
  line : Nat
  label : String
  ticket : Nat
  deriving DecidableEq, Repr

structure Session where
  engine : Engine Entry
  ledger : Ledger := {}
  /-- How many commands were built; the next command's id. -/
  built : Nat := 0
  /-- Background jobs not reported yet, in submission order. -/
  background : List Deferred := []
  summary : Summary := {}
  /-- The lines written so far. -/
  output : List String := []

namespace Session

def start (c : Config) : Except Fault Session := do
  return { engine := ← Engine.create c }

def say (s : Session) (line : String) : Session :=
  { s with output := s.output ++ [line] }

def settle (s : Session) : Session :=
  let (l, e) := s.engine.work Ledger.run (fun _ => false) s.ledger
  { s with ledger := l, engine := e }

/-- Says how a job ended: its value, or its failure as an engine error. -/
def report (s : Session) (label : String) (result : Except Fault Value) :
    Session × Option CliError :=
  match result with
  | .error f => (s, some (.engine f))
  | .ok .null => (s.say ("ok " ++ label), none)
  | .ok v => (s.say ("ok " ++ label ++ " -> " ++ v.compact), none)

def fail (s : Session) (e : CliError) : Session :=
  { s.say ("error: " ++ e.userMessage) with
    summary := { s.summary with failures := s.summary.failures + 1 } }

/-- Waits for a job: in the background it is put aside to report later, otherwise it is run to
its end and reported. -/
def finish (s : Session) (line : ScriptLine) (label : String) (ticket : Nat) :
    Session × Option CliError :=
  let s := s.settle
  if line.background then
    ({ s with background := s.background ++ [⟨line.line, label, ticket⟩] }, none)
  else
    match s.engine.reply? ticket with
    | some r => s.report label r.result
    | none => (s, none)

/-- Reports every background job, in order; their failures are counted here. -/
def waitBackground (s : Session) : Session :=
  let s := s.settle
  s.background.foldl (fun s job =>
    match s.engine.reply? job.ticket with
    | some r =>
      match s.report job.label r.result with
      | (s, some e) => s.fail e
      | (s, none) => s
    | none => s) { s with background := [] }

/-- Submits a job the engine answered with `submitted`, failures turned into errors by `wrap`. -/
def job (s : Session) (line : ScriptLine) (label : String) (wrap : Fault → CliError)
    (submitted : Engine Entry × Except Fault Nat) : Session × Option CliError :=
  let s := { s with engine := submitted.1 }
  match submitted.2 with
  | .error f => (s, some (wrap f))
  | .ok ticket => s.finish line label ticket

/-- Submits a ledger entry as a command in the scope its scope name denotes. -/
def submit (s : Session) (line : ScriptLine) (entry : Entry) : Session × Option CliError :=
  match s.engine.registry.scopeOf entry.account.1 with
  | .error f => (s, some (.ofScopeLookup f))
  | .ok scope =>
    let c : Command Entry :=
      { id := s.built, text := entry.text, kind := entry.kind, scope := scope, action := entry }
    let s := { s with built := s.built + 1 }
    let (e, r) := s.engine.enqueue c
    let s := { s with engine := e }
    match r with
    | .error f => (s, some (.engine f))
    | .ok ticket =>
      if line.background then
        let s := (s.say ("queued " ++ c.text)).settle
        ({ s with background := s.background ++ [⟨line.line, c.text, ticket⟩] }, none)
      else s.finish line c.text ticket

/-- Submits an undo or a redo, of the active stack or filtered by scope names. -/
def step (s : Session) (line : ScriptLine) (label : String)
    (submit : Engine Entry → Option Scope → Engine Entry × Except Fault Nat)
    (scopes : Option String) : Session × Option CliError :=
  match scopes with
  | none => s.job line label .engine (submit s.engine none)
  | some text =>
    match s.engine.registry.scopeOfText text with
    | .error f => (s, some (.ofScopeLookup f))
    | .ok filter => s.job line label .ofScopeLookup (submit s.engine (some filter))

/-- The lines of the active stack's history: a header, then each command, the one at the cursor
marked with `>` and those undone marked after their text. -/
def history (e : Engine Entry) : List String :=
  let s := e.activeStack?
  let current := s.bind (·.currentIndex)
  let count := (s.map (·.count)).getD 0
  let header := "history " ++ e.active ++ " (" ++ toString count ++ " commands)"
  header :: ((s.map (·.entries)).getD []).map fun entry =>
    (if some entry.index == current then "> " else "  ") ++ toString entry.index ++ ": " ++
      entry.text ++ (if entry.undone then " (undone)" else "")

def runLine (s : Session) (line : ScriptLine) : Session × Option CliError :=
  match line.statement with
  | .set scope account value => s.submit line (.set (scope, account) value)
  | .add scope account delta => s.submit line (.add (scope, account) delta)
  | .get scope account => s.submit line (.get (scope, account))
  | .undo scopes => s.step line "undo" Engine.undo scopes
  | .redo scopes => s.step line "redo" Engine.redo scopes
  | .jump index =>
    let label := match index with
      | some i => "jump " ++ toString i
      | none => "jump none"
    s.job line label .engine (s.engine.jump index)
  | .stack id =>
    let s := { s with engine := s.engine.setActive id }
    (s.say ("stack " ++ s.engine.active), none)
  | .limit n => ({ s with engine := s.engine.setUndoLimit n }.say ("limit " ++ toString n), none)
  | .history => ((history s.engine).foldl say s, none)
  | .queued scopes =>
    match s.engine.registry.scopeOfText (scopes.getD Scope.allName) with
    | .error f => (s, some (.ofScopeLookup f))
    | .ok filter => (s.say ("queued [" ++ ", ".intercalate (s.engine.queued filter) ++ "]"), none)
  | .wait => (s.waitBackground, none)
  | .balances =>
    (s.ledger.snapshot.foldl (fun s (a, v) => s.say (a.1 ++ " " ++ a.2 ++ " = " ++ toString v)) s,
      none)
  | .clear => ({ s with engine := s.engine.clear }.say "cleared", none)
  | .scopes => (s.say ("scopes [" ++ ", ".intercalate s.engine.registry.names ++ "]"), none)

/-- Runs statements until the end, then reports the background jobs; a fatal failure stops the
run and is given with the session as it stood. -/
def run (s : Session) : List ScriptLine → Except (CliError × Session) Session
  | [] => .ok s.waitBackground
  | line :: rest =>
    let s := { s with summary := { s.summary with statements := s.summary.statements + 1 } }
    match s.runLine line with
    | (s, none) => run s rest
    | (s, some e) => if e.isFatal then .error (e, s) else run (s.fail e) rest

end Session

end ScopedUndo
