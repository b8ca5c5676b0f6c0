import ScopedUndo.Command
/-!
# Played-back actions

An action that plays back prepared outcomes: the n-th run in a direction answers the n-th
outcome of that direction's list, the last one repeating, and an empty list answers `null`.
Before answering, a run goes through its cues: it reports progress, keeps its reporter for
later, or reports on the kept reporter, which only still listens while its own run lasts.
-/

namespace ScopedUndo

inductive Cue where
  /-- Report progress on the run's reporter. -/
  | report (event : ProgressEvent)
  /-- Keep the run's reporter. -/
  | keep
  /-- Report progress on the kept reporter. -/
  | late (event : ProgressEvent)
  deriving DecidableEq, Repr

/-- A played-back action. `forward` and `reverse` are the outcome lists of closures that were
handed to the builder, `none` when no closure was; `whole` marks an action handed over as one
object, which plays the same lists, a missing one as empty. -/
structure Playback where
  forward : Option (List Outcome) := none
  reverse : Option (List Outcome) := none
  whole : Bool := false
  forwardCues : List Cue := []
  reverseCues : List Cue := []
  deriving Repr

namespace Playback

def supplied (p : Playback) : Supplied :=
  { whole := p.whole, forward := p.forward.isSome, reverse := p.reverse.isSome }

/-- The outcome of the run with index `n` from a list: the last outcome repeats. -/
def pick (outcomes : List Outcome) (n : Nat) : Outcome :=
  match outcomes with
  | [] => .ok .null
  | o :: os => (o :: os).getD (min n os.length) o

end Playback

/-- The runs of played-back actions so far: per command the number of forward and reverse runs,
the reporter whose clone was kept last, by serial, and the serials handed out to the runs the
engine's worker made. -/
structure Stage where
  runs : List (Nat × Nat × Nat) := []
  kept : Option Nat := none
  started : Nat := 0
  deriving Repr

namespace Stage

def runsOf (st : Stage) (command : Nat) (d : Direction) : Nat :=
  match st.runs.find? (·.1 == command) with
  | some (_, f, r) => if d == .forward then f else r
  | none => 0

def count (st : Stage) (command : Nat) (d : Direction) : Stage :=
  let f := st.runsOf command .forward
  let r := st.runsOf command .reverse
  let entry := if d == .forward then (command, f + 1, r) else (command, f, r + 1)
  { st with runs := entry :: st.runs.filter (·.1 != command) }

/-- Goes through a run's cues in order and gives the reports made, each with the serial of the
reporter it was made on: the run's own, or for a late report the kept one, if any. -/
def cue (st : Stage) (reporter : Nat) : List Cue → Stage × List (Nat × ProgressEvent)
  | [] => (st, [])
  | .report e :: rest => let (st', made) := st.cue reporter rest; (st', (reporter, e) :: made)
  | .keep :: rest => cue { st with kept := some reporter } reporter rest
  | .late e :: rest =>
    let (st', made) := cue st reporter rest
    (st', (st.kept.map fun k => (k, e)).toList ++ made)

/-- One run of a played-back command handed the reporter `reporter`: its cues, then its outcome.
A closure action without a reverse closure answers `null` to a reverse run and does nothing
else. -/
def act (st : Stage) (c : Command Playback) (d : Direction) (reporter : Nat) :
    Stage × List (Nat × ProgressEvent) × Outcome :=
  let p := c.action
  let present := if d == .forward then p.forward else p.reverse
  if !p.whole && present.isNone then (st, [], .ok .null)
  else
    let cues := if d == .forward then p.forwardCues else p.reverseCues
    let (st', made) := st.cue reporter cues
    (st'.count c.id d, made, Playback.pick (present.getD []) (st.runsOf c.id d))

/-- One run in the engine's worker, which hands each run a reporter of its own and closes it when
the run returns: of what the run reports, only what goes on its own reporter gets through. -/
def run (st : Stage) (c : Command Playback) (d : Direction) : Stage × List ProgressEvent × Outcome :=
  let serial := st.started
  let (st', made, outcome) := { st with started := serial + 1 }.act c d serial
  (st', forwarded (· == serial) made, outcome)

/-- Whether the kept reporter still forwards reports, or `none` when none was kept. Every run's
reporter is closed when the run returns, so between runs none does. -/
def keptListens (st : Stage) : Option Bool :=
  st.kept.map fun _ => false

end Stage

end ScopedUndo
