import ScopedUndo.Proofs.Engine.Reporters
import ScopedUndo.Proofs.Trim
/-!
# What the bus hears

Every input publishes one block of events, and the bus holds the blocks of a run one after another
(`events_run`). The block of an input is `heard`. A clear and a switch of the active stack announce
a change of state; a new limit does so when it drops a command; submissions, routes and a shutdown
say nothing. The worker publishes for the action runs of its jobs: taking up a job announces the
start of its first run when that run is an undo or a redo (`Call.opening`), and nothing when the job
ends at once, cancelled or with nothing to do. A run that returns publishes its reports, the end of
an undo or a redo, its completion with the text of its fault, and a change of state exactly when it
changed a history (`Call.returned`); a jump that walks on then announces its next step. When callers
wait for each job to end, the blocks of a job stand together, so the bus reads job after job.

That a recorded command changes a history rests on `Fresh`: a stack is touched with a sequence
number no stack had before.

A job's reply carries what its runs reported, in order (`Streams`).
-/

namespace ScopedUndo

def errorText : Except Fault Value → Option String
  | .ok _ => none
  | .error f => some f.message

/-- The events of an action run that returned `reports` and `outcome`: the reports, the end of an
undo or a redo, the completion with the text of the fault, and a change of state if the run
`changed` a history. -/
def Call.returned {α : Type} (call : Call α) (reports : List ProgressEvent) (outcome : Outcome)
    (changed : Bool) : List EngineEvent :=
  reports.map (.progress call.command.id) ++
    (if call.operation = .execute then [] else [Engine.closing call.operation call.command.scope]) ++
    .completed call.command.id call.command.text call.operation
      (errorText (call.command.settle outcome)) ::
    (if changed then [.stateChanged] else [])

namespace Engine

variable {α : Type}

@[simp] theorem events_publish (e : Engine α) (ev : EngineEvent) :
    (e.publish ev).events = e.events ++ [ev] := rfl

@[simp] theorem sequence_publish (e : Engine α) (ev : EngineEvent) :
    (e.publish ev).sequence = e.sequence := rfl

@[simp] theorem events_finish (e : Engine α) (t : Nat) (r : Except Fault Value) (p : List ProgressEvent) :
    (e.finish t r p).events = e.events := rfl

@[simp] theorem sequence_finish (e : Engine α) (t : Nat) (r : Except Fault Value)
    (p : List ProgressEvent) : (e.finish t r p).sequence = e.sequence := rfl

@[simp] theorem events_await (e : Engine α) (t g : Nat) (call : Call α) (sq : Sequel)
    (p : List ProgressEvent) : (e.await t g call sq p).events = e.events := by
  rw [await_eq]
  split_ifs <;> rfl

@[simp] theorem sequence_await (e : Engine α) (t g : Nat) (call : Call α) (sq : Sequel)
    (p : List ProgressEvent) : (e.await t g call sq p).sequence = e.sequence := by
  rw [await_eq]
  split_ifs <;> rfl

theorem sequence_walk (e : Engine α) (t g : Nat) (stack : String) (wanted : Nat) (target : Option Nat)
    (p : List ProgressEvent) : (e.walk t g stack wanted target p).sequence = e.sequence := by
  rcases walk_cases e t g stack wanted target p with ⟨r, h⟩ | ⟨s, c, -, -, h⟩ | ⟨s, c, -, -, h⟩ <;>
    simp [h]

theorem sequence_begin (e : Engine α) (job : Job α) : (e.begin job).sequence = e.sequence := by
  rcases begin_cases e job with ⟨r, h⟩ | ⟨-, ⟨c, stack, -, h⟩ | ⟨f, stack, c, -, -, h⟩ |
    ⟨f, stack, c, -, -, h⟩ | ⟨wanted, target, h⟩⟩ <;> rw [h]
  · rfl
  · simp
  · simp
  · simp
  · exact sequence_walk e _ _ _ _ _ _

theorem sequence_pickUp (e : Engine α) : e.pickUp.sequence = e.sequence := by
  rcases pickUp_cases e with h | ⟨job, rest, -, -, h⟩ <;> rw [h]
  exact sequence_begin _ job

theorem events_afterRun (e : Engine α) (b : Busy α) (reports : List ProgressEvent) (ok : Bool) :
    (e.afterRun b reports ok).events = e.events ++ reports.map (.progress b.call.command.id) := by
  unfold afterRun
  dsimp only
  split_ifs
  · rw [events_close, foldl_publish]
  · rw [foldl_publish]
    rfl

/-! ### Fresh sequence numbers -/

/-- Every stack was touched no later than the engine's sequence number. -/
def Fresh (e : Engine α) : Prop :=
  ∀ s ∈ e.histories, s.touched ≤ e.sequence

theorem Fresh.of_same {e e' : Engine α} (h : e.Fresh) (hh : e'.histories = e.histories)
    (hs : e.sequence ≤ e'.sequence) : e'.Fresh :=
  fun s hs' => Nat.le_trans (h s (hh ▸ hs')) hs

theorem Fresh.record {e : Engine α} (h : e.Fresh) (stack : String) (c : Command α) :
    (e.record stack c).Fresh := by
  intro s hs
  have hseq : (e.record stack c).sequence = e.sequence + 1 := by rw [record_eq]
  rw [hseq]
  rcases mem_withStack hs with hold | ⟨t, -, -, rfl⟩
  · exact Nat.le_succ_of_le (h s hold)
  · exact le_refl _

theorem sequence_moveCursor (e : Engine α) (g : Nat) (stack : String) (c : Command α) (forward : Bool) :
    (e.moveCursor g stack c forward).1.sequence = if e.generation = g then e.sequence + 1 else e.sequence := by
  unfold moveCursor
  by_cases hgen : e.generation = g
  · rw [if_neg (by simp [hgen]), if_pos hgen]
    dsimp only
    split
    · rfl
    · split_ifs <;> rfl
  · rw [if_pos (by simp [hgen]), if_neg hgen]

theorem Fresh.moveCursor {e : Engine α} (h : e.Fresh) (hnodup : (e.histories.map Stack.id).Nodup)
    (g : Nat) (stack : String) (c : Command α) (forward : Bool) : (e.moveCursor g stack c forward).1.Fresh := by
  rcases moveCursor_cases e g stack c forward with ⟨hsame, -⟩ | ⟨hgen, -⟩
  · refine h.of_same hsame ?_
    rw [sequence_moveCursor]
    split_ifs <;> omega
  -- the cursor may have moved, so the sequence number went up by one
  have hseq : (e.moveCursor g stack c forward).1.sequence = e.sequence + 1 := by
    rw [sequence_moveCursor, if_pos hgen]
  intro t ht
  rw [hseq]
  rcases mem_moveCursor hnodup ht with hold | ⟨u, -, rfl⟩
  · exact Nat.le_succ_of_le (h t hold)
  · exact le_refl _

theorem Fresh.not_touched_after {e : Engine α} (h : e.Fresh) {x : String} {t : Stack α}
    (hlook : e.stack? x = some t) : ¬ e.sequence < t.touched :=
  Nat.not_lt.mpr (h t (mem_of_stack? hlook).1)

theorem record_changes {e : Engine α} (h : e.Fresh) (stack : String) (c : Command α) :
    (e.record stack c).histories ≠ e.histories := by
  intro hsame
  have hlook := stack?_record e stack c stack
  rw [if_pos rfl, show (e.record stack c).stack? stack = e.stack? stack by simp only [stack?, hsame]]
    at hlook
  exact h.not_touched_after hlook (Nat.lt_succ_self e.sequence)

theorem moved_iff {e : Engine α} (h : e.Fresh) (g : Nat) (stack : String) (c : Command α)
    (forward : Bool) :
    (e.moveCursor g stack c forward).2 = true ↔ (e.moveCursor g stack c forward).1.histories ≠ e.histories := by
  rcases moveCursor_cases e g stack c forward with ⟨hsame, hstill⟩ | ⟨-, s, -, -, hmoved, -, hlook⟩
  · simp [hsame, hstill]
  refine ⟨fun _ hsame => ?_, fun _ => hmoved⟩
  have hnew := hlook stack
  rw [if_pos rfl, show (e.moveCursor g stack c forward).1.stack? stack = e.stack? stack by
    simp only [stack?, hsame]] at hnew
  exact h.not_touched_after hnew (Nat.lt_succ_self e.sequence)

/-- The cursor move of a returned undo or redo step, made when the run succeeded: the engine it
leaves is fresh and has published nothing, and the cursor moved exactly when a history changed. -/
theorem step_move {X e₂ : Engine α} (hfresh : X.Fresh) (hnodup : (X.histories.map Stack.id).Nodup)
    {ok : Bool} {g : Nat} {stack : String} {c : Command α} {forward moved : Bool}
    (hm : (if ok then X.moveCursor g stack c forward else (X, false)) = (e₂, moved)) :
    e₂.histories = (if ok then (X.moveCursor g stack c forward).1.histories else X.histories) ∧
      (moved = true ↔ e₂.histories ≠ X.histories) ∧ e₂.events = X.events ∧ e₂.replies = X.replies ∧
      e₂.Fresh := by
  by_cases hok : ok = true
  · rw [if_pos hok] at hm
    have he₂ : e₂ = (X.moveCursor g stack c forward).1 := by rw [hm]
    have hmoved : moved = (X.moveCursor g stack c forward).2 := by rw [hm]
    subst he₂ hmoved
    exact ⟨by rw [if_pos hok], moved_iff hfresh g stack c forward, by rw [moveCursor_eq],
      by rw [moveCursor_eq], hfresh.moveCursor hnodup g stack c forward⟩
  · rw [if_neg hok, Prod.mk.injEq] at hm
    obtain ⟨rfl, rfl⟩ := hm
    exact ⟨by rw [if_neg hok], by simp, rfl, rfl, hfresh⟩

/-- **A returned run, in two halves.** The run's effects and its closing events make an engine
`E`: its histories are the settled ones, it has published the run's events with a change of state
exactly when a history changed, and it stays fresh. The job then ends from `E` with everything its
runs reported, or walks on from `E`. -/
theorem resume_split {e : Engine α} {b : Busy α} (hinv : e.Invariant) (hfresh : e.Fresh)
    (hbusy : e.busy = some b) (reports : List ProgressEvent) (outcome : Outcome) :
    ∃ (E : Engine α) (changed : Bool),
      E.histories = e.settled b outcome.isOk ∧ (changed = true ↔ E.histories ≠ e.histories) ∧
      E.events = e.events ++ b.call.returned reports outcome changed ∧ E.replies = e.replies ∧
      E.Fresh ∧
      ((∃ r, e.resume reports outcome = E.finish b.ticket r (b.progress ++ reports)) ∨
        ∃ stack wanted target, e.resume reports outcome =
          E.walk b.ticket b.generation stack wanted target (b.progress ++ reports)) := by
  -- the run's reports are published first; nothing else changes that the rest reads
  obtain ⟨X, hXh, hXs, hXl, hXg, hXr, hXe, hrun⟩ : ∃ X : Engine α, X.histories = e.histories ∧
      X.sequence = e.sequence ∧ X.undoLimit = e.undoLimit ∧ X.generation = e.generation ∧
      X.replies = e.replies ∧ X.events = e.events ++ reports.map (.progress b.call.command.id) ∧
      e.afterRun b reports outcome.isOk = X := by
    refine ⟨_, ?_, ?_, ?_, ?_, ?_, events_afterRun e b reports outcome.isOk, rfl⟩ <;>
      rw [afterRun_eq]
  have hXfresh : X.Fresh := hfresh.of_same hXh hXs.ge
  have hshaped := hinv.busy_shaped b hbusy
  unfold resume settled
  rw [hbusy]
  dsimp only
  rw [hrun]
  simp only [hXg]
  cases hseq : b.sequel with
  | record stack =>
      have hop : b.call.operation = .execute := by
        unfold Busy.Shaped at hshaped
        rwa [hseq] at hshaped
      dsimp only
      by_cases hrec : (outcome.isOk && !b.call.command.isQuery && e.generation == b.generation) = true
      · -- the command is recorded, which changes its stack
        have hhist : (X.record stack b.call.command).histories = (e.record stack b.call.command).histories :=
          histories_record_congr hXh hXs hXl _ _
        simp only [hrec, if_true]
        refine ⟨((X.record stack b.call.command).publish (.completed b.call.command.id b.call.command.text
            b.call.operation (errorText (b.call.command.settle outcome)))).publish .stateChanged, true,
          hhist, ⟨fun _ => hhist ▸ record_changes hfresh _ _, fun _ => rfl⟩, ?_,
          by simp [hXr], (hXfresh.record _ _).of_same rfl (le_refl _), .inl ⟨_, rfl⟩⟩
        rw [events_publish, events_publish, record_eq, hXe]
        simp [Call.returned, hop, errorText]
      · simp only [hrec, Bool.false_eq_true, if_false]
        refine ⟨X.publish (.completed b.call.command.id b.call.command.text b.call.operation
            (errorText (b.call.command.settle outcome))), false, hXh, by simp [hXh], ?_, by simp [hXr],
          hXfresh.of_same rfl (le_refl _),
          .inl ⟨_, rfl⟩⟩
        rw [events_publish, hXe]
        simp [Call.returned, hop, errorText]
  | step stack =>
      have hop : b.call.operation ≠ .execute := by
        unfold Busy.Shaped at hshaped
        rw [hseq] at hshaped
        rcases hshaped with h | h <;> rw [h] <;> decide
      dsimp only
      obtain ⟨e₂, moved, hm⟩ : ∃ e₂ moved, (if outcome.isOk then
          X.moveCursor b.generation stack b.call.command (b.call.operation == Operation.redo)
          else (X, false)) = (e₂, moved) := ⟨_, _, rfl⟩
      obtain ⟨hh₂, hmoved, hev₂, hr₂, hfresh₂⟩ := step_move hXfresh (hXh ▸ hinv.ids_nodup) hm
      rw [hm]
      dsimp only
      rw [publish_closing]
      refine ⟨_, moved, ?_, ?_, ?_, ?_, ?_, .inl ⟨_, rfl⟩⟩
      · rw [hh₂, (moveCursor_congr hXh hXs hXg _ _ _ _).1, hXh]
      · rwa [← hXh]
      · rw [hev₂, hXe]
        cases hres : b.call.command.settle outcome <;> cases moved <;>
          simp [Call.returned, hop, errorText, hres]
      · exact hr₂.trans hXr
      · exact hfresh₂.of_same rfl (le_refl _)
  | walk stack wanted target =>
      have hop : b.call.operation ≠ .execute := by
        unfold Busy.Shaped at hshaped
        rw [hseq] at hshaped
        rcases hshaped with h | h <;> rw [h] <;> decide
      dsimp only
      obtain ⟨e₂, moved, hm⟩ : ∃ e₂ moved, (if outcome.isOk then
          X.moveCursor b.generation stack b.call.command (b.call.operation == Operation.redo)
          else (X, false)) = (e₂, moved) := ⟨_, _, rfl⟩
      obtain ⟨hh₂, hmoved, hev₂, hr₂, hfresh₂⟩ := step_move hXfresh (hXh ▸ hinv.ids_nodup) hm
      rw [hm]
      dsimp only
      rw [publish_closing]
      generalize hE : ({ e₂ with events := _ } : Engine α) = E
      refine ⟨E, moved, ?_, ?_, ?_, ?_, ?_, ?_⟩
      · rw [← hE, hh₂, (moveCursor_congr hXh hXs hXg _ _ _ _).1, hXh]
      · rw [← hE]
        rwa [← hXh]
      · rw [← hE, hev₂, hXe]
        cases hres : b.call.command.settle outcome <;> cases moved <;>
          simp [Call.returned, hop, errorText, hres]
      · rw [← hE]
        exact hr₂.trans hXr
      · rw [← hE]
        exact hfresh₂.of_same rfl (le_refl _)
      -- a failed step or a clear in between ends the walk; otherwise it goes on
      split
      · exact .inl ⟨_, rfl⟩
      · split_ifs
        · exact .inl ⟨_, rfl⟩
        · exact .inr ⟨stack, wanted, target, rfl⟩

theorem Fresh.resume {e : Engine α} (hinv : e.Invariant) (hfresh : e.Fresh) (reports : List ProgressEvent)
    (outcome : Outcome) : (e.resume reports outcome).Fresh := by
  cases hbusy : e.busy with
  | none => rwa [resume_idle hbusy]
  | some b =>
      obtain ⟨E, -, -, -, -, -, hE, hend⟩ := resume_split hinv hfresh hbusy reports outcome
      rcases hend with ⟨r, h⟩ | ⟨stack, wanted, target, h⟩ <;> rw [h]
      · exact hE.of_same rfl (le_refl _)
      · exact hE.of_same (histories_walk E _ _ _ _ _ _) (sequence_walk E _ _ _ _ _ _).ge

theorem sequence_handle (e : Engine α) (k : Nat) (act : Handling) :
    (e.handle k act).sequence = e.sequence := by
  obtain ⟨_, _, _, h⟩ := handle_eq e k act
  rw [h]

theorem Fresh.apply {e : Engine α} (hinv : e.Invariant) (hfresh : e.Fresh) (x : Input α) :
    (e.apply x).Fresh := by
  by_cases hsub : x.isSubmission = true
  · obtain ⟨n, p, q, m, h, -⟩ := apply_submission e hsub
    rw [h]
    exact hfresh
  cases x with
  | pickUp => exact hfresh.of_same (histories_pickUp e) (sequence_pickUp e).ge
  | reporter k act => exact hfresh.of_same (histories_handle e k act) (sequence_handle e k act).ge
  | halt =>
      obtain ⟨receiving, h⟩ := halt_eq e
      rw [Engine.apply, h]
      exact hfresh
  | resume reports outcome => exact hfresh.resume hinv reports outcome
  | clear =>
      intro s hs
      obtain ⟨t, ht, rfl⟩ := List.mem_map.mp hs
      exact hfresh t ht
  | setUndoLimit limit =>
      intro s hs
      rw [Engine.apply, setUndoLimit_eq] at hs
      obtain ⟨t, ht, rfl⟩ := List.mem_map.mp hs
      rw [Engine.apply, setUndoLimit_eq, Stack.touched_truncate]
      exact hfresh t ht
  | setActive stack =>
      intro s hs
      rw [Engine.apply, setActive_eq] at hs ⊢
      rcases mem_withStack hs with hold | ⟨t, ht | rfl, -, rfl⟩
      · exact hfresh s hold
      · exact hfresh _ ht
      · exact Nat.zero_le _
  | route scope stack =>
      simp only [Engine.apply]
      split
      · rename_i e' hroute
        rw [(route_eq hroute).2.2.2]
        exact hfresh
      · exact hfresh
  | shutdown => exact hfresh
  | _ => exact absurd rfl hsub

theorem fresh_run {e : Engine α} (hinv : e.Invariant) (hfresh : e.Fresh) (xs : List (Input α)) :
    (e.run xs).Fresh := by
  induction xs generalizing e with
  | nil => exact hfresh
  | cons x xs ih => exact ih (hinv.apply x) (hfresh.apply hinv x)

/-- From `e` to `e'` the worker handed the job of ticket `t` on with what its runs reported so far,
`p`: the job ended with a reply that carries `p`, or it waits on a run and carries `p`. -/
def Hands (t : Nat) (p : List ProgressEvent) (e e' : Engine α) : Prop :=
  (e'.busy = none ∧ ∃ r, e'.replies = e.replies ++ [⟨t, r, p⟩]) ∨
    ∃ b : Busy α, e'.busy = some b ∧ b.ticket = t ∧ b.progress = p ∧ e'.replies = e.replies

theorem Hands.of_replies {t : Nat} {p : List ProgressEvent} {e₀ e e' : Engine α} (h : Hands t p e e')
    (hr : e.replies = e₀.replies) : Hands t p e₀ e' := by
  rw [Hands, ← hr]
  exact h

theorem hands_walk (e : Engine α) (t g : Nat) (stack : String) (wanted : Nat) (target : Option Nat)
    (p : List ProgressEvent) : Hands t p e (e.walk t g stack wanted target p) := by
  rcases walk_cases e t g stack wanted target p with ⟨r, h⟩ | ⟨s, c, -, -, h⟩ | ⟨s, c, -, -, h⟩ <;>
    rw [h]
  · exact .inl ⟨rfl, r, rfl⟩
  all_goals exact .inr ⟨_, busy_await .., rfl, rfl, replies_await ..⟩

theorem hands_begin (e : Engine α) (job : Job α) : Hands job.ticket [] e (e.begin job) := by
  rcases begin_cases e job with ⟨r, hb⟩ | ⟨-, ⟨c, stack, -, hb⟩ | ⟨f, stack, c, -, -, hb⟩ |
    ⟨f, stack, c, -, -, hb⟩ | ⟨wanted, target, hb⟩⟩ <;> rw [hb]
  · exact .inl ⟨rfl, r, rfl⟩
  · exact .inr ⟨_, busy_await .., rfl, rfl, replies_await ..⟩
  · exact .inr ⟨_, busy_await .., rfl, rfl, replies_await ..⟩
  · exact .inr ⟨_, busy_await .., rfl, rfl, replies_await ..⟩
  · exact hands_walk e _ _ _ _ _ _

theorem hands_resume {e : Engine α} {b : Busy α} (hinv : e.Invariant) (hfresh : e.Fresh)
    (hbusy : e.busy = some b) (reports : List ProgressEvent) (outcome : Outcome) :
    Hands b.ticket (b.progress ++ reports) e (e.resume reports outcome) := by
  obtain ⟨E, -, -, -, -, hr, -, hend⟩ := resume_split hinv hfresh hbusy reports outcome
  rcases hend with ⟨r, h⟩ | ⟨stack, wanted, target, h⟩ <;> rw [h]
  · exact .inl ⟨rfl, r, by rw [← hr]; rfl⟩
  · exact (hands_walk E _ _ _ _ _ _).of_replies hr

/-- What an input reported for the job of ticket `t`: the reports of a returned run of that job, or
a report made on an open reporter of the job. -/
def reportsOf (e : Engine α) (t : Nat) : Input α → List ProgressEvent
  | .resume reports _ => if e.busy.map (·.ticket) = some t then reports else []
  | .reporter k (.emit ev) => ((e.reporters[k]?.filter fun r => r.isOpen && r.ticket == t).map fun _ => ev).toList
  | _ => []

/-- What the runs of the job of ticket `t` reported during a run of inputs, in order. -/
def reportsFor (e : Engine α) (t : Nat) : List (Input α) → List ProgressEvent
  | [] => []
  | x :: xs => e.reportsOf t x ++ (e.apply x).reportsFor t xs

/-- The progress the jobs carry is `R`: a reply carries its job's, the job in flight its own so far,
and a queued or later job has none yet. -/
structure Streams (R : Nat → List ProgressEvent) (e : Engine α) : Prop where
  replies : ∀ r ∈ e.replies, r.progress = R r.ticket
  busy : ∀ b, e.busy = some b → b.progress = R b.ticket
  queued : ∀ job ∈ e.queue, R job.ticket = []
  later : ∀ t, e.nextTicket ≤ t → R t = []

theorem Books.busy_apart {acc ran : List Nat} {e : Engine α} (h : e.Books acc ran) {b : Busy α}
    (hbusy : e.busy = some b) :
    (∀ r ∈ e.replies, r.ticket ≠ b.ticket) ∧ (∀ job ∈ e.queue, job.ticket ≠ b.ticket) ∧
      b.ticket < e.nextTicket := by
  have hrising := h.rising
  rw [← h.tickets, Engine.tickets, hbusy, Option.map_some, Option.toList_some, List.pairwise_append,
    List.pairwise_append] at hrising
  obtain ⟨⟨-, -, hbefore⟩, -, hafter⟩ := hrising
  refine ⟨fun r hr => Nat.ne_of_lt (hbefore _ (List.mem_map_of_mem hr) _ (List.mem_singleton_self _)),
    fun job hjob => Nat.ne_of_gt
      (hafter _ (List.mem_append_right _ (List.mem_singleton_self _)) _ (List.mem_map_of_mem hjob)),
    h.below _ (h.tickets ▸ ?_)⟩
  simp [Engine.tickets, hbusy]

theorem reportsOf_caller (e : Engine α) (t : Nat) {x : Input α} (hx : x.isCaller) : e.reportsOf t x = [] := by
  cases x <;> first | rfl | cases hx

/-- A step that hands the job `t` on with `R' t`, where `R'` agrees with `R` on every other job the
step leaves, keeps the accounting. -/
theorem Streams.hands {R R' : Nat → List ProgressEvent} {e e' : Engine α} (h : e.Streams R) {t : Nat}
    (hhands : Hands t (R' t) e e') (hreplies : ∀ r ∈ e.replies, R' r.ticket = R r.ticket)
    (hqueue : ∀ job ∈ e'.queue, job ∈ e.queue ∧ R' job.ticket = R job.ticket)
    (hlater : ∀ t', e'.nextTicket ≤ t' → e.nextTicket ≤ t' ∧ R' t' = R t') : e'.Streams R' := by
  refine ⟨fun r hr => ?_, fun b hb => ?_, fun job hjob => ?_, fun t' ht' => ?_⟩
  · rcases hhands with ⟨-, res, hrep⟩ | ⟨b, -, -, -, hrep⟩ <;> rw [hrep] at hr
    · rcases List.mem_append.mp hr with hold | hnew
      · rw [hreplies r hold]
        exact h.replies r hold
      · rw [List.mem_singleton.mp hnew]
    · rw [hreplies r hr]
      exact h.replies r hr
  · rcases hhands with ⟨hnone, -⟩ | ⟨b', hb', hticket, hprogress, -⟩
    · rw [hnone] at hb
      cases hb
    · rw [hb'] at hb
      cases hb
      rw [hprogress, hticket]
  · obtain ⟨hold, hsame⟩ := hqueue job hjob
    rw [hsame]
    exact h.queued job hold
  · obtain ⟨hle, hsame⟩ := hlater t' ht'
    rw [hsame]
    exact h.later t' hle

/-- A report on an open reporter reaches the job in flight, the reporter's own; anything else a
reporter does reaches no job. -/
theorem Streams.handle {R : Nat → List ProgressEvent} {acc ran : List Nat} {e : Engine α}
    (h : e.Streams R) (hbooks : e.Books acc ran) (hreporting : e.Reporting) (k : Nat) (act : Handling) :
    (e.handle k act).Streams fun t => R t ++ e.reportsOf t (.reporter k act) := by
  -- what nothing reaches: the other uses of a reporter, and a report on a closed one
  have hsilent : ∀ e' : Engine α, e'.replies = e.replies → e'.busy = e.busy → e'.queue = e.queue →
      e'.nextTicket = e.nextTicket → (∀ t, e.reportsOf t (.reporter k act) = []) →
      e'.Streams fun t => R t ++ e.reportsOf t (.reporter k act) := by
    intro e' hr hb hq hn hnone
    simp only [hnone, List.append_nil]
    exact ⟨hr ▸ h.replies, hb ▸ h.busy, hq ▸ h.queued, hn ▸ h.later⟩
  cases act with
  | keep =>
      simp only [Engine.handle]
      split_ifs <;> exact hsilent _ rfl rfl rfl rfl fun _ => rfl
  | release => exact hsilent _ rfl rfl rfl rfl fun _ => rfl
  | emit ev =>
      cases hr : e.reporters[k]? with
      | none =>
          have hnone : ∀ t, e.reportsOf t (.reporter k (.emit ev)) = [] := by
            intro t
            simp [reportsOf, hr]
          simp only [Engine.handle, hr]
          exact hsilent _ rfl rfl rfl rfl hnone
      | some r =>
          by_cases hopen : r.isOpen = true
          · -- the reporter is the run's in flight, whose job alone gains the report
            have hk : e.reporterOpen k = true := by simp [reporterOpen, hr, hopen]
            obtain ⟨b, hbusy, rfl⟩ := (hreporting.open_iff k).mp hk
            obtain ⟨r', hr', hticket, -⟩ := hreporting.busy_reporter b hbusy
            rw [hr] at hr'
            cases hr'
            obtain ⟨hreplies, hqueued, hbelow⟩ := hbooks.busy_apart hbusy
            have hother : ∀ t, t ≠ b.ticket → R t ++ e.reportsOf t (.reporter b.reporter (.emit ev)) = R t := by
              intro t ht
              simp [reportsOf, hr, hopen, hticket, Ne.symm ht]
            simp only [Engine.handle, hr, hopen, if_true]
            refine h.hands (t := b.ticket) (.inr ⟨{ b with progress := b.progress ++ [ev] }, ?_, rfl, ?_, rfl⟩)
              (fun r hr => hother _ (hreplies r hr)) (fun job hjob => ⟨hjob, hother _ (hqueued job hjob)⟩)
              (fun t' ht' => ⟨ht', hother _ (by simp only [forward, publish] at ht'; omega)⟩)
            · simp [forward, hbusy, hticket]
            · simp [reportsOf, hr, hopen, hticket, h.busy b hbusy, Option.filter]
          · have hnone : ∀ t, e.reportsOf t (.reporter k (.emit ev)) = [] := by
              intro t
              simp [reportsOf, hr, hopen]
            simp only [Engine.handle, hr, hopen, Bool.false_eq_true, if_false]
            exact hsilent _ rfl rfl rfl rfl hnone

/-- **Each input keeps the accounting**, the reports of a returned run and of an open reporter
added to their job's. -/
theorem Streams.apply {R : Nat → List ProgressEvent} {acc ran : List Nat} {e : Engine α}
    (h : e.Streams R) (hbooks : e.Books acc ran) (hinv : e.Invariant) (hfresh : e.Fresh)
    (hreporting : e.Reporting) (x : Input α) :
    (e.apply x).Streams fun t => R t ++ e.reportsOf t x := by
  cases hcaller : x.isCaller
  · cases x with
    | pickUp =>
        simp only [reportsOf, List.append_nil]
        rcases pickUp_cases e with hp | ⟨job, rest, hbusy, hqueue, hp⟩
        · rw [Engine.apply, hp]
          exact h
        have hnone : R job.ticket = [] := h.queued job (hqueue ▸ List.mem_cons_self ..)
        rw [Engine.apply, hp]
        refine h.hands (t := job.ticket) ?_ (fun _ _ => rfl) (fun j hj => ⟨?_, rfl⟩)
          (fun t' ht' => ⟨by rw [(SameSetup.begin _ job).nextTicket] at ht'; exact ht', rfl⟩)
        · rw [hnone]
          exact (hands_begin _ job).of_replies rfl
        · rw [queue_begin] at hj
          rw [hqueue]
          exact List.mem_cons_of_mem _ hj
    | resume reports outcome =>
        cases hbusy : e.busy with
        | none =>
            simp only [reportsOf, hbusy, Option.map_none, reduceCtorEq, if_false, List.append_nil]
            rw [Engine.apply, resume_idle hbusy]
            exact h
        | some b =>
            -- only the job in flight gains reports, and no other job has its ticket
            obtain ⟨hreplies, hqueued, hbelow⟩ := hbooks.busy_apart hbusy
            have hother : ∀ t, t ≠ b.ticket → R t ++ e.reportsOf t (.resume reports outcome) = R t := by
              intro t ht
              simp [reportsOf, hbusy, Ne.symm ht]
            refine h.hands (t := b.ticket) ?_ (fun r hr => hother _ (hreplies r hr))
              (fun job hjob => ?_) (fun t' ht' => ?_)
            · rw [Engine.apply]
              simpa [reportsOf, hbusy, h.busy b hbusy] using hands_resume hinv hfresh hbusy reports outcome
            · rw [Engine.apply, queue_resume] at hjob
              exact ⟨hjob, hother _ (hqueued job hjob)⟩
            · rw [Engine.apply, (SameSetup.resume e reports outcome).nextTicket] at ht'
              exact ⟨ht', hother _ (by omega)⟩
    | reporter k act => exact h.handle hbooks hreporting k act
    | halt =>
        have hR : (fun t => R t ++ e.reportsOf t .halt) = R := funext fun t => List.append_nil _
        obtain ⟨receiving, hx⟩ := halt_eq e
        rw [hR, Engine.apply, hx]
        exact ⟨h.replies, h.busy, h.queued, h.later⟩
    | _ => cases hcaller
  have hR : (fun t => R t ++ e.reportsOf t x) = R :=
    funext fun t => by rw [reportsOf_caller e t hcaller, List.append_nil]
  rw [hR]
  cases hsub : x.isSubmission
  · -- a caller that submits nothing keeps the replies, the job in flight, the queue and the tickets
    obtain ⟨hjobs, hnext, -⟩ := apply_control e hcaller hsub
    have hreplies : (e.apply x).replies = e.replies := by
      by_cases hclear : x = .clear
      · subst hclear
        rfl
      · exact (books_control e hcaller hsub hclear).1
    exact ⟨fun r hr => h.replies r (hreplies ▸ hr), fun b hb => h.busy b (hjobs.busy ▸ hb),
      fun job hjob => h.queued job (hjobs.queue ▸ hjob), fun t ht => h.later t (hnext ▸ ht)⟩
  -- a submission queues a job of the next ticket, which nothing has reported for
  rcases submission_cases e hsub with ⟨-, n, p, hn, happly, -⟩ | ⟨job, -, hjt, -, -, happly⟩ <;> rw [happly]
  · exact ⟨h.replies, h.busy, h.queued, fun t ht => h.later t (Nat.le_trans hn ht)⟩
  · refine ⟨h.replies, h.busy, fun j hj => ?_, fun t ht => h.later t (Nat.le_of_succ_le ht)⟩
    rcases List.mem_append.mp hj with hold | hnew
    · exact h.queued j hold
    · rw [List.mem_singleton.mp hnew, hjt]
      exact h.later _ (le_refl _)

theorem Streams.run {R : Nat → List ProgressEvent} {acc ran : List Nat} {e : Engine α}
    (h : e.Streams R) (hbooks : e.Books acc ran) (hinv : e.Invariant) (hfresh : e.Fresh)
    (hreporting : e.Reporting) (xs : List (Input α)) : (e.run xs).Streams fun t => R t ++ e.reportsFor t xs := by
  induction xs generalizing e R acc ran with
  | nil => simpa [reportsFor] using h
  | cons x xs ih =>
      simpa [reportsFor, List.append_assoc] using
        ih (h.apply hbooks hinv hfresh hreporting x) (hbooks.apply hinv x) (hinv.apply x)
          (hfresh.apply hinv x) (hreporting.apply x)

theorem fresh_create {c : Config} {e₀ : Engine α} (hcreate : Engine.create c = .ok e₀) : e₀.Fresh := by
  obtain ⟨r, f, routes, -, -, -, rfl⟩ := create_eq hcreate
  intro s hs
  rw [List.mem_singleton.mp hs]
  exact le_refl _

end Engine

end ScopedUndo
