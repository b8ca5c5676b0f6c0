import ScopedUndo.Proofs.Ledger.Replay
import ScopedUndo.Proofs.Engine.Work
import ScopedUndo.Proofs.Engine.Queue
/-!
# The ledger follows the histories

A session's engine keeps its commands' actions on a ledger: the worker runs each action on the
ledger and hands the ledger's answer back to the engine. `Consistent` is what then ties the two
together, given the stack each account's commands go to (`home`) and, per stack, the commands that
left it from the front (`shed`):

* each balance is the shed and done commands of its account's stack, replayed (`replay`);
* each command in a history remembers the balance its account had before it on that stack's
  timeline, and an add fits on top of that balance (`Kept`), so that an undo restores the right
  balance and a redo never overflows;
* commands sit on their account's stack and ids tell them apart.

Every step keeps it, taken one kind at a time: a returned run that failed changes nothing
(`resume_fail`), a recorded command appends to its stack's timeline (`resume_record`), an undo puts
back the remembered balance (`resume_undo`) and a redo replays the command where it ran before
(`resume_redo`); a new limit or a clear moves done commands onto the shed part. `Consistent.workFor`
carries it through the worker loop.
-/

namespace ScopedUndo

namespace Engine

variable {α : Type}

/-! ### How each step changes the stacks -/

theorem stackOrEmpty_pickUp (e : Engine α) (x : String) : e.pickUp.stackOrEmpty x = e.stackOrEmpty x :=
  stackOrEmpty_congr (histories_pickUp e) x

theorem stackOrEmpty_setUndoLimit (e : Engine α) (limit : Nat) (x : String) :
    (e.setUndoLimit limit).stackOrEmpty x = ((e.stackOrEmpty x).truncate limit).1 := by
  unfold stackOrEmpty stack?
  rw [setUndoLimit_eq]
  dsimp only
  rw [find?_map_id _ _ (fun t => Stack.id_truncate t limit)]
  cases e.histories.find? (·.id == x) with
  | none => simp [Stack.truncate, Stack.count]
  | some s => rfl

theorem stackOrEmpty_clear (e : Engine α) (x : String) :
    e.clear.stackOrEmpty x = (e.stackOrEmpty x).clear := by
  unfold stackOrEmpty stack?
  rw [clear_eq]
  dsimp only
  rw [find?_map_id _ Stack.clear (fun t => rfl)]
  cases e.histories.find? (·.id == x) <;> rfl

theorem shedOf_clear {e : Engine α} (hnodup : (e.histories.map Stack.id).Nodup) (x : String) :
    shedOf x (e.deeds .clear) = (e.stackOrEmpty x).done := by
  simp only [deeds]
  rw [shedOf_sheds hnodup Stack.done x (by simp [Stack.done])]
  rfl

theorem shedOf_setUndoLimit {e : Engine α} (hnodup : (e.histories.map Stack.id).Nodup) (limit : Nat)
    (x : String) : shedOf x (e.deeds (.setUndoLimit limit)) = (e.stackOrEmpty x).trimmedFront limit := by
  simp only [deeds]
  rw [shedOf_sheds hnodup (fun s => s.trimmedFront limit) x (by simp [Stack.trimmedFront])]
  rfl

theorem stackOrEmpty_resume_fail {e : Engine α} {b : Busy α} (hbusy : e.busy = some b)
    (reports : List ProgressEvent) {outcome : Outcome} (hfail : outcome.isOk = false) (x : String) :
    (e.resume reports outcome).stackOrEmpty x = e.stackOrEmpty x := by
  apply stackOrEmpty_congr
  rw [histories_resume hbusy, hfail]
  unfold settled
  split <;> simp

theorem stackOrEmpty_resume_query {e : Engine α} {b : Busy α} (hbusy : e.busy = some b)
    (reports : List ProgressEvent) (outcome : Outcome) {stack : String} (hseq : b.sequel = .record stack)
    (hq : b.call.command.isQuery = true) (x : String) :
    (e.resume reports outcome).stackOrEmpty x = e.stackOrEmpty x := by
  apply stackOrEmpty_congr
  rw [histories_resume hbusy]
  simp [settled, hseq, hq]

/-- A successful run of an executed command that is no query pushes the command onto its stack and
trims the stack to the limit. -/
theorem stackOrEmpty_resume_record {e : Engine α} (hon : e.OnTime) {b : Busy α} (hbusy : e.busy = some b)
    (reports : List ProgressEvent) {outcome : Outcome} (hok : outcome.isOk = true) {stack : String}
    (hseq : b.sequel = .record stack) (hq : b.call.command.isQuery = false) (x : String) :
    (e.resume reports outcome).stackOrEmpty x =
      if x = stack then
        (((e.stackOrEmpty stack).push b.call.command).truncate e.undoLimit).1.touch (e.sequence + 1)
      else e.stackOrEmpty x := by
  have hgen := (hon b hbusy).1
  have hh : (e.resume reports outcome).histories = (e.record stack b.call.command).histories := by
    rw [histories_resume hbusy]
    simp [settled, hseq, hok, hq, hgen]
  rw [stackOrEmpty_congr hh]
  unfold stackOrEmpty
  rw [stack?_record]
  split_ifs <;> rfl

/-- An undo or a redo in flight that is on time is a step or a walk next to the cursor of its
stack, and its success moves that cursor. -/
theorem stackOrEmpty_of_stack? {e : Engine α} {x : String} {s : Stack α} (h : e.stack? x = some s) :
    e.stackOrEmpty x = s := by
  rw [stackOrEmpty, h, Option.getD_some]

theorem settled_of_step {e : Engine α} (hon : e.OnTime) {b : Busy α} (hbusy : e.busy = some b)
    (hop : b.call.operation ≠ .execute) :
    e.settled b true =
        (e.moveCursor b.generation b.sequel.stack b.call.command (b.call.operation == .redo)).1.histories ∧
      ∃ s, e.stack? b.sequel.stack = some s ∧
        ((b.call.operation = .undo ∧ s.undoCommand? = some b.call.command) ∨
          (b.call.operation = .redo ∧ s.redoCommand? = some b.call.command)) := by
  obtain ⟨-, hready⟩ := hon b hbusy
  have hshaped := Busy.Ready.shaped hready
  unfold Busy.Ready at hready
  unfold settled
  cases hseq : b.sequel with
  | record stack => exact absurd ((Busy.Shaped.execute_iff hshaped).mpr ⟨stack, hseq⟩) hop
  | step stack =>
      rw [hseq] at hready
      exact ⟨rfl, hready⟩
  | walk stack wanted target =>
      rw [hseq] at hready
      exact ⟨rfl, hready⟩

/-- A successful undo or redo that is on time moves the cursor of its stack over its command, one
back or one on. -/
theorem stackOrEmpty_resume_move {e : Engine α} (hon : e.OnTime) {b : Busy α} (hbusy : e.busy = some b)
    (hop : b.call.operation ≠ .execute) (reports : List ProgressEvent) {outcome : Outcome}
    (hok : outcome.isOk = true) :
    ∃ s, e.stack? b.sequel.stack = some s ∧
      ((b.call.operation = .undo ∧ s.undoCommand? = some b.call.command ∧
          ∀ x, (e.resume reports outcome).stackOrEmpty x =
            if x = b.sequel.stack then { s with applied := s.applied - 1 }.touch (e.sequence + 1)
            else e.stackOrEmpty x) ∨
        (b.call.operation = .redo ∧ s.redoCommand? = some b.call.command ∧
          ∀ x, (e.resume reports outcome).stackOrEmpty x =
            if x = b.sequel.stack then { s with applied := s.applied + 1 }.touch (e.sequence + 1)
            else e.stackOrEmpty x)) := by
  have hgen := (hon b hbusy).1
  obtain ⟨hsettled, s, hs, hnb⟩ := settled_of_step hon hbusy hop
  have hh : (e.resume reports outcome).histories =
      (e.moveCursor b.generation b.sequel.stack b.call.command (b.call.operation == .redo)).1.histories := by
    rw [histories_resume hbusy, hok, hsettled]
  refine ⟨s, hs, ?_⟩
  rcases hnb with ⟨hundo, hc⟩ | ⟨hredo, hc⟩
  · refine .inl ⟨hundo, hc, fun x => ?_⟩
    have hback : (b.call.operation == .redo) = false := by rw [hundo]; rfl
    rw [stackOrEmpty_congr hh, stackOrEmpty,
      stack?_moveCursor_of_neighbour hgen.symm hs (by rw [hback]; exact hc), hback]
    simp only [Bool.false_eq_true, if_false, Stack.stepBackward_of_undoCommand? hc]
    split_ifs <;> rfl
  · refine .inr ⟨hredo, hc, fun x => ?_⟩
    have hfwd : (b.call.operation == .redo) = true := by rw [hredo]; rfl
    rw [stackOrEmpty_congr hh, stackOrEmpty,
      stack?_moveCursor_of_neighbour hgen.symm hs (by rw [hfwd]; exact hc), hfwd]
    simp only [if_true, Stack.stepForward_of_redoCommand? hc]
    split_ifs <;> rfl

theorem shedOf_resume {e : Engine α} (hon : e.OnTime) {b : Busy α} (hbusy : e.busy = some b)
    (reports : List ProgressEvent) (outcome : Outcome) (x : String) :
    shedOf x (e.deeds (.resume reports outcome)) =
      if outcome.isOk = true ∧ b.call.command.isQuery = false ∧ b.sequel = .record x then
        ((e.stackOrEmpty x).push b.call.command).trimmedFront e.undoLimit
      else [] := by
  have hgen := (hon b hbusy).1
  simp only [deeds, hbusy]
  by_cases hskip : b.call.command.skips b.call.operation.direction = true
  · -- a skipped run is the reverse of a query, and no query waits to be recorded
    rw [if_pos hskip]
    split_ifs with hrec
    · obtain ⟨-, hq, -⟩ := hrec
      simp [Command.skips, hq] at hskip
    · rfl
  rw [if_neg hskip]
  cases hseq : b.sequel with
  | record stack =>
      dsimp only
      by_cases hdo : outcome.isOk = true ∧ b.call.command.isQuery = false
      · rw [if_pos (by simp [hdo.1, hdo.2, hgen])]
        by_cases hx : stack = x
        · subst hx
          simp [shedOf, Deed.shedFrom, hdo.1, hdo.2]
        · simp [shedOf, Deed.shedFrom, hx]
      · have hnot : (outcome.isOk && !b.call.command.isQuery && e.generation == b.generation) = false := by
          cases hok : outcome.isOk <;> cases hq : b.call.command.isQuery <;> simp_all
        rw [hnot, if_neg Bool.false_ne_true, if_neg (fun h => hdo ⟨h.1, h.2.1⟩)]
        rfl
  | step stack => simp [shedOf, Deed.shedFrom]
  | walk stack wanted target => simp [shedOf, Deed.shedFrom]

theorem deeds_submission (e : Engine α) {x : Input α} (hx : x.isSubmission) : e.deeds x = [] := by
  cases x with
  | enqueue _ | undo _ | redo _ | jump _ => rfl
  | _ => simp [Input.isSubmission] at hx

/-- A run in flight is never skipped: an execute runs forward, and an undo or a redo runs a
command of a history, which is no query. -/
theorem answer_eq_run {σ : Type} (run : σ → Command α → Direction → σ × List ProgressEvent × Outcome)
    (w : σ) {e : Engine α} (hinv : e.Invariant) (hon : e.OnTime) {b : Busy α}
    (hbusy : e.busy = some b) :
    answer run w b.call = run w b.call.command b.call.operation.direction := by
  have hns : b.call.command.skips b.call.operation.direction = false := by
    by_cases hop : b.call.operation = .execute
    · simp [Command.skips, hop, Operation.direction]
    · obtain ⟨-, s, hs, hnb⟩ := settled_of_step hon hbusy hop
      exact hinv.not_skips hs hnb
  rw [answer, if_neg (by simp [hns])]

end Engine

/-! ### Commands waiting to be recorded -/

variable {α : Type}

def Job.toRecord? (job : Job α) : Option (Command α × String) :=
  match job.task with
  | .execute c stack => some (c, stack)
  | _ => none

/-- The command a job in flight records once its run returns, with its stack. -/
def Busy.toRecord? (b : Busy α) : Option (Command α × String) :=
  match b.sequel with
  | .record stack => some (b.call.command, stack)
  | _ => none

namespace Engine

variable {α : Type}

theorem shedOf_resume_step {e : Engine α} (hon : e.OnTime) {b : Busy α} (hbusy : e.busy = some b)
    (hop : b.call.operation ≠ .execute) (reports : List ProgressEvent) (outcome : Outcome)
    (x : String) : shedOf x (e.deeds (.resume reports outcome)) = [] := by
  rw [shedOf_resume hon hbusy, if_neg]
  rintro ⟨-, -, hrec⟩
  exact hop ((Busy.Shaped.execute_iff (Busy.Ready.shaped (hon b hbusy).2)).mpr ⟨x, hrec⟩)

theorem shedOf_resume_record {e : Engine α} (hon : e.OnTime) {b : Busy α} (hbusy : e.busy = some b)
    {stack : String} (hseq : b.sequel = .record stack) (hq : b.call.command.isQuery = false)
    (reports : List ProgressEvent) {outcome : Outcome} (hok : outcome.isOk = true) (x : String) :
    shedOf x (e.deeds (.resume reports outcome)) =
      if x = stack then ((e.stackOrEmpty stack).push b.call.command).trimmedFront e.undoLimit
      else [] := by
  rw [shedOf_resume hon hbusy]
  by_cases hx : x = stack
  · subst hx
    simp [hok, hq, hseq]
  · rw [if_neg hx, if_neg]
    rintro ⟨-, -, hrec⟩
    rw [hseq] at hrec
    cases hrec
    exact hx rfl

theorem commands_resume_step {e : Engine α} (hon : e.OnTime) {b : Busy α} (hbusy : e.busy = some b)
    (hop : b.call.operation ≠ .execute) (reports : List ProgressEvent) (outcome : Outcome)
    (x : String) :
    ((e.resume reports outcome).stackOrEmpty x).commands = (e.stackOrEmpty x).commands := by
  cases hok : outcome.isOk
  · rw [stackOrEmpty_resume_fail hbusy reports hok]
  · obtain ⟨s, hs, ⟨-, -, hstacks⟩ | ⟨-, -, hstacks⟩⟩ :=
        stackOrEmpty_resume_move hon hbusy hop reports hok <;>
    · rw [hstacks]
      split_ifs with hx
      · rw [hx, stackOrEmpty_of_stack? hs]
        rfl
      · rfl

/-- The commands submitted to be executed and not recorded yet, each with the stack it is bound
for: the one in flight, then the queued ones in order. -/
def toRecord (e : Engine α) : List (Command α × String) :=
  (e.busy.bind Busy.toRecord?).toList ++ e.queue.filterMap Job.toRecord?

theorem toRecord_congr {e e' : Engine α} (hbusy : e'.busy = e.busy) (hqueue : e'.queue = e.queue) :
    e'.toRecord = e.toRecord := by
  simp [toRecord, hbusy, hqueue]

theorem toRecord_cons (b : Option (Busy α)) (job : Job α) (rest : List (Job α)) :
    (b.bind Busy.toRecord?).toList ++ (job :: rest).filterMap Job.toRecord? =
      (b.bind Busy.toRecord?).toList ++ (job.toRecord?.toList ++ rest.filterMap Job.toRecord?) := by
  cases h : job.toRecord? <;> simp [h]

theorem toRecord?_begin {e : Engine α} (hnodup : (e.histories.map Stack.id).Nodup) (job : Job α) :
    List.Sublist ((e.begin job).busy.bind Busy.toRecord?).toList job.toRecord?.toList := by
  cases hb : (e.begin job).busy with
  | none => exact List.nil_sublist _
  | some b =>
      obtain ⟨-, -, -, htask⟩ := busy_begin hnodup job hb
      simp only [Option.bind_some, Busy.toRecord?]
      split
      · rename_i stack hseq
        simp [Job.toRecord?, htask stack hseq]
      · exact List.nil_sublist _

theorem toRecord_pickUp {e : Engine α} (hnodup : (e.histories.map Stack.id).Nodup) :
    List.Sublist e.pickUp.toRecord e.toRecord := by
  rcases pickUp_cases e with hp | ⟨job, rest, hbusy, hqueue, hp⟩
  · rw [hp]
  have hnodup' : (({ e with queue := rest, inFlight := true } : Engine α).histories.map Stack.id).Nodup :=
    hnodup
  have hrest : ({ e with queue := rest, inFlight := true } : Engine α).queue = rest := rfl
  generalize ({ e with queue := rest, inFlight := true } : Engine α) = E at hp hnodup' hrest
  rw [hp, toRecord, toRecord, hqueue, toRecord_cons, queue_begin, hrest, hbusy]
  simp only [Option.bind_none, Option.toList_none, List.nil_append]
  exact (toRecord?_begin hnodup' job).append (List.Sublist.refl _)

theorem toRecord_resume {e : Engine α} {b : Busy α} (hbusy : e.busy = some b)
    (reports : List ProgressEvent) (outcome : Outcome) :
    e.toRecord = b.toRecord?.toList ++ e.queue.filterMap Job.toRecord? ∧
      (e.resume reports outcome).toRecord = e.queue.filterMap Job.toRecord? := by
  -- a job still in flight after a returned run is a walk, which records nothing
  have hnone : (e.resume reports outcome).busy.bind Busy.toRecord? = none := by
    cases hb' : (e.resume reports outcome).busy with
    | none => rfl
    | some b' =>
        obtain ⟨e₁, -, -, -, -, ⟨r, p, hr⟩ | ⟨stack, wanted, target, -, -, -, hr⟩⟩ :=
          resume_cases hbusy reports outcome <;> rw [hr] at hb'
        · simp at hb'
        · obtain ⟨-, -, -, hseq⟩ := busy_walk _ _ _ _ _ _ _ hb'
          simp [Busy.toRecord?, hseq]
  refine ⟨by simp [toRecord, hbusy], ?_⟩
  rw [toRecord, hnone, queue_resume]
  rfl

/-- A submission queues a command to record only when it submits one, bound for the stack the
command resolves to. -/
theorem toRecord_resume_sublist {e : Engine α} {b : Busy α} (hbusy : e.busy = some b)
    (reports : List ProgressEvent) (outcome : Outcome) :
    List.Sublist (e.resume reports outcome).toRecord e.toRecord := by
  obtain ⟨hbefore, hafter⟩ := toRecord_resume hbusy reports outcome
  rw [hafter, hbefore]
  exact List.sublist_append_right _ _

theorem mem_toRecord_of_busy {e : Engine α} {b : Busy α} (hbusy : e.busy = some b) {stack : String}
    (hseq : b.sequel = .record stack) : (b.call.command, stack) ∈ e.toRecord := by
  simp [toRecord, hbusy, Busy.toRecord?, hseq]

theorem toRecord_submission (e : Engine α) {x : Input α} (hx : x.isSubmission) :
    (e.apply x).toRecord = e.toRecord ∨
      ∃ c, x = .enqueue c ∧ (e.apply x).toRecord = e.toRecord ++ [(c, e.resolve c)] := by
  rcases submission_cases e hx with ⟨-, n, p, -, happly, -⟩ | ⟨job, -, -, -, hjob, happly⟩
  · left
    rw [happly]
    rfl
  have hqueue : (e.apply x).queue = e.queue ++ [job] := by rw [happly]
  have htr : (e.apply x).toRecord = e.toRecord ++ job.toRecord?.toList := by
    rw [toRecord, toRecord, hqueue, List.filterMap_append, happly]
    cases h : job.toRecord? <;> simp [h]
  cases hrec : job.toRecord? with
  | none =>
      left
      rw [htr, hrec, Option.toList_none, List.append_nil]
  | some p =>
      right
      obtain ⟨c, stack⟩ := p
      have htask : job.task = .execute c stack := by
        unfold Job.toRecord? at hrec
        split at hrec
        · cases hrec
          assumption
        · cases hrec
      -- only the submission of a command queues a job that executes one
      obtain ⟨n', p', q, m', happly', hq, -⟩ := apply_submission e hx
      rw [happly'] at hqueue
      rcases hq with ⟨hsame, -⟩ | ⟨task, hexec, happ, -⟩
      · simp [hsame] at hqueue
      · rw [happ] at hqueue
        have htask' : task = job.task := by
          simpa using congrArg (fun l : List (Job α) => (l.getLast?.map (·.task))) hqueue
        obtain rfl := hexec c stack (htask' ▸ htask)
        have hres := hjob c rfl
        rw [htask] at hres
        cases hres
        exact ⟨c, rfl, by rw [htr, hrec]; rfl⟩

/-! ### The stack of an account -/

/-- The stack a command of a scope goes to when it names none: the first route meeting the scope,
unless the scope is the wildcard, else the active stack. -/
def stackFor (e : Engine α) (scope : Scope) : String :=
  if scope.isAll then e.active
  else ((e.routes.find? fun r => r.1.meets scope).map (·.2)).getD e.active

theorem resolve_of_stack_none (e : Engine α) {c : Command α} (h : c.stack = none) :
    e.resolve c = e.stackFor c.scope := by
  unfold resolve stackFor
  rw [h]
  dsimp only
  split_ifs
  · rfl
  split
  · rename_i scope stack hfind
    rw [show (e.routes.find? fun r => r.1.meets c.scope) = some (scope, stack) by
      rw [← hfind]]
    rfl
  · rename_i hfind
    rw [show (e.routes.find? fun r => r.1.meets c.scope) = none by
      rw [← hfind]]
    rfl

/-- The stack the commands on an account go to: where a command of the account's scope goes. An
account whose scope name is unknown never has a command, and any stack does for it. -/
def home (e : Engine α) (a : Account) : String :=
  match e.registry.scopeOf a.1 with
  | .ok scope => e.stackFor scope
  | .error _ => e.active

/-! ### Where commands sit -/

theorem Stack.commands_truncate_sublist {s : Stack α} (limit : Nat) (hb : s.Bounded) :
    List.Sublist (s.truncate limit).1.commands s.commands := by
  obtain ⟨k, m, -, -, -, -, htrunc⟩ := s.truncate_eq limit hb
  rw [htrunc]
  exact (List.take_sublist _ _).trans (List.drop_sublist _ _)

theorem toRecord_control (e : Engine α) {x : Input α} (hx : x.isCaller) (hsub : x.isSubmission = false) :
    (e.apply x).toRecord = e.toRecord :=
  toRecord_congr (apply_control e hx hsub).1.busy (apply_control e hx hsub).1.queue

theorem commands_setUndoLimit_sublist {e : Engine α} (hinv : e.Invariant) (limit : Nat) (x : String) :
    List.Sublist ((e.apply (.setUndoLimit limit)).stackOrEmpty x).commands
      (e.stackOrEmpty x).commands := by
  rw [show (e.apply (.setUndoLimit limit)).stackOrEmpty x = ((e.stackOrEmpty x).truncate limit).1 from
    stackOrEmpty_setUndoLimit e limit x]
  exact Stack.commands_truncate_sublist limit (hinv.bounded_stackOrEmpty x)

theorem commands_clear_eq_nil (e : Engine α) (x : String) :
    ((e.apply .clear).stackOrEmpty x).commands = [] := by
  rw [show (e.apply .clear).stackOrEmpty x = (e.stackOrEmpty x).clear from stackOrEmpty_clear e x,
    Stack.commands_clear]

/-- Where the commands of a ledger's engine sit: each command in a history on the stack of its
account, and a set or an add; each command waiting to be recorded bound for the stack of its
account, with the kind its entry has; and ids that tell all of them apart. -/
structure Placed (home : Account → String) (e : Engine Entry) : Prop where
  placed : ∀ x c, c ∈ (e.stackOrEmpty x).commands → x = home c.action.account ∧ c.action.kind = .mutating
  bound : ∀ p ∈ e.toRecord, p.2 = home p.1.action.account ∧ p.1.kind = p.1.action.kind
  nodup : ∀ x, ((e.stackOrEmpty x).commands.map (·.id)).Nodup
  apart : ∀ x y c d, x ≠ y → c ∈ (e.stackOrEmpty x).commands → d ∈ (e.stackOrEmpty y).commands →
    c.id ≠ d.id
  fresh : ∀ p ∈ e.toRecord, ∀ x c, c ∈ (e.stackOrEmpty x).commands → c.id ≠ p.1.id
  waiting : (e.toRecord.map (·.1.id)).Nodup

namespace Placed

variable {home : Account → String} {e e' : Engine Entry}

theorem place (h : Placed home e) {x y : String} {i j : Nat} {c d : Command Entry}
    (hc : (e.stackOrEmpty x).commands[i]? = some c) (hd : (e.stackOrEmpty y).commands[j]? = some d)
    (hid : c.id = d.id) : x = y ∧ i = j := by
  have hxy : x = y := by
    by_contra hne
    exact h.apart x y c d hne (List.mem_of_getElem? hc) (List.mem_of_getElem? hd) hid
  subst hxy
  refine ⟨rfl, ?_⟩
  obtain ⟨hi, rfl⟩ := List.getElem?_eq_some_iff.mp hc
  obtain ⟨hj, rfl⟩ := List.getElem?_eq_some_iff.mp hd
  exact (@List.Nodup.getElem_inj_iff _ _ (h.nodup x) i (by simpa using hi) j (by simpa using hj)).mp
    (by simpa using hid)

/-- Steps that only drop commands, from the histories or from those waiting, keep commands where
they were. -/
theorem of_sublists (h : Placed home e)
    (hcmd : ∀ x, List.Sublist (e'.stackOrEmpty x).commands (e.stackOrEmpty x).commands)
    (hrec : List.Sublist e'.toRecord e.toRecord) : Placed home e' where
  placed x c hc := h.placed x c ((hcmd x).subset hc)
  bound p hp := h.bound p (hrec.subset hp)
  nodup x := (h.nodup x).sublist ((hcmd x).map _)
  apart x y c d hxy hc hd := h.apart x y c d hxy ((hcmd x).subset hc) ((hcmd y).subset hd)
  fresh p hp x c hc := h.fresh p (hrec.subset hp) x c ((hcmd x).subset hc)
  waiting := h.waiting.sublist (hrec.map _)

theorem of_commands (h : Placed home e)
    (hcmd : ∀ x, (e'.stackOrEmpty x).commands = (e.stackOrEmpty x).commands)
    (hrec : List.Sublist e'.toRecord e.toRecord) : Placed home e' :=
  h.of_sublists (fun x => by rw [hcmd x]) hrec

/-- Recording the first command waiting pushes it onto its stack, trimmed: it goes where it was
bound, with an id no history has. -/
theorem record (h : Placed home e) {c : Command Entry} {stack : String} {rest : List (Command Entry × String)}
    (hb : (e.stackOrEmpty stack).Bounded) (hbefore : e.toRecord = (c, stack) :: rest)
    (hafter : e'.toRecord = rest) (hmut : c.action.kind = .mutating) (limit n : Nat)
    (hstacks : ∀ x, e'.stackOrEmpty x =
      if x = stack then (((e.stackOrEmpty stack).push c).truncate limit).1.touch n else e.stackOrEmpty x) :
    Placed home e' := by
  have hhead : (c, stack) ∈ e.toRecord := by rw [hbefore]; exact List.mem_cons_self
  have hrest : ∀ p ∈ rest, p ∈ e.toRecord := fun p hp => by rw [hbefore]; exact List.mem_cons_of_mem _ hp
  have hnew : c.id ∉ rest.map (·.1.id) := by
    have hw := h.waiting
    rw [hbefore, List.map_cons, List.nodup_cons] at hw
    exact hw.1
  have hmem : ∀ x d, d ∈ (e'.stackOrEmpty x).commands →
      d ∈ (e.stackOrEmpty x).commands ∨ (x = stack ∧ d = c) := by
    intro x d hd
    rw [hstacks] at hd
    split_ifs at hd with hx
    · subst hx
      rcases Stack.mem_commands_push (Stack.mem_commands_truncate limit (hb.push c) hd) with hold | rfl
      · exact .inl hold
      · exact .inr ⟨rfl, rfl⟩
    · exact .inl hd
  refine ⟨fun x d hd => ?_, fun p hp => ?_, fun x => ?_, fun x y d d' hxy hd hd' => ?_,
    fun p hp x d hd => ?_, ?_⟩
  · rcases hmem x d hd with hold | ⟨rfl, rfl⟩
    · exact h.placed x d hold
    · exact ⟨(h.bound _ hhead).1, hmut⟩
  · rw [hafter] at hp
    exact h.bound p (hrest p hp)
  · rw [hstacks]
    split_ifs with hx
    · subst hx
      refine List.Nodup.sublist ((Stack.commands_truncate_sublist limit (hb.push c)).map _) ?_
      rw [Stack.commands_push, List.map_append, List.nodup_append]
      refine ⟨(h.nodup x).sublist ((List.take_sublist _ _).map _), by simp, ?_⟩
      intro i hi j hj
      simp only [List.map_cons, List.map_nil, List.mem_singleton] at hj
      obtain ⟨d, hd, rfl⟩ := List.mem_map.mp hi
      rw [hj]
      exact h.fresh _ hhead x d (List.mem_of_mem_take hd)
    · exact h.nodup x
  · rcases hmem x d hd with hold | ⟨rfl, rfl⟩ <;> rcases hmem y d' hd' with hold' | ⟨rfl, rfl⟩
    · exact h.apart x y d d' hxy hold hold'
    · exact h.fresh _ hhead x d hold
    · exact (h.fresh _ hhead y d' hold').symm
    · exact absurd rfl hxy
  · rw [hafter] at hp
    rcases hmem x d hd with hold | ⟨rfl, rfl⟩
    · exact h.fresh p (hrest p hp) x d hold
    · exact fun hid => hnew (hid ▸ List.mem_map_of_mem hp)
  · have hw := h.waiting
    rw [hbefore, List.map_cons, List.nodup_cons] at hw
    rw [hafter]
    exact hw.2

/-- A submission keeps commands where they were; a command it queues goes last among those
waiting, bound for its account's stack and with an id nothing has. -/
theorem submission (h : Placed home e) {x : Input Entry} (hx : x.isSubmission)
    (hnew : ∀ c, x = .enqueue c → e.resolve c = home c.action.account ∧ c.kind = c.action.kind ∧
      (∀ y d, d ∈ (e.stackOrEmpty y).commands → d.id ≠ c.id) ∧ ∀ p ∈ e.toRecord, p.1.id ≠ c.id) :
    Placed home (e.apply x) := by
  have hstacks := stackOrEmpty_congr (histories_apply_submission e hx)
  rcases toRecord_submission e hx with hsame | ⟨c, rfl, hrec⟩
  · exact h.of_commands (fun y => by rw [hstacks]) (by rw [hsame])
  obtain ⟨hres, hkind, hids, hwait⟩ := hnew c rfl
  refine ⟨fun y d hd => ?_, fun p hp => ?_, fun y => ?_, fun y z d d' hyz hd hd' => ?_,
    fun p hp y d hd => ?_, ?_⟩
  · rw [hstacks] at hd
    exact h.placed y d hd
  · rw [hrec, List.mem_append, List.mem_singleton] at hp
    rcases hp with hp | rfl
    · exact h.bound p hp
    · exact ⟨hres, hkind⟩
  · rw [hstacks]
    exact h.nodup y
  · rw [hstacks] at hd hd'
    exact h.apart y z d d' hyz hd hd'
  · rw [hstacks] at hd
    rw [hrec, List.mem_append, List.mem_singleton] at hp
    rcases hp with hp | rfl
    · exact h.fresh p hp y d hd
    · exact hids y d hd
  · rw [hrec, List.map_append, List.nodup_append]
    refine ⟨h.waiting, by simp, ?_⟩
    intro i hi j hj
    simp only [List.map_cons, List.map_nil, List.mem_singleton] at hj
    obtain ⟨p, hp, rfl⟩ := List.mem_map.mp hi
    rw [hj]
    exact hwait p hp

theorem empty (hcmd : ∀ x, (e.stackOrEmpty x).commands = []) (hrec : e.toRecord = []) :
    Placed home e where
  placed x c hc := by
    rw [hcmd] at hc
    cases hc
  bound p hp := by
    rw [hrec] at hp
    cases hp
  nodup x := by
    rw [hcmd]
    exact List.nodup_nil
  apart x y c d _ hc := by
    rw [hcmd] at hc
    cases hc
  fresh p hp := by
    rw [hrec] at hp
    cases hp
  waiting := by
    rw [hrec]
    exact List.nodup_nil

end Placed

/-! ### The ledger along the timelines -/

/-- What a command in a history keeps, given the commands before it on its stack's timeline: it
remembers its account's balance after them, and an add fits on top of that balance. -/
def Kept (l : Ledger) (before : List (Command Entry)) (c : Command Entry) : Prop :=
  l.snapshotOf? c.id = some (replay c.action.account before) ∧
    ∀ a δ, c.action = .add a δ → Text.fitsInt64 ((replay a before).getD 0 + δ) = true

theorem Kept.of_snapshot {l l' : Ledger} {before : List (Command Entry)} {c : Command Entry}
    (h : Kept l before c) (hs : l'.snapshotOf? c.id = l.snapshotOf? c.id) : Kept l' before c :=
  ⟨hs.trans h.1, h.2⟩

/-- **The ledger follows the histories.** Commands sit where `Placed` says; each balance is the
replay of its account's stack's timeline up to the cursor, what left the stack from the front
(`shed`) and then its done part; and each command in a history keeps what `Kept` says. -/
structure Consistent (home : Account → String) (l : Ledger) (e : Engine Entry)
    (shed : String → List (Command Entry)) : Prop where
  placed : Placed home e
  balance : ∀ k, l.balance? k = replay k (shed (home k) ++ (e.stackOrEmpty (home k)).done)
  kept : ∀ x, (e.stackOrEmpty x).Along (Kept l) (shed x)

section Balances

variable {home : Account → String} {l : Ledger} {T U : String → List (Command Entry)}
  {c : Command Entry}

/-- Running a set or an add forward on its account's stack: the ledger it leaves is the replay of
the timeline with the command on top, on every account. -/
theorem balance_forward (hlaw : ∀ k, l.balance? k = replay k (T (home k)))
    (hT : ∀ x, U x = if x = home c.action.account then T x ++ [c] else T x) (k : Account) :
    ((l.put c.action.account (c.action.after c.action.account (l.balance? c.action.account))).remember
        c.id (l.balance? c.action.account)).balance? k = replay k (U (home k)) := by
  rw [Ledger.balance?_remember, Ledger.balance?_put, hT]
  by_cases hka : k = c.action.account
  · subst hka
    rw [if_pos rfl, if_pos rfl, replay_append_singleton, ← hlaw]
  · rw [if_neg hka]
    split_ifs
    · rw [replay_append_other _ (Ne.symm hka), ← hlaw]
    · exact hlaw k

/-- Undoing the last done command of its account's stack puts back the replay of the timeline
without it, on every account. -/
theorem balance_undo (hlaw : ∀ k, l.balance? k = replay k (T (home k)))
    (hT : ∀ x, T x = if x = home c.action.account then U x ++ [c] else U x) {v : Option Int}
    (hv : v = replay c.action.account (U (home c.action.account))) (k : Account) :
    (l.put c.action.account v).balance? k = replay k (U (home k)) := by
  rw [Ledger.balance?_put]
  by_cases hka : k = c.action.account
  · rw [if_pos hka, hv, hka]
  · rw [if_neg hka, hlaw, hT]
    split_ifs
    · exact replay_append_other _ (Ne.symm hka)
    · rfl

end Balances

namespace Consistent

variable {home : Account → String} {l : Ledger} {e e' : Engine Entry}
  {shed : String → List (Command Entry)}

theorem balance_of_home (h : Consistent home l e shed) {x : String} {a : Account} (hx : x = home a) :
    l.balance? a = replay a (shed x ++ (e.stackOrEmpty x).done) := by
  rw [hx]
  exact h.balance a

theorem empty (hcmd : ∀ x, (e.stackOrEmpty x).commands = []) (hrec : e.toRecord = []) :
    Consistent home {} e fun _ => [] where
  placed := Placed.empty hcmd hrec
  balance k := by
    rw [Stack.done, hcmd, List.take_nil]
    rfl
  kept x := Stack.along_of_commands_nil (hcmd x)

theorem congr_shed (h : Consistent home l e shed) {shed' : String → List (Command Entry)}
    (hs : ∀ x, shed' x = shed x) : Consistent home l e shed' := by
  rw [show shed' = shed from funext hs]
  exact h

theorem of_stacks (h : Consistent home l e shed) (hstacks : ∀ x, e'.stackOrEmpty x = e.stackOrEmpty x)
    (hrec : List.Sublist e'.toRecord e.toRecord) : Consistent home l e' shed where
  placed := h.placed.of_commands (fun x => by rw [hstacks]) hrec
  balance k := by
    rw [hstacks]
    exact h.balance k
  kept x := by
    rw [hstacks]
    exact h.kept x

theorem pickUp (h : Consistent home l e shed) (hinv : e.Invariant) :
    Consistent home l e.pickUp (fun x => shed x ++ shedOf x (e.deeds .pickUp)) :=
  (h.of_stacks (stackOrEmpty_pickUp e) (toRecord_pickUp hinv.ids_nodup)).congr_shed
    fun _ => List.append_nil _

/-- A returned run that failed changes nothing: not the ledger, which its failed run left as it
was, and not the histories. -/
theorem resume_fail (h : Consistent home l e shed) (hon : e.OnTime) {b : Busy Entry}
    (hbusy : e.busy = some b) (reports : List ProgressEvent) {outcome : Outcome}
    (hfail : outcome.isOk = false) :
    Consistent home l (e.resume reports outcome)
      (fun x => shed x ++ shedOf x (e.deeds (.resume reports outcome))) := by
  refine (h.of_stacks (stackOrEmpty_resume_fail hbusy reports hfail)
    (toRecord_resume_sublist hbusy reports outcome)).congr_shed fun x => ?_
  rw [shedOf_resume hon hbusy, if_neg (by simp [hfail]), List.append_nil]

theorem resume_query (h : Consistent home l e shed) (hon : e.OnTime) {b : Busy Entry}
    (hbusy : e.busy = some b) {stack : String} (hseq : b.sequel = .record stack)
    (hq : b.call.command.isQuery = true) (reports : List ProgressEvent) (outcome : Outcome) :
    Consistent home l (e.resume reports outcome)
      (fun x => shed x ++ shedOf x (e.deeds (.resume reports outcome))) := by
  refine (h.of_stacks (stackOrEmpty_resume_query hbusy reports outcome hseq hq)
    (toRecord_resume_sublist hbusy reports outcome)).congr_shed fun x => ?_
  rw [shedOf_resume hon hbusy, if_neg (by simp [hq]), List.append_nil]

/-- **A recorded command.** A set or an add that ran and is recorded goes on top of its account's
stack: the ledger's new balance is its forward run on the timeline's, and it remembers the balance
before it, which the timeline gives. -/
theorem resume_record (h : Consistent home l e shed) (hinv : e.Invariant) (hon : e.OnTime)
    {b : Busy Entry} (hbusy : e.busy = some b) {stack : String} (hseq : b.sequel = .record stack)
    (hq : b.call.command.isQuery = false) (reports : List ProgressEvent) {outcome : Outcome}
    (hok : outcome.isOk = true) (hrun : (l.run b.call.command .forward).2.2.isOk = true) :
    Consistent home (l.run b.call.command .forward).1 (e.resume reports outcome)
      (fun x => shed x ++ shedOf x (e.deeds (.resume reports outcome))) := by
  obtain ⟨hbefore, hafter⟩ := toRecord_resume hbusy reports outcome
  have hbrec : b.toRecord? = some (b.call.command, stack) := by simp [Busy.toRecord?, hseq]
  rw [hbrec, Option.toList_some, List.singleton_append] at hbefore
  have hhead : (b.call.command, stack) ∈ e.toRecord := by
    rw [hbefore]
    exact List.mem_cons_self
  obtain ⟨hhome, hkind⟩ := h.placed.bound _ hhead
  dsimp only at hhome hkind
  have hmut : b.call.command.action.kind = .mutating := by
    rw [← hkind]
    cases hk : b.call.command.kind with
    | mutating => rfl
    | query => simp [Command.isQuery, hk] at hq
  obtain ⟨hfits, hput⟩ := Ledger.run_forward (l := l) hmut
  rw [hput hrun]
  have hstacks := stackOrEmpty_resume_record hon hbusy reports hok hseq hq
  have hb := hinv.bounded_stackOrEmpty stack
  have hshed := shedOf_resume_record hon hbusy hseq hq reports hok
  -- only the recorded command's snapshot changes, and no command in a history shares its id
  have hsnap : ∀ x d, d ∈ (e.stackOrEmpty x).commands →
      ((l.put b.call.command.action.account (b.call.command.action.after b.call.command.action.account
          (l.balance? b.call.command.action.account))).remember b.call.command.id
            (l.balance? b.call.command.action.account)).snapshotOf? d.id = l.snapshotOf? d.id := by
    intro x d hd
    rw [Ledger.snapshotOf?_remember, if_neg (h.placed.fresh _ hhead x d hd), Ledger.snapshotOf?_put]
  refine ⟨h.placed.record hb hbefore hafter hmut e.undoLimit (e.sequence + 1) hstacks, ?_, fun x => ?_⟩
  · refine balance_forward (T := fun x => shed x ++ (e.stackOrEmpty x).done)
      (U := fun x => shed x ++ shedOf x (e.deeds (.resume reports outcome)) ++
        ((e.resume reports outcome).stackOrEmpty x).done) (c := b.call.command) h.balance
      fun x => ?_
    rw [hstacks, hshed, ← hhome]
    split_ifs with hx
    · subst hx
      rw [Stack.done_touch, List.append_assoc, ← Stack.done_eq_trimmedFront_append _ _ (hb.push _),
        Stack.done_push _ _ hb, List.append_assoc]
    · rw [List.append_nil]
  · rw [hstacks, hshed]
    split_ifs with hx
    · subst hx
      refine Stack.Along.of_commands (Stack.Along.truncate (Stack.Along.push ?_ hb ?_) (hb.push _) _)
        (Stack.commands_touch _ _)
      · exact (h.kept x).mono fun before d hd hk => hk.of_snapshot (hsnap x d hd)
      · -- the recorded command remembers the balance its stack's timeline gives before it
        refine ⟨?_, fun a δ hadd => ?_⟩
        · rw [Ledger.snapshotOf?_remember, if_pos rfl, h.balance, ← hhome]
        · have hf := hfits.mp hrun a δ hadd
          rwa [h.balance_of_home (hhome.trans (by rw [hadd]; rfl))] at hf
    · rw [List.append_nil]
      exact (h.kept x).mono fun before d hd hk => hk.of_snapshot (hsnap x d hd)

/-- **An undo.** Reversing the last done command of a stack puts back the balance it remembered,
which is the replay of its timeline without it. -/
theorem resume_undo (h : Consistent home l e shed) (hon : e.OnTime) {b : Busy Entry}
    (hbusy : e.busy = some b) (hundo : b.call.operation = .undo) (reports : List ProgressEvent)
    {outcome : Outcome} (hok : outcome.isOk = true) :
    Consistent home (l.run b.call.command .reverse).1 (e.resume reports outcome)
      (fun x => shed x ++ shedOf x (e.deeds (.resume reports outcome))) := by
  have hop : b.call.operation ≠ .execute := by
    rw [hundo]
    decide
  obtain ⟨s, hs, hmove⟩ := stackOrEmpty_resume_move hon hbusy hop reports hok
  obtain ⟨-, hc, hstacks⟩ := hmove.resolve_right fun hr => by
    rw [hundo] at hr
    cases hr.1
  have hsS := stackOrEmpty_of_stack? hs
  obtain ⟨hpos, hat⟩ := Stack.undoCommand?_eq_some hc
  have hat' : (e.stackOrEmpty b.sequel.stack).commands[s.applied - 1]? = some b.call.command := by
    rw [hsS]
    exact hat
  obtain ⟨hhome, hmut⟩ := h.placed.placed _ _ (List.mem_of_getElem? hat')
  obtain ⟨hsnap, -⟩ := h.kept _ _ _ hat'
  have hshed := shedOf_resume_step hon hbusy hop reports outcome
  have hcmd := commands_resume_step hon hbusy hop reports outcome
  have hdone : (e.stackOrEmpty b.sequel.stack).done =
      ((e.resume reports outcome).stackOrEmpty b.sequel.stack).done ++ [b.call.command] := by
    obtain ⟨n, hn⟩ : ∃ n, s.applied = n + 1 := ⟨s.applied - 1, by omega⟩
    rw [hn, Nat.add_sub_cancel] at hat
    rw [hstacks, if_pos rfl, Stack.done_touch, hsS]
    simp only [Stack.done, hn, Nat.add_sub_cancel, List.take_add_one, hat, Option.toList_some]
  rw [(Ledger.run_reverse hmut hsnap).2]
  refine ⟨h.placed.of_commands hcmd (toRecord_resume_sublist hbusy reports outcome),
    balance_undo (T := fun x => shed x ++ (e.stackOrEmpty x).done)
      (U := fun x => shed x ++ shedOf x (e.deeds (.resume reports outcome)) ++
        ((e.resume reports outcome).stackOrEmpty x).done) (c := b.call.command) h.balance
      (fun x => ?_) ?_, fun x => ?_⟩
  · rw [hshed, List.append_nil, ← hhome]
    split_ifs with hx
    · rw [hx, hdone, List.append_assoc]
    · rw [hstacks, if_neg hx]
  · -- the balance the command remembered is the replay of the timeline without it
    rw [hshed, List.append_nil, ← hhome, hstacks, if_pos rfl, Stack.done_touch, hsS]
    rfl
  · rw [hshed, List.append_nil]
    exact ((h.kept x).mono fun _ d _ hk => hk.of_snapshot (Ledger.snapshotOf?_put _ _ _ _)).of_commands
      (hcmd x)

/-- **A redo.** Running the first undone command of a stack forward again moves its account's
balance as recording it did, and it remembers anew the balance its timeline gives before it. -/
theorem resume_redo (h : Consistent home l e shed) (hon : e.OnTime) {b : Busy Entry}
    (hbusy : e.busy = some b) (hredo : b.call.operation = .redo) (reports : List ProgressEvent)
    {outcome : Outcome} (hok : outcome.isOk = true)
    (hrun : (l.run b.call.command .forward).2.2.isOk = true) :
    Consistent home (l.run b.call.command .forward).1 (e.resume reports outcome)
      (fun x => shed x ++ shedOf x (e.deeds (.resume reports outcome))) := by
  have hop : b.call.operation ≠ .execute := by
    rw [hredo]
    decide
  obtain ⟨s, hs, hmove⟩ := stackOrEmpty_resume_move hon hbusy hop reports hok
  obtain ⟨-, hc, hstacks⟩ := hmove.resolve_left fun hu => by
    rw [hredo] at hu
    cases hu.1
  have hsS := stackOrEmpty_of_stack? hs
  have hat : (e.stackOrEmpty b.sequel.stack).commands[s.applied]? = some b.call.command := by
    rw [hsS]
    exact hc
  obtain ⟨hhome, hmut⟩ := h.placed.placed _ _ (List.mem_of_getElem? hat)
  obtain ⟨-, hfit⟩ := h.kept _ _ _ hat
  obtain ⟨-, hput⟩ := Ledger.run_forward (l := l) hmut
  rw [hput hrun]
  have hshed := shedOf_resume_step hon hbusy hop reports outcome
  have hcmd := commands_resume_step hon hbusy hop reports outcome
  have hdone : ((e.resume reports outcome).stackOrEmpty b.sequel.stack).done =
      (e.stackOrEmpty b.sequel.stack).done ++ [b.call.command] := by
    rw [hstacks, if_pos rfl, Stack.done_touch, hsS, ← Stack.done_stepForward hc,
      Stack.stepForward_of_redoCommand? hc]
  refine ⟨h.placed.of_commands hcmd (toRecord_resume_sublist hbusy reports outcome),
    balance_forward (T := fun x => shed x ++ (e.stackOrEmpty x).done)
      (U := fun x => shed x ++ shedOf x (e.deeds (.resume reports outcome)) ++
        ((e.resume reports outcome).stackOrEmpty x).done) (c := b.call.command) h.balance
      fun x => ?_, fun x => ?_⟩
  · rw [hshed, List.append_nil, ← hhome]
    split_ifs with hx
    · rw [hx, hdone, List.append_assoc]
    · rw [hstacks, if_neg hx]
  · rw [hshed, List.append_nil]
    refine Stack.Along.of_commands (fun i d hd => ?_) (hcmd x)
    by_cases hid : d.id = b.call.command.id
    · -- the redone command sits where the cursor was, and remembers the balance before it anew
      obtain ⟨rfl, rfl⟩ := h.placed.place hd hat hid
      obtain rfl : d = b.call.command := Option.some.inj (hd.symm.trans hat)
      refine ⟨?_, hfit⟩
      rw [Ledger.snapshotOf?_remember, if_pos rfl, h.balance, ← hhome, hsS]
      rfl
    · refine (h.kept x i d hd).of_snapshot ?_
      rw [Ledger.snapshotOf?_remember, if_neg hid, Ledger.snapshotOf?_put]

theorem undo_ok (h : Consistent home l e shed) (hon : e.OnTime) {b : Busy Entry}
    (hbusy : e.busy = some b) (hundo : b.call.operation = .undo) :
    (l.run b.call.command .reverse).2.2.isOk = true := by
  have hop : b.call.operation ≠ .execute := by
    rw [hundo]
    decide
  obtain ⟨-, s, hs, hnb⟩ := settled_of_step hon hbusy hop
  obtain ⟨-, hc⟩ := hnb.resolve_right fun hr => by
    rw [hundo] at hr
    cases hr.1
  obtain ⟨-, hat⟩ := Stack.undoCommand?_eq_some hc
  rw [← stackOrEmpty_of_stack? hs] at hat
  obtain ⟨-, hmut⟩ := h.placed.placed _ _ (List.mem_of_getElem? hat)
  exact (Ledger.run_reverse hmut (h.kept _ _ _ hat).1).1

theorem redo_ok (h : Consistent home l e shed) (hon : e.OnTime) {b : Busy Entry}
    (hbusy : e.busy = some b) (hredo : b.call.operation = .redo) :
    (l.run b.call.command .forward).2.2.isOk = true := by
  have hop : b.call.operation ≠ .execute := by
    rw [hredo]
    decide
  obtain ⟨-, s, hs, hnb⟩ := settled_of_step hon hbusy hop
  obtain ⟨-, hc⟩ := hnb.resolve_left fun hu => by
    rw [hredo] at hu
    cases hu.1
  have hsS := stackOrEmpty_of_stack? hs
  have hat : (e.stackOrEmpty b.sequel.stack).commands[s.applied]? = some b.call.command := by
    rw [hsS]
    exact hc
  obtain ⟨hhome, hmut⟩ := h.placed.placed _ _ (List.mem_of_getElem? hat)
  refine (Ledger.run_forward hmut).1.mpr fun a δ hadd => ?_
  have hf := (h.kept _ _ _ hat).2 a δ hadd
  rw [h.balance_of_home (hhome.trans (by rw [hadd]; rfl)), hsS]
  rw [hsS] at hf
  exact hf

/-- **A returned run.** Whatever the run in flight was, the ledger the world answers with is
consistent with the histories the returned run leaves. -/
theorem resume (h : Consistent home l e shed) (hinv : e.Invariant) (hon : e.OnTime) {b : Busy Entry}
    (hbusy : e.busy = some b) :
    Consistent home (answer Ledger.run l b.call).1
      (e.resume (answer Ledger.run l b.call).2.1 (answer Ledger.run l b.call).2.2)
      (fun x => shed x ++
        shedOf x (e.deeds (.resume (answer Ledger.run l b.call).2.1 (answer Ledger.run l b.call).2.2))) := by
  rw [answer_eq_run Ledger.run l hinv hon hbusy]
  cases hok : (l.run b.call.command b.call.operation.direction).2.2.isOk
  · rw [Ledger.run_fail l _ _ hok]
    exact h.resume_fail hon hbusy _ hok
  cases hop : b.call.operation with
  | undo =>
      rw [hop] at hok
      exact h.resume_undo hon hbusy hop _ hok
  | redo =>
      rw [hop] at hok
      exact h.resume_redo hon hbusy hop _ hok hok
  | execute =>
      rw [hop] at hok
      obtain ⟨stack, hseq⟩ :=
        (Busy.Shaped.execute_iff (Busy.Ready.shaped (hon b hbusy).2)).mp hop
      cases hq : b.call.command.isQuery with
      | false => exact h.resume_record hinv hon hbusy hseq hq _ hok hok
      | true =>
          -- a query is a get, which leaves the ledger as it is
          obtain ⟨-, hkind⟩ := h.placed.bound _ (mem_toRecord_of_busy hbusy hseq)
          dsimp only at hkind
          obtain ⟨a, ha⟩ : ∃ a, b.call.command.action = .get a := by
            cases ha : b.call.command.action with
            | get a => exact ⟨a, rfl⟩
            | set a v => simp [Command.isQuery, hkind, ha, Entry.kind] at hq
            | add a δ => simp [Command.isQuery, hkind, ha, Entry.kind] at hq
          rw [Ledger.run_get l ha]
          exact h.resume_query hon hbusy hseq hq _ _

/-- A submission changes no stack and no ledger, given that a queued command is new and bound for
its account's stack. -/
theorem submission (h : Consistent home l e shed) {x : Input Entry} (hx : x.isSubmission)
    (hnew : ∀ c, x = .enqueue c → e.resolve c = home c.action.account ∧ c.kind = c.action.kind ∧
      (∀ y d, d ∈ (e.stackOrEmpty y).commands → d.id ≠ c.id) ∧ ∀ p ∈ e.toRecord, p.1.id ≠ c.id) :
    Consistent home l (e.apply x) (fun y => shed y ++ shedOf y (e.deeds x)) := by
  have hstacks := stackOrEmpty_congr (histories_apply_submission e hx)
  have hsame : Consistent home l (e.apply x) shed := by
    refine ⟨h.placed.submission hx hnew, fun k => ?_, fun y => ?_⟩
    · rw [hstacks]
      exact h.balance k
    · rw [hstacks]
      exact h.kept y
  refine hsame.congr_shed fun y => ?_
  rw [deeds_submission e hx]
  exact List.append_nil _

theorem setUndoLimit (h : Consistent home l e shed) (hinv : e.Invariant) (limit : Nat) :
    Consistent home l (e.apply (.setUndoLimit limit))
      (fun x => shed x ++ shedOf x (e.deeds (.setUndoLimit limit))) := by
  have hstacks : ∀ x, (e.apply (.setUndoLimit limit)).stackOrEmpty x =
      ((e.stackOrEmpty x).truncate limit).1 := stackOrEmpty_setUndoLimit e limit
  have hb := hinv.bounded_stackOrEmpty
  refine ⟨h.placed.of_sublists (commands_setUndoLimit_sublist hinv limit)
    (toRecord_control e (x := .setUndoLimit limit) rfl rfl ▸ List.Sublist.refl _), fun k => ?_,
    fun x => ?_⟩
  · rw [hstacks, shedOf_setUndoLimit hinv.ids_nodup, h.balance, List.append_assoc,
      ← Stack.done_eq_trimmedFront_append _ _ (hb _)]
  · rw [hstacks, shedOf_setUndoLimit hinv.ids_nodup]
    exact (h.kept x).truncate (hb x) limit

theorem clear (h : Consistent home l e shed) (hinv : e.Invariant) :
    Consistent home l (e.apply .clear) (fun x => shed x ++ shedOf x (e.deeds .clear)) := by
  have hstacks : ∀ x, (e.apply .clear).stackOrEmpty x = (e.stackOrEmpty x).clear :=
    stackOrEmpty_clear e
  refine ⟨h.placed.of_sublists (fun x => ?_)
    (toRecord_control e (x := .clear) rfl rfl ▸ List.Sublist.refl _), fun k => ?_,
    fun x => Stack.along_of_commands_nil (commands_clear_eq_nil e x)⟩
  · rw [commands_clear_eq_nil]
    exact List.nil_sublist _
  · rw [hstacks, shedOf_clear hinv.ids_nodup, h.balance]
    simp only [Stack.done, Stack.commands_clear, List.take_nil, List.append_nil]

/-- **The worker loop.** However much fuel it has, the loop leaves a ledger consistent with the
histories it leaves, with what its inputs shed added to the shed parts. -/
theorem workFor (h : Consistent home l e shed) (hinv : e.Invariant) (hon : e.OnTime) (n : Nat) :
    Consistent home (Engine.workFor Ledger.run (fun _ => false) n l e).1
      (Engine.workFor Ledger.run (fun _ => false) n l e).2
      (fun x => shed x ++ shedOf x (e.trace (workInputs Ledger.run (fun _ => false) n l e))) := by
  -- the shed parts grow by what each input of the loop sheds, one input at a time
  induction n generalizing l e shed with
  | zero => exact h.congr_shed fun _ => List.append_nil _
  | succ n ih =>
      cases hbusy : e.busy with
      | some b =>
          rw [workFor_busy hbusy rfl, workInputs_busy hbusy rfl]
          refine (ih (h.resume hinv hon hbusy) (hinv.resume _ _)
            (hon.apply hinv (x := .resume _ _) fun h => by cases h)).congr_shed fun x => ?_
          rw [trace, shedOf_append, List.append_assoc]
          rfl
      | none =>
          cases hqueue : e.queue with
          | nil =>
              rw [workFor_idle hbusy hqueue, workInputs_idle hbusy hqueue]
              exact h.congr_shed fun _ => List.append_nil _
          | cons job rest =>
              rw [workFor_pickUp hbusy hqueue, workInputs_pickUp hbusy hqueue]
              refine (ih (h.pickUp hinv) hinv.pickUp
                (hon.apply hinv (x := .pickUp) fun h => by cases h)).congr_shed fun x => ?_
              rw [trace, shedOf_append, List.append_assoc]
              rfl

end Consistent

end Engine

end ScopedUndo
