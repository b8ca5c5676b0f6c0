import ScopedUndo.Proofs.Engine.History
import Mathlib.Algebra.Order.BigOperators.Group.List
/-!
# The worker loop

`Engine.workFor` runs the worker against a world: it takes up queued jobs and hands each action
run's reports and outcome back, until nothing is left or its fuel runs out. Here the loop is read as
a run of inputs, `workInputs`, so that the laws of runs apply to it (`workFor_eq_run`).

The loop also always gets to the end of a job: a job makes one action run, or, for a jump, one run
per step of its walk, and each successful step brings its stack's cursor one closer to where the
walk stops (`workLeft_resume`). So a job taken up from an otherwise idle engine is over within one
step more than its stack holds commands (`workFor_single`), well within the fuel `work` gives.
-/

namespace ScopedUndo

namespace Engine

variable {α σ : Type}

/-- The inputs the worker loop makes: taking up the next job, and handing back each run the world
made. -/
def workInputs (run : σ → Command α → Direction → σ × List ProgressEvent × Outcome)
    (hold : Call α → Bool) : Nat → σ → Engine α → List (Input α)
  | 0, _, _ => []
  | fuel + 1, w, e =>
    match e.busy with
    | some b =>
      if hold b.call then []
      else
        let c := b.call.command
        let d := b.call.operation.direction
        let (w', reports, outcome) := if c.skips d then (w, [], .ok .null) else run w c d
        .resume reports outcome :: workInputs run hold fuel w' (e.resume reports outcome)
    | none => if e.queue.isEmpty then [] else .pickUp :: workInputs run hold fuel w e.pickUp

theorem workFor_eq_run (run : σ → Command α → Direction → σ × List ProgressEvent × Outcome)
    (hold : Call α → Bool) (fuel : Nat) (w : σ) (e : Engine α) :
    (workFor run hold fuel w e).2 = e.run (workInputs run hold fuel w e) := by
  induction fuel generalizing w e with
  | zero => rfl
  | succ fuel ih =>
      rw [workFor, workInputs]
      cases hbusy : e.busy with
      | some b =>
          dsimp only
          by_cases hhold : hold b.call = true
          · rw [if_pos hhold, if_pos hhold]
            rfl
          · rw [if_neg hhold, if_neg hhold]
            generalize (if b.call.command.skips b.call.operation.direction then (w, [], Outcome.ok Value.null)
              else run w b.call.command b.call.operation.direction) = answer
            obtain ⟨w', reports, outcome⟩ := answer
            exact ih w' _
      | none =>
          dsimp only
          by_cases hidle : e.queue.isEmpty = true
          · rw [if_pos hidle, if_pos hidle]
            rfl
          · rw [if_neg hidle, if_neg hidle]
            exact ih w _

theorem sequential_workInputs (run : σ → Command α → Direction → σ × List ProgressEvent × Outcome)
    (hold : Call α → Bool) (fuel : Nat) (w : σ) (e : Engine α) :
    e.Sequential (workInputs run hold fuel w e) := by
  induction fuel generalizing w e with
  | zero => trivial
  | succ fuel ih =>
      rw [workInputs]
      cases hbusy : e.busy with
      | some b =>
          dsimp only
          by_cases hhold : hold b.call = true
          · rw [if_pos hhold]
            trivial
          · rw [if_neg hhold]
            generalize (if b.call.command.skips b.call.operation.direction then (w, [], Outcome.ok Value.null)
              else run w b.call.command b.call.operation.direction) = answer
            obtain ⟨w', reports, outcome⟩ := answer
            exact ⟨fun h => (by cases h), ih w' _⟩
      | none =>
          dsimp only
          by_cases hidle : e.queue.isEmpty = true
          · rw [if_pos hidle]
            trivial
          · rw [if_neg hidle]
            exact ⟨fun h => (by cases h), ih w _⟩

theorem sequential_append (e : Engine α) (xs ys : List (Input α)) :
    e.Sequential (xs ++ ys) ↔ e.Sequential xs ∧ (e.run xs).Sequential ys := by
  induction xs generalizing e with
  | nil => simp [Sequential]
  | cons x xs ih => simp [Sequential, ih, and_assoc]

/-! ### One step of the loop -/

/-- What the world hands back for a call: nothing for a run that is skipped, else its own run. -/
def answer (run : σ → Command α → Direction → σ × List ProgressEvent × Outcome) (w : σ)
    (call : Call α) : σ × List ProgressEvent × Outcome :=
  if call.command.skips call.operation.direction then (w, [], .ok .null)
  else run w call.command call.operation.direction

section Loop

variable {run : σ → Command α → Direction → σ × List ProgressEvent × Outcome} {hold : Call α → Bool}

theorem workFor_busy {e : Engine α} {b : Busy α} (hbusy : e.busy = some b) (hfree : hold b.call = false)
    (n : Nat) (w : σ) :
    workFor run hold (n + 1) w e =
      workFor run hold n (answer run w b.call).1
        (e.resume (answer run w b.call).2.1 (answer run w b.call).2.2) := by
  rw [workFor, hbusy]
  dsimp only
  -- the triple the world answers is taken apart by the loop and by its projections alike
  rw [if_neg (by simp [hfree]), answer]

theorem workFor_idle {e : Engine α} (hbusy : e.busy = none) (hqueue : e.queue = []) (n : Nat) (w : σ) :
    workFor run hold n w e = (w, e) := by
  cases n with
  | zero => rfl
  | succ n => simp [workFor, hbusy, hqueue]

theorem workFor_pickUp {e : Engine α} (hbusy : e.busy = none) {job : Job α} {rest : List (Job α)}
    (hqueue : e.queue = job :: rest) (n : Nat) (w : σ) :
    workFor run hold (n + 1) w e = workFor run hold n w e.pickUp := by
  simp [workFor, hbusy, hqueue]

theorem workInputs_busy {e : Engine α} {b : Busy α} (hbusy : e.busy = some b) (hfree : hold b.call = false)
    (n : Nat) (w : σ) :
    workInputs run hold (n + 1) w e =
      .resume (answer run w b.call).2.1 (answer run w b.call).2.2 ::
        workInputs run hold n (answer run w b.call).1
          (e.resume (answer run w b.call).2.1 (answer run w b.call).2.2) := by
  rw [workInputs, hbusy]
  dsimp only
  rw [if_neg (by simp [hfree]), answer]

theorem workInputs_idle {e : Engine α} (hbusy : e.busy = none) (hqueue : e.queue = []) (n : Nat) (w : σ) :
    workInputs run hold n w e = [] := by
  cases n with
  | zero => rfl
  | succ n => simp [workInputs, hbusy, hqueue]

theorem workInputs_pickUp {e : Engine α} (hbusy : e.busy = none) {job : Job α} {rest : List (Job α)}
    (hqueue : e.queue = job :: rest) (n : Nat) (w : σ) :
    workInputs run hold (n + 1) w e = .pickUp :: workInputs run hold n w e.pickUp := by
  simp [workInputs, hbusy, hqueue]

end Loop

/-! ### The loop gets to the end of a job -/

/-- How far the job in flight is from its end: the steps its walk still has to make, or its one
run. -/
def workLeft (e : Engine α) : Nat :=
  match e.busy with
  | none => 0
  | some b =>
    match b.sequel with
    | .walk stack wanted _ =>
      (e.stackOrEmpty stack).applied - wanted + (wanted - (e.stackOrEmpty stack).applied)
    | _ => 1

/-- A walk in flight heads for a place within its stack, and steps toward it. -/
def Walking (e : Engine α) : Prop :=
  ∀ b, e.busy = some b → ∀ stack wanted target, b.sequel = .walk stack wanted target →
    wanted ≤ (e.stackOrEmpty stack).count ∧
      ((b.call.operation = .undo ∧ wanted < (e.stackOrEmpty stack).applied) ∨
        (b.call.operation = .redo ∧ (e.stackOrEmpty stack).applied < wanted))

/-- A walk that stops at a run undoes while more commands are done than it wants, and redoes while
fewer are. -/
theorem walk_toward (e : Engine α) (t g : Nat) (stack : String) (wanted : Nat) (target : Option Nat)
    (p : List ProgressEvent) {b : Busy α} (h : (e.walk t g stack wanted target p).busy = some b) :
    (b.call.operation = .undo ∧ wanted < (e.stackOrEmpty stack).applied) ∨
      (b.call.operation = .redo ∧ (e.stackOrEmpty stack).applied < wanted) := by
  unfold walk at h
  split at h
  · simp at h
  · rename_i s hs
    have hstack : e.stackOrEmpty stack = s := by simp [stackOrEmpty, hs]
    rw [hstack]
    split_ifs at h with hback hforward
    · split at h
      · simp at h
      · simp only [busy_await, Option.some.injEq] at h
        subst h
        exact .inl ⟨rfl, hback⟩
    · split at h
      · simp at h
      · simp only [busy_await, Option.some.injEq] at h
        subst h
        exact .inr ⟨rfl, hforward⟩
    · simp at h

theorem walking_walk (e : Engine α) (t g : Nat) (stack : String) (wanted : Nat) (target : Option Nat)
    (p : List ProgressEvent) (hwanted : wanted ≤ (e.stackOrEmpty stack).count) :
    (e.walk t g stack wanted target p).Walking := by
  intro b hb stack' wanted' target' hseq
  obtain ⟨-, -, -, hseq'⟩ := busy_walk e t g stack wanted target p hb
  rw [hseq] at hseq'
  cases hseq'
  rw [stackOrEmpty_congr (histories_walk e t g _ _ _ p)]
  exact ⟨hwanted, walk_toward e t g _ _ _ p hb⟩

theorem workLeft_walk_le (e : Engine α) (t g : Nat) (stack : String) (wanted : Nat)
    (target : Option Nat) (p : List ProgressEvent) :
    (e.walk t g stack wanted target p).workLeft ≤
      (e.stackOrEmpty stack).applied - wanted + (wanted - (e.stackOrEmpty stack).applied) := by
  unfold workLeft
  cases hb : (e.walk t g stack wanted target p).busy with
  | none => exact Nat.zero_le _
  | some b =>
      obtain ⟨-, -, -, hseq⟩ := busy_walk e t g stack wanted target p hb
      dsimp only
      rw [hseq]
      dsimp only
      rw [stackOrEmpty_congr (histories_walk e t g stack wanted target p)]

theorem workLeft_pos {e : Engine α} (hwalk : e.Walking) {b : Busy α} (hbusy : e.busy = some b) :
    0 < e.workLeft := by
  unfold workLeft
  rw [hbusy]
  dsimp only
  split
  · rename_i stack wanted target hseq
    have := (hwalk b hbusy stack wanted target hseq).2
    omega
  all_goals exact Nat.one_pos

theorem workLeft_idle {e : Engine α} (hbusy : e.busy = none) : e.workLeft = 0 := by
  simp [workLeft, hbusy]

/-- **A step of a walk.** A returned run either ends its job, or it was a step of a walk that
succeeded and brought the cursor one closer to where the walk stops. -/
theorem workLeft_resume {e : Engine α} (hon : e.OnTime) (hwalk : e.Walking) {b : Busy α}
    (hbusy : e.busy = some b) (reports : List ProgressEvent) (outcome : Outcome) :
    (e.resume reports outcome).busy = none ∨
      ((e.resume reports outcome).Walking ∧ (e.resume reports outcome).workLeft < e.workLeft) := by
  obtain ⟨e₁, -, -, hhist, -, ⟨r, p, hr⟩ | ⟨stack, wanted, target, hseq, hok, hgen, hr⟩⟩ :=
    resume_cases hbusy reports outcome
  · rw [hr]
    exact .inl rfl
  right
  rw [hr]
  obtain ⟨-, hready⟩ := hon b hbusy
  unfold Busy.Ready at hready
  rw [hseq] at hready
  obtain ⟨s, hs, hop⟩ := hready
  have hold : e.stackOrEmpty stack = s := by simp [stackOrEmpty, hs]
  obtain ⟨hwanted, hdir⟩ := hwalk b hbusy stack wanted target hseq
  rw [hold] at hwanted hdir
  have hleft : e.workLeft = s.applied - wanted + (wanted - s.applied) := by
    simp [workLeft, hbusy, hseq, hold]
  -- the step moved the cursor over the command, one back for an undo, one on for a redo
  have hmoved : (if b.call.operation == .redo then s.redoCommand? else s.undoCommand?) =
      some b.call.command → e₁.stackOrEmpty stack =
        ((if b.call.operation == .redo then s.stepForward else s.stepBackward).1.touch (e.sequence + 1)) := by
    intro hc
    have hh : e₁.histories =
        (e.moveCursor b.generation stack b.call.command (b.call.operation == .redo)).1.histories := by
      simp [hhist, settled, hseq, hok]
    rw [stackOrEmpty_congr hh, stackOrEmpty, stack?_moveCursor_of_neighbour hgen hs hc, if_pos rfl]
    rfl
  rcases hop with ⟨hundo, hc⟩ | ⟨hredo, hc⟩
  · simp only [hundo, true_and, reduceCtorEq, false_and, or_false] at hdir
    have hnew := hmoved (by simp [hundo, hc])
    have hback : (Operation.undo == Operation.redo) = false := rfl
    simp only [hundo, hback, Bool.false_eq_true, if_false, Stack.stepBackward_of_undoCommand? hc] at hnew
    have hcount : (e₁.stackOrEmpty stack).count = s.count := by rw [hnew]; rfl
    refine ⟨walking_walk e₁ _ _ _ _ _ _ (by omega), ?_⟩
    calc _ ≤ _ := workLeft_walk_le e₁ _ _ _ _ _ _
      _ < e.workLeft := by rw [hnew, hleft]; dsimp only [Stack.touch]; omega
  · simp only [hredo, true_and, reduceCtorEq, false_and, false_or] at hdir
    have hnew := hmoved (by simp [hredo, hc])
    simp only [hredo, beq_self_eq_true, if_true, Stack.stepForward_of_redoCommand? hc] at hnew
    have hcount : (e₁.stackOrEmpty stack).count = s.count := by rw [hnew]; rfl
    refine ⟨walking_walk e₁ _ _ _ _ _ _ (by omega), ?_⟩
    calc _ ≤ _ := workLeft_walk_le e₁ _ _ _ _ _ _
      _ < e.workLeft := by rw [hnew, hleft]; dsimp only [Stack.touch]; omega

/-- A job that starts a walk is a jump: it walks the active stack toward a place within it, and
steps toward that place. -/
theorem busy_begin_walk (e : Engine α) (job : Job α) {b : Busy α} (hb : (e.begin job).busy = some b)
    {stack : String} {wanted : Nat} {target : Option Nat} (hseq : b.sequel = .walk stack wanted target) :
    stack = e.active ∧ wanted ≤ (e.stackOrEmpty e.active).count ∧
      ((b.call.operation = .undo ∧ wanted < (e.stackOrEmpty e.active).applied) ∨
        (b.call.operation = .redo ∧ (e.stackOrEmpty e.active).applied < wanted)) := by
  unfold begin at hb
  split_ifs at hb
  · simp at hb
  split at hb
  · simp only [busy_await, Option.some.injEq] at hb
    subst hb
    cases hseq
  · split at hb
    · simp at hb
    · simp only [busy_await, Option.some.injEq] at hb
      subst hb
      cases hseq
  · split at hb
    · simp at hb
    · simp only [busy_await, Option.some.injEq] at hb
      subst hb
      cases hseq
  · have hcount : (e.activeStack?.map (·.count)).getD 0 = (e.stackOrEmpty e.active).count := by
      unfold stackOrEmpty activeStack?
      cases e.stack? e.active <;> rfl
    split at hb
    · dsimp only at hb
      split_ifs at hb with hrange
      · simp at hb
      · obtain ⟨-, -, -, hseq'⟩ := busy_walk e _ _ _ _ _ _ hb
        rw [hseq] at hseq'
        cases hseq'
        exact ⟨rfl, by omega, walk_toward e _ _ _ _ _ _ hb⟩
    · obtain ⟨-, -, -, hseq'⟩ := busy_walk e _ _ _ _ _ _ hb
      rw [hseq] at hseq'
      cases hseq'
      exact ⟨rfl, Nat.zero_le _, walk_toward e _ _ _ _ _ _ hb⟩

theorem begin_walking {e : Engine α} (hbounded : (e.stackOrEmpty e.active).Bounded) (job : Job α) :
    (e.begin job).Walking ∧ (e.begin job).workLeft ≤ (e.stackOrEmpty e.active).count + 1 := by
  have hstacks := stackOrEmpty_congr (histories_begin e job)
  cases hb : (e.begin job).busy with
  | none =>
      refine ⟨fun b h => ?_, by rw [workLeft_idle hb]; exact Nat.zero_le _⟩
      rw [hb] at h
      cases h
  | some b =>
      refine ⟨fun b' hb' stack wanted target hseq => ?_, ?_⟩
      · rw [hb, Option.some.injEq] at hb'
        subst hb'
        obtain ⟨rfl, hwanted, hdir⟩ := busy_begin_walk e job hb hseq
        rw [hstacks]
        exact ⟨hwanted, hdir⟩
      · unfold workLeft
        rw [hb]
        dsimp only
        split
        · rename_i stack wanted target hseq
          obtain ⟨rfl, hwanted, -⟩ := busy_begin_walk e job hb hseq
          rw [hstacks]
          unfold Stack.Bounded at hbounded
          omega
        all_goals omega

theorem pickUp_walking {e : Engine α} (hinv : e.Invariant) (hbusy : e.busy = none) :
    e.pickUp.Walking ∧ e.pickUp.workLeft ≤ (e.stackOrEmpty e.active).count + 1 := by
  rcases pickUp_cases e with hp | ⟨job, rest, -, -, hp⟩ <;> rw [hp]
  · refine ⟨fun b h => ?_, by rw [workLeft_idle hbusy]; exact Nat.zero_le _⟩
    rw [hbusy] at h
    cases h
  · exact begin_walking (e := { e with queue := rest, inFlight := true })
      (hinv.bounded_stackOrEmpty e.active) job

section Loop

variable {run : σ → Command α → Direction → σ × List ProgressEvent × Outcome}

/-- **The loop ends a job.** With nothing queued, the loop ends the job in flight within as many
steps as it has left. -/
theorem workFor_finishes (n : Nat) (w : σ) {e : Engine α} (hinv : e.Invariant) (hon : e.OnTime)
    (hwalk : e.Walking) (hqueue : e.queue = []) (hleft : e.workLeft ≤ n) :
    (workFor run (fun _ => false) n w e).2.busy = none ∧
      (workFor run (fun _ => false) n w e).2.queue = [] := by
  induction n generalizing w e with
  | zero =>
      cases hbusy : e.busy with
      | none => exact ⟨hbusy, hqueue⟩
      | some b => exact absurd hleft (Nat.not_le_of_lt (workLeft_pos hwalk hbusy))
  | succ n ih =>
      cases hbusy : e.busy with
      | none =>
          rw [workFor_idle hbusy hqueue]
          exact ⟨hbusy, hqueue⟩
      | some b =>
          rw [workFor_busy hbusy rfl]
          generalize answer run w b.call = a
          obtain ⟨w', reports, outcome⟩ := a
          dsimp only
          have hqueue' : (e.resume reports outcome).queue = [] := (queue_resume e reports outcome).trans hqueue
          rcases workLeft_resume hon hwalk hbusy reports outcome with hdone | ⟨hwalk', hless⟩
          · rw [workFor_idle hdone hqueue']
            exact ⟨hdone, hqueue'⟩
          · exact ih w' (hinv.resume reports outcome)
              (hon.apply hinv (x := .resume reports outcome) (fun h => by cases h)) hwalk' hqueue' (by omega)

/-- From a free worker with one job queued, the loop ends the job within two steps more than the
active stack holds commands. -/
theorem workFor_single (n : Nat) (w : σ) {e : Engine α} (hinv : e.Invariant) (hbusy : e.busy = none)
    {job : Job α} (hqueue : e.queue = [job]) (hfuel : (e.stackOrEmpty e.active).count + 2 ≤ n) :
    (workFor run (fun _ => false) n w e).2.busy = none ∧
      (workFor run (fun _ => false) n w e).2.queue = [] := by
  obtain ⟨m, rfl⟩ : ∃ m, n = m + 1 := ⟨n - 1, by omega⟩
  rw [workFor_pickUp hbusy hqueue]
  have hon : e.OnTime := fun b hb => by rw [hbusy] at hb; cases hb
  obtain ⟨hwalk, hleft⟩ := pickUp_walking hinv hbusy
  have hqueue' : e.pickUp.queue = [] := by
    rw [pickUp_next hbusy hqueue, queue_begin]
  exact workFor_finishes m w hinv.pickUp (hon.apply hinv (x := .pickUp) (fun h => by cases h)) hwalk
    hqueue' (by omega)

end Loop

theorem count_le_totalCommands (e : Engine α) (x : String) :
    (e.stackOrEmpty x).count ≤ e.totalCommands := by
  have hsum : ∀ (l : List (Stack α)) (a : Nat),
      l.foldl (fun n s => n + s.count) a = a + (l.map Stack.count).sum := by
    intro l
    induction l with
    | nil => simp
    | cons s l ih =>
        intro a
        simp only [List.foldl_cons, ih, List.map_cons, List.sum_cons]
        omega
  unfold totalCommands stackOrEmpty
  rw [hsum, Nat.zero_add]
  cases hs : e.stack? x with
  | none => exact Nat.zero_le _
  | some s => exact List.le_sum_of_mem (List.mem_map_of_mem (mem_of_stack? hs).1)

/-- **The worker ends a lone job.** `work` takes up a job queued at a free worker and runs it to
its end, whatever the world answers. -/
theorem work_single (run : σ → Command α → Direction → σ × List ProgressEvent × Outcome) (w : σ)
    {e : Engine α} (hinv : e.Invariant) (hbusy : e.busy = none) {job : Job α} (hqueue : e.queue = [job]) :
    (e.work run (fun _ => false) w).2.busy = none ∧ (e.work run (fun _ => false) w).2.queue = [] := by
  have hcount := count_le_totalCommands e e.active
  refine workFor_single _ w hinv hbusy hqueue ?_
  simp only [workBound, hqueue, List.length_singleton]
  omega

end Engine

end ScopedUndo
