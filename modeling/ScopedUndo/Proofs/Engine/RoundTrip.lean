import ScopedUndo.Proofs.Engine.Touch
/-!
# Undo then redo

An undo followed at once by a redo with the same filter puts every history back as it was, and so
does a redo followed by an undo. The second job finds the stack the first one acted on: without a
filter both act on the active stack, and with one the first job touched its stack last, so the
second picks it again, with the command the first stepped over as its candidate on the other side.

Each job is read off the state machine once, for either direction: `pickUp_toward` starts an undo
(`forward = false`) or a redo from an idle worker, `resume_on_time` ends it, and `run_toward`
puts the two together. `toward_round_trip` chains two jobs of opposite directions.
-/

namespace ScopedUndo

namespace Stack

variable {α : Type}

/-- The command next to the cursor on one side: the first undone one (`forward`), which a redo
replays, or the last done one, which an undo reverses. -/
def neighbour (forward : Bool) (s : Stack α) : Option (Command α) :=
  if forward then s.redoCommand? else s.undoCommand?

/-- The stack with its cursor moved one command toward the undone side (`forward`) or back. -/
def step (forward : Bool) (s : Stack α) : Stack α :=
  (if forward then s.stepForward else s.stepBackward).1

theorem neighbour_cases (forward : Bool) :
    (neighbour forward : Stack α → Option (Command α)) = undoCommand? ∨
      (neighbour forward : Stack α → Option (Command α)) = redoCommand? := by
  cases forward
  · exact .inl rfl
  · exact .inr rfl

theorem neighbour_step {s : Stack α} {forward : Bool} {c : Command α}
    (h : s.neighbour forward = some c) (n : Nat) :
    ((s.step forward).touch n).neighbour (!forward) = some c := by
  cases forward with
  | false =>
      have hc : s.undoCommand? = some c := h
      obtain ⟨hpos, hat⟩ := undoCommand?_eq_some hc
      simp [neighbour, step, stepBackward_of_undoCommand? hc, touch, redoCommand?, hat]
  | true =>
      have hc : s.redoCommand? = some c := h
      simp only [neighbour, step, stepForward_of_redoCommand? hc, if_true, Bool.not_true,
        Bool.false_eq_true, if_false]
      simp only [undoCommand?, touch, Nat.add_one_ne_zero, if_false, Nat.add_sub_cancel]
      exact hc

theorem step_step_back {s : Stack α} {forward : Bool} {c : Command α}
    (h : s.neighbour forward = some c) (n : Nat) :
    (((s.step forward).touch n).step (!forward)).commands = s.commands ∧
      (((s.step forward).touch n).step (!forward)).applied = s.applied := by
  have hback := neighbour_step h n
  cases forward with
  | false =>
      have hc : s.undoCommand? = some c := h
      have hpos := (undoCommand?_eq_some hc).1
      simp only [step, Bool.not_false, if_true, Bool.false_eq_true, if_false] at hback ⊢
      rw [stepForward_of_redoCommand? hback]
      simp [stepBackward_of_undoCommand? hc, touch]
      omega
  | true =>
      have hc : s.redoCommand? = some c := h
      simp only [step, Bool.not_true, Bool.false_eq_true, if_false, if_true] at hback ⊢
      rw [stepBackward_of_undoCommand? hback]
      simp [stepForward_of_redoCommand? hc, touch]

end Stack

def Operation.toward (forward : Bool) : Operation :=
  if forward then .redo else .undo

theorem Operation.toward_beq_redo (forward : Bool) : (Operation.toward forward == .redo) = forward := by
  cases forward <;> rfl

/-- The task of an undo (`forward = false`) or a redo under a filter. -/
def Task.toward {α : Type} (f : Option Scope) (forward : Bool) : Task α :=
  if forward then .redo f else .undo f

namespace Engine

variable {α : Type}

/-- The caller's input that submits an undo (`forward = false`) or a redo under a filter. -/
def Input.toward (f : Option Scope) (forward : Bool) : Input α :=
  if forward then .redo f else .undo f

/-! ### One undo or redo -/

theorem target_congr {e e' : Engine α} (hh : e'.histories = e.histories) (ha : e'.active = e.active)
    (f : Option Scope) (pick : Stack α → Option (Command α)) : e'.target f pick = e.target f pick := by
  unfold target activeStack? stack?
  rw [hh, ha]

/-- An undo or a redo is refused, using up at most a ticket, or queues its task under the next
ticket, counted as running. -/
theorem submit_toward (e : Engine α) (f : Option Scope) (forward : Bool) :
    (∃ n p, (e.submit fun e _ => do e.checkFilter f; return (e, Task.toward f forward)).1 =
        { e with nextTicket := n, pending := p }) ∨
      (e.submit fun e _ => do e.checkFilter f; return (e, Task.toward f forward)).1 =
        { e with nextTicket := e.nextTicket + 1,
                 queue := e.queue ++ [⟨e.nextTicket, e.generation, Task.toward f forward⟩],
                 running := e.running + 1 } := by
  obtain ⟨e₁, r, hs⟩ : ∃ e₁ r,
      (e.submit fun e _ => do e.checkFilter f; return (e, Task.toward f forward)) = (e₁, r) :=
    ⟨_, _, rfl⟩
  -- neither an undo nor a redo waits on the pending list
  have hwaiting : ∀ t g, Job.waiting e.generation ⟨t, g, (Task.toward f forward : Task α)⟩ = none := by
    intro t g
    cases forward <;> rfl
  rw [hs]
  rcases submit_taken (· = Task.toward f forward) hs (checked_build hwaiting) with
    ⟨-, n, p, -, he₁, -⟩ | ⟨task, rfl, -, he₁⟩
  · exact .inl ⟨n, p, he₁⟩
  · rw [he₁, hwaiting]
    simp

theorem pickUp_idle {e : Engine α} (hbusy : e.busy = none) (hqueue : e.queue = []) : e.pickUp = e := by
  unfold pickUp
  rw [hbusy, hqueue]

theorem pickUp_single {e : Engine α} (hbusy : e.busy = none) (hqueue : e.queue = []) (t m : Nat)
    (job : Job α) :
    ({ e with nextTicket := t, queue := e.queue ++ [job], running := m } : Engine α).pickUp =
      ({ e with nextTicket := t, queue := [], running := m, inFlight := true } : Engine α).begin job :=
  pickUp_next hbusy (by rw [hqueue, List.nil_append])

/-- **How an undo or a redo starts.** It ends at once with a fault, or stops at the run of the
command its target finds, to move the cursor of that stack. -/
theorem begin_toward (e : Engine α) (job : Job α) (hgen : job.generation = e.generation)
    {f : Option Scope} {forward : Bool} (htask : job.task = Task.toward f forward) :
    (∃ flt, e.begin job = e.finish job.ticket (.error flt) []) ∨
      ∃ stack c ev, e.target f (Stack.neighbour forward) = some (stack, c) ∧
        e.begin job = (e.publish ev).await job.ticket job.generation ⟨c, Operation.toward forward⟩
          (.step stack) [] := by
  unfold begin
  rw [if_neg (by simp [hgen])]
  cases forward with
  | false =>
      rw [show job.task = .undo f from htask]
      dsimp only
      cases htarget : e.target f Stack.undoCommand? with
      | none => exact .inl ⟨_, rfl⟩
      | some p => exact .inr ⟨p.1, p.2, _, htarget, rfl⟩
  | true =>
      rw [show job.task = .redo f from htask]
      dsimp only
      cases htarget : e.target f Stack.redoCommand? with
      | none => exact .inl ⟨_, rfl⟩
      | some p => exact .inr ⟨p.1, p.2, _, htarget, rfl⟩

/-- A returned step of an undo or a redo: the engine the run leaves, with the cursor moved if the
run succeeded, and the job ends with the run's result. -/
theorem resume_step {e : Engine α} {b : Busy α} (hbusy : e.busy = some b) {stack : String}
    (hseq : b.sequel = .step stack) (reports : List ProgressEvent) (outcome : Outcome) :
    ∃ E : Engine α, E.histories = e.settled b outcome.isOk ∧ E.queue = e.queue ∧
      E.replies = e.replies ∧ SameSetup e E ∧
      e.resume reports outcome =
        E.finish b.ticket (b.call.command.settle outcome) (b.progress ++ reports) := by
  obtain ⟨e₂, moved, hm⟩ : ∃ e₂ moved, (if outcome.isOk then
      (e.afterRun b reports outcome.isOk).moveCursor b.generation stack b.call.command
        (b.call.operation == .redo) else (e.afterRun b reports outcome.isOk, false)) = (e₂, moved) :=
    ⟨_, _, rfl⟩
  obtain ⟨hsame₂, hqueue₂, hreplies₂, hhist₂⟩ := afterRun_moveCursor_ite hm
  unfold resume
  rw [hbusy]
  dsimp only
  rw [hseq]
  dsimp only
  rw [hm]
  dsimp only
  rw [publish_closing]
  -- the closing events leave an engine that differs from `e₂` in its events only
  generalize hE : ({ e₂ with events := _ } : Engine α) = E
  refine ⟨E, ?_, ?_, ?_, ?_, rfl⟩ <;> rw [← hE]
  · simp only [settled, hseq, hhist₂]
  · exact hqueue₂
  · exact hreplies₂
  · exact hsame₂.withEvents _

/-- **An undo or a redo that returns on time.** When no clear came in between and the command is
still next to the cursor, the job ends with its run's result, and a successful run moves the
cursor over the command and touches the stack afresh. -/
theorem resume_on_time {e : Engine α} {b : Busy α} (hbusy : e.busy = some b) {stack : String}
    (hseq : b.sequel = .step stack) (hgen : e.generation = b.generation) {s : Stack α}
    (hs : e.stack? stack = some s) {forward : Bool} (hop : b.call.operation = Operation.toward forward)
    (hc : s.neighbour forward = some b.call.command) (reports : List ProgressEvent) (outcome : Outcome) :
    (e.resume reports outcome).busy = none ∧ (e.resume reports outcome).queue = e.queue ∧
      (e.resume reports outcome).active = e.active ∧
      (e.resume reports outcome).replies =
        e.replies ++ [⟨b.ticket, b.call.command.settle outcome, b.progress ++ reports⟩] ∧
      (outcome.isOk = true → ∀ y, (e.resume reports outcome).stack? y =
        if y = stack then some ((s.step forward).touch (e.sequence + 1)) else e.stack? y) := by
  obtain ⟨E, hhist, hqueue, hreplies, hsame, hres⟩ := resume_step hbusy hseq reports outcome
  rw [hres]
  refine ⟨rfl, hqueue, hsame.active, by rw [← hreplies]; rfl, fun hok y => ?_⟩
  have hmoved : (E.finish b.ticket (b.call.command.settle outcome) (b.progress ++ reports)).histories =
      (e.moveCursor b.generation stack b.call.command forward).1.histories := by
    rw [histories_finish, hhist]
    simp only [settled, hseq, hok, if_true, hop, Operation.toward_beq_redo]
  rw [stack?_congr hmoved]
  exact stack?_moveCursor_of_neighbour hgen hs hc y

section Idle

variable {e : Engine α} (hbusy : e.busy = none) (hqueue : e.queue = [])
include hbusy hqueue

/-- **An undo or a redo taken up by an idle worker.** It is refused, or ends at once with a
fault, or stops at the run of the command its target finds, with nothing else changed. -/
theorem pickUp_toward (f : Option Scope) (forward : Bool) :
    ((e.run [Input.toward f forward, .pickUp]).busy = none ∧
      ((e.run [Input.toward f forward, .pickUp]).replies = e.replies ∨
        ∃ flt, (e.run [Input.toward f forward, .pickUp]).replies =
          e.replies ++ [⟨e.nextTicket, .error flt, []⟩])) ∨
    ∃ stack c ev, e.target f (Stack.neighbour forward) = some (stack, c) ∧
      e.run [Input.toward f forward, .pickUp] =
        (({ e with nextTicket := e.nextTicket + 1, queue := [], running := e.running + 1, inFlight := true } :
          Engine α).publish ev).await
          e.nextTicket e.generation ⟨c, Operation.toward forward⟩ (.step stack) [] := by
  have hrun : e.run [Input.toward f forward, .pickUp] =
      (e.submit fun e _ => do e.checkFilter f; return (e, Task.toward f forward)).1.pickUp := by
    cases forward <;> rfl
  rw [hrun]
  rcases submit_toward e f forward with ⟨n, p, hn⟩ | hq
  · -- refused: the worker has nothing to take up
    rw [hn, pickUp_idle (show ({ e with nextTicket := n, pending := p } : Engine α).busy = none from hbusy)
      hqueue]
    exact .inl ⟨hbusy, .inl rfl⟩
  rw [hq, pickUp_single hbusy hqueue]
  rcases begin_toward
      { e with nextTicket := e.nextTicket + 1, queue := [], running := e.running + 1,
               inFlight := true }
      ⟨e.nextTicket, e.generation, Task.toward f forward⟩ rfl rfl with
    ⟨flt, hb⟩ | ⟨stack, c, ev, htarget, hb⟩ <;> rw [hb]
  · exact .inl ⟨rfl, .inr ⟨flt, rfl⟩⟩
  · exact .inr ⟨stack, c, ev, (target_congr rfl rfl f _).symm.trans htarget, rfl⟩

theorem busy_of_answered {f : Option Scope} {forward : Bool} {reports : List ProgressEvent}
    {outcome : Outcome} {v : Value} {p : List ProgressEvent}
    (hok : (e.run [Input.toward f forward, .pickUp, .resume reports outcome]).replies =
      e.replies ++ [⟨e.nextTicket, .ok v, p⟩]) :
    ∃ b, (e.run [Input.toward f forward, .pickUp]).busy = some b := by
  cases hb : (e.run [Input.toward f forward, .pickUp]).busy with
  | some b => exact ⟨b, rfl⟩
  | none =>
      have hidle : e.run [Input.toward f forward, .pickUp, .resume reports outcome] =
          e.run [Input.toward f forward, .pickUp] := resume_idle hb reports outcome
      rw [hidle] at hok
      rcases pickUp_toward hbusy hqueue f forward with ⟨-, hsame | ⟨flt, hfault⟩⟩ | ⟨stack, c, ev, -, hrun⟩
      · rw [hsame] at hok
        simpa using congrArg List.length hok
      · rw [hfault, List.append_cancel_left_eq, List.cons.injEq] at hok
        cases hok.1
      · rw [hrun, busy_await] at hb
        cases hb

/-- **An undo or a redo run by an idle worker.** When the worker stops at a run, it is of the
command the job's target finds, next to the cursor of its stack; once the run returns, the job has
ended with the run's result, and a successful run has moved that cursor and changed nothing else. -/
theorem run_toward (hinv : e.Invariant) {f : Option Scope} {forward : Bool} {b : Busy α}
    (hb : (e.run [Input.toward f forward, .pickUp]).busy = some b) (reports : List ProgressEvent)
    (outcome : Outcome) :
    ∃ stack s, e.target f (Stack.neighbour forward) = some (stack, b.call.command) ∧
      e.stack? stack = some s ∧ s.neighbour forward = some b.call.command ∧
      b.call.operation = Operation.toward forward ∧ b.sequel = .step stack ∧
      (e.run [Input.toward f forward, .pickUp, .resume reports outcome]).busy = none ∧
      (e.run [Input.toward f forward, .pickUp, .resume reports outcome]).queue = [] ∧
      (e.run [Input.toward f forward, .pickUp, .resume reports outcome]).active = e.active ∧
      (e.run [Input.toward f forward, .pickUp, .resume reports outcome]).replies =
        e.replies ++ [⟨e.nextTicket, b.call.command.settle outcome, reports⟩] ∧
      (outcome.isOk = true → ∀ y,
        (e.run [Input.toward f forward, .pickUp, .resume reports outcome]).stack? y =
          if y = stack then some ((s.step forward).touch (e.sequence + 1)) else e.stack? y) := by
  rcases pickUp_toward hbusy hqueue f forward with ⟨hnone, -⟩ | ⟨stack, c, ev, htarget, hrun⟩
  · rw [hnone] at hb
    cases hb
  obtain ⟨s, hmem, hsid, hpick⟩ := target_some htarget
  have hs : e.stack? stack = some s := hsid ▸ stack?_of_mem hinv.ids_nodup hmem
  -- the job waits on an engine with the stacks, numbers and replies of `e`
  generalize hE₂ : ((({ e with nextTicket := e.nextTicket + 1, queue := [], running := e.running + 1,
                               inFlight := true } : Engine α).publish ev).await
      e.nextTicket e.generation ⟨c, Operation.toward forward⟩ (.step stack) []) = E₂ at hrun
  have hbusy₂ : E₂.busy = some b := hrun ▸ hb
  have hb₂ := hbusy₂
  rw [← hE₂, busy_await, Option.some.injEq] at hb₂
  subst hb₂
  have hhist₂ : E₂.histories = e.histories := by rw [← hE₂]; simp
  have hs₂ : E₂.stack? stack = some s := by rw [stack?_congr hhist₂]; exact hs
  have hsame₂ : SameSetup ({ e with nextTicket := e.nextTicket + 1, queue := [], running := e.running + 1,
                                    inFlight := true } : Engine α) E₂ :=
    hE₂ ▸ (SameSetup.publish _ ev).trans (SameSetup.await _ _ _ _ _ _)
  have hgen₂ : E₂.generation = e.generation := hsame₂.generation
  have hsequence₂ : E₂.sequence = e.sequence := by rw [← hE₂]; simp
  obtain ⟨hbusy₃, hqueue₃, hactive₃, hreplies₃, hmoved⟩ :=
    resume_on_time hbusy₂ rfl hgen₂ hs₂ rfl hpick reports outcome
  have hstep : e.run [Input.toward f forward, .pickUp, .resume reports outcome] =
      E₂.resume reports outcome := by
    rw [← hrun]
    rfl
  rw [hstep]
  refine ⟨stack, s, htarget, hs, hpick, rfl, rfl, hbusy₃, ?_, ?_, ?_, fun hok y => ?_⟩
  · rw [hqueue₃, ← hE₂]
    simp
  · rw [hactive₃]
    exact hsame₂.active
  · rw [hreplies₃, ← hE₂]
    simp
  · rw [hmoved hok y, hsequence₂, stack?_congr hhist₂]

end Idle

/-! ### Two jobs in opposite directions -/

theorem target_none_eq_some {e : Engine α} {pick : Stack α → Option (Command α)} {x : String}
    {c : Command α} :
    e.target none pick = some (x, c) ↔ ∃ s, e.stack? e.active = some s ∧ s.id = x ∧ pick s = some c := by
  simp only [target, activeStack?, Option.bind_eq_some_iff, Option.map_eq_some_iff, Prod.mk.injEq]
  constructor
  · rintro ⟨s, hs, c', hc', rfl, rfl⟩
    exact ⟨s, hs, rfl, hc'⟩
  · rintro ⟨s, hs, rfl, hc⟩
    exact ⟨s, hs, c, hc, rfl, rfl⟩

/-- **The opposite job finds the same stack and command.** Once an undo or a redo stepped over
the command `c` of stack `x` and so touched `x` last, the job of the other direction under the
same filter finds `x` with `c`: without a filter `x` is still the active stack, and with one the
filter selects `c` as before and `x` is touched after every other stack. -/
theorem target_back {e E : Engine α} (hinv : e.Invariant) (hT : e.Touches) (hinv' : E.Invariant)
    (hT' : E.Touches) {f : Option Scope} {forward : Bool} {x : String} {c : Command α}
    (htarget : e.target f (Stack.neighbour forward) = some (x, c)) (hactive : E.active = e.active)
    {s' : Stack α} (hs' : E.stack? x = some s') (hc : s'.neighbour (!forward) = some c)
    (hlast : E.TouchedLast x) : E.target f (Stack.neighbour (!forward)) = some (x, c) := by
  cases f with
  | none =>
      obtain ⟨s, hs, hsid, -⟩ := target_none_eq_some.mp htarget
      -- the active stack is the one the first job acted on
      have hx : E.active = x := by rw [hactive, ← hsid, (mem_of_stack? hs).2]
      exact target_none_eq_some.mpr ⟨s', by rw [hx]; exact hs', (mem_of_stack? hs').2, hc⟩
  | some g =>
      have hpicks := (target_some_iff hinv.ids_nodup
        (hT.candidates_apart hinv.ids_nodup (Stack.neighbour_cases forward)) (List.Perm.refl _) x c).mp
        htarget
      obtain ⟨-, -, -, -, hmeets, -⟩ := hpicks
      exact (target_some_iff hinv'.ids_nodup
        (hT'.candidates_apart hinv'.ids_nodup (Stack.neighbour_cases (!forward))) (List.Perm.refl _) x c).mpr
        (hlast.picks hinv'.ids_nodup hs' hc hmeets)

/-- **An undo or a redo and then the opposite job.** From an idle worker, when the first job
answers with success and the second, under the same filter, runs and succeeds, the second runs
the first one's command on the first one's stack, and every history is back as it was. -/
theorem toward_round_trip {e : Engine α} (hinv : e.Invariant) (hfresh : e.Fresh) (hT : e.Touches)
    (hbusy : e.busy = none) (hqueue : e.queue = []) (f : Option Scope) (forward : Bool)
    (r₁ r₂ : List ProgressEvent) (o₁ o₂ : Outcome)
    (hfirst : ∃ v p, (e.run [Input.toward f forward, .pickUp, .resume r₁ o₁]).replies =
      e.replies ++ [⟨e.nextTicket, .ok v, p⟩])
    (hsecond : ∃ b, (e.run [Input.toward f forward, .pickUp, .resume r₁ o₁, Input.toward f (!forward),
      .pickUp]).busy = some b)
    (hok : o₂.isOk = true) :
    ∃ b₁ b₂, (e.run [Input.toward f forward, .pickUp]).busy = some b₁ ∧
      b₁.call.operation = Operation.toward forward ∧
      (e.run [Input.toward f forward, .pickUp, .resume r₁ o₁, Input.toward f (!forward),
        .pickUp]).busy = some b₂ ∧ b₂.call.operation = Operation.toward (!forward) ∧
      b₂.call.command = b₁.call.command ∧ b₂.sequel = b₁.sequel ∧
      ∀ x, ((e.run [Input.toward f forward, .pickUp, .resume r₁ o₁, Input.toward f (!forward),
          .pickUp, .resume r₂ o₂]).stack? x).map (fun s => (s.commands, s.applied)) =
        (e.stack? x).map (fun s => (s.commands, s.applied)) := by
  obtain ⟨v, p, hreplies⟩ := hfirst
  obtain ⟨b₁, hb₁⟩ := busy_of_answered hbusy hqueue hreplies
  obtain ⟨x, s, htarget, hs, hc, hop₁, hseq₁, hbusy₃, hqueue₃, hactive₃, hreplies₃, hmoved₃⟩ :=
    run_toward hbusy hqueue hinv hb₁ r₁ o₁
  -- the first job answered with success, so its run succeeded and moved the cursor
  have hok₁ : o₁.isOk = true := by
    rw [hreplies₃, List.append_cancel_left_eq, List.cons.injEq, Reply.mk.injEq] at hreplies
    rw [← Command.settle_isOk, hreplies.1.2.1]
  set E₃ := e.run [Input.toward f forward, .pickUp, .resume r₁ o₁] with hE₃
  have hlook₃ := hmoved₃ hok₁
  have hretouched : Retouched e E₃ (some x) := Retouched.touch hlook₃ (Nat.lt_succ_self _)
  have hinv₃ : E₃.Invariant := hinv.run _
  have hs₃ : E₃.stack? x = some ((s.step forward).touch (e.sequence + 1)) := by
    rw [hlook₃, if_pos rfl]
  have htarget₃ := target_back hinv hT hinv₃ (hT.retouched hfresh hretouched) htarget hactive₃ hs₃
    (Stack.neighbour_step hc _) (touchedLast_retouched hfresh hretouched)
  have hsplit : ∀ ys, e.run ([Input.toward f forward, .pickUp, .resume r₁ o₁] ++ ys) = E₃.run ys :=
    fun ys => run_append e _ ys
  have hrun₅ : e.run [Input.toward f forward, .pickUp, .resume r₁ o₁, Input.toward f (!forward),
      .pickUp] = E₃.run [Input.toward f (!forward), .pickUp] := hsplit _
  have hrun₆ : e.run [Input.toward f forward, .pickUp, .resume r₁ o₁, Input.toward f (!forward),
      .pickUp, .resume r₂ o₂] = E₃.run [Input.toward f (!forward), .pickUp, .resume r₂ o₂] := hsplit _
  obtain ⟨b₂, hb₂⟩ := hsecond
  have hb₂' := hb₂
  rw [hrun₅] at hb₂'
  obtain ⟨x', s', htarget', hs', -, hop₂, hseq₂, -, -, -, -, hmoved₆⟩ :=
    run_toward hbusy₃ hqueue₃ hinv₃ hb₂' r₂ o₂
  -- both jobs find the same stack and the same command
  rw [htarget₃, Option.some.injEq, Prod.mk.injEq] at htarget'
  obtain ⟨rfl, hcmd⟩ := htarget'
  rw [hs₃, Option.some.injEq] at hs'
  subst hs'
  refine ⟨b₁, b₂, hb₁, hop₁, hb₂, hop₂, hcmd.symm, hseq₂.trans hseq₁.symm, fun y => ?_⟩
  rw [hrun₆, hmoved₆ hok y]
  by_cases hy : y = x
  · subst hy
    obtain ⟨hcommands, happlied⟩ := Stack.step_step_back hc (e.sequence + 1)
    rw [if_pos rfl, hs]
    simp [hcommands, happlied]
  · rw [if_neg hy, hlook₃ y, if_neg hy]

/-- **Undo then redo is the identity on the histories.** From any state that a valid configuration
reaches with the worker idle, an undo under a filter that answers with success, followed at once
by a redo under the same filter that runs and succeeds, replays the very command the undo reversed,
on the same stack, and leaves every stack with the commands and the cursor it had before the undo;
and so does a redo followed by an undo. The two runs are the reverse and the forward run of one
command, so an action whose forward run inverts its reverse run leaves the world as it was. -/
theorem undo_redo_round_trip {c : Config} {e₀ e : Engine α} (hcreate : Engine.create c = .ok e₀)
    (xs : List (Input α)) (hreach : e₀.run xs = e) (hbusy : e.busy = none) (hqueue : e.queue = [])
    (f : Option Scope) (r₁ r₂ : List ProgressEvent) (o₁ o₂ : Outcome) :
    ((∃ v p, (e.run [.undo f, .pickUp, .resume r₁ o₁]).replies =
        e.replies ++ [⟨e.nextTicket, .ok v, p⟩]) →
      (∃ b, (e.run [.undo f, .pickUp, .resume r₁ o₁, .redo f, .pickUp]).busy = some b) →
      o₂.isOk = true →
      ∃ b₁ b₂, (e.run [.undo f, .pickUp]).busy = some b₁ ∧ b₁.call.operation = .undo ∧
        (e.run [.undo f, .pickUp, .resume r₁ o₁, .redo f, .pickUp]).busy = some b₂ ∧
        b₂.call.operation = .redo ∧ b₂.call.command = b₁.call.command ∧ b₂.sequel = b₁.sequel ∧
        ∀ x, ((e.run [.undo f, .pickUp, .resume r₁ o₁, .redo f, .pickUp, .resume r₂ o₂]).stack? x).map
            (fun s => (s.commands, s.applied)) = (e.stack? x).map (fun s => (s.commands, s.applied))) ∧
    ((∃ v p, (e.run [.redo f, .pickUp, .resume r₁ o₁]).replies =
        e.replies ++ [⟨e.nextTicket, .ok v, p⟩]) →
      (∃ b, (e.run [.redo f, .pickUp, .resume r₁ o₁, .undo f, .pickUp]).busy = some b) →
      o₂.isOk = true →
      ∃ b₁ b₂, (e.run [.redo f, .pickUp]).busy = some b₁ ∧ b₁.call.operation = .redo ∧
        (e.run [.redo f, .pickUp, .resume r₁ o₁, .undo f, .pickUp]).busy = some b₂ ∧
        b₂.call.operation = .undo ∧ b₂.call.command = b₁.call.command ∧ b₂.sequel = b₁.sequel ∧
        ∀ x, ((e.run [.redo f, .pickUp, .resume r₁ o₁, .undo f, .pickUp, .resume r₂ o₂]).stack? x).map
            (fun s => (s.commands, s.applied)) = (e.stack? x).map (fun s => (s.commands, s.applied))) := by
  subst hreach
  have hinv₀ := invariant_create hcreate
  have hfresh₀ := fresh_create hcreate
  have hT := touches_run hinv₀ hfresh₀ (touches_create hcreate) xs
  exact ⟨toward_round_trip (hinv₀.run xs) (fresh_run hinv₀ hfresh₀ xs) hT hbusy hqueue f false r₁ r₂ o₁ o₂,
    toward_round_trip (hinv₀.run xs) (fresh_run hinv₀ hfresh₀ xs) hT hbusy hqueue f true r₁ r₂ o₁ o₂⟩

/-- A command executed on a fresh engine, then undone and redone without a filter: the history is
back as it was. -/
theorem undo_redo_round_trip_default :
    ∃ e₀ e : Engine Unit, Engine.create ({} : Config) = .ok e₀ ∧
      e₀.run [.enqueue { id := 1, text := "add", action := () }, .pickUp, .resume [] (.ok .null)] = e ∧
      ∀ x, ((e.run [.undo none, .pickUp, .resume [] (.ok .null), .redo none, .pickUp,
          .resume [] (.ok .null)]).stack? x).map (fun s => (s.commands, s.applied)) =
        (e.stack? x).map (fun s => (s.commands, s.applied)) := by
  have hcreate : Engine.create ({} : Config) =
      .ok ({ registry := {}, defaultStack := "default", undoLimit := 0, capacity := 1024,
             histories := [Stack.empty "default"], active := "default", routes := [] } : Engine Unit) := rfl
  obtain ⟨b₁, b₂, -, -, -, -, -, -, hback⟩ :=
    (undo_redo_round_trip hcreate [.enqueue { id := 1, text := "add", action := () }, .pickUp,
      .resume [] (.ok .null)] rfl rfl rfl none [] [] (.ok .null) (.ok .null)).1 ⟨.null, [], rfl⟩
      ⟨_, rfl⟩ rfl
  exact ⟨_, _, hcreate, rfl, hback⟩

end Engine

end ScopedUndo
