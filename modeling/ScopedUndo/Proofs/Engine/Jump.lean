import ScopedUndo.Proofs.Engine.Work
import ScopedUndo.Proofs.Engine.Queue
/-!
# Jumps

A jump walks the active stack's cursor to a position: to just after command `i`, or to the start.
The worker reads the stack when it takes the job up, refuses a position past its end, and then
runs one undo or one redo at a time, each of the command next to the cursor, until the cursor is
there or a run fails.

`Stack.walkRuns` lists the runs such a walk makes, in order, and `playWalk` makes them in a world
until one fails. The main statement, `jump_walks_cursor`, says that the worker's loop makes exactly
these runs: the world ends as `playWalk` leaves it, the job answers the failed run's error or the
position, the cursor moved once per successful run, the other stacks are untouched, and the loop
took one step per run and one to take the job up.

The walk is a loop that reads the stack again before each step. It is proved by induction on the
runs still to make (`workFor_walk`): a successful step moves the cursor one place, and what is
left to make is then the rest of the list (`walkRuns_back`, `walkRuns_forward`).
-/

namespace ScopedUndo

namespace Stack

variable {α : Type}

/-- The runs a walk of the cursor to `wanted` done commands makes, in order: the reverse runs of
the done commands from the last one down to the one at `wanted`, or the forward runs of the undone
ones up to the one at `wanted - 1`. -/
def walkRuns (s : Stack α) (wanted : Nat) : List (Command α × Direction) :=
  if wanted < s.applied then ((s.commands.take s.applied).drop wanted).reverse.map (·, .reverse)
  else ((s.commands.drop s.applied).take (wanted - s.applied)).map (·, .forward)

/-- From three done commands back to one: the reverse runs of the third and the second. -/
example :
    let s : Stack Unit :=
      { id := "s", applied := 3
        commands := [{ id := 1, text := "a", action := () }, { id := 2, text := "b", action := () },
          { id := 3, text := "c", action := () }] }
    (s.walkRuns 1).map (fun r => (r.1.id, r.2)) = [(3, .reverse), (2, .reverse)] := by
  decide

theorem walkRuns_touch (s : Stack α) (n wanted : Nat) :
    (s.touch n).walkRuns wanted = s.walkRuns wanted := rfl

theorem walkRuns_self (s : Stack α) : s.walkRuns s.applied = [] := by
  simp [walkRuns]

theorem length_walkRuns {s : Stack α} (hb : s.Bounded) {wanted : Nat} (hw : wanted ≤ s.count) :
    (s.walkRuns wanted).length = s.applied - wanted + (wanted - s.applied) := by
  unfold Bounded count at *
  unfold walkRuns
  split_ifs with h
  · simp only [List.length_map, List.length_reverse, List.length_drop, List.length_take]
    omega
  · simp only [List.length_map, List.length_take, List.length_drop]
    omega

/-- A walk back starts with the reverse run of the last done command; what is left is the walk
from the cursor one place back. -/
theorem walkRuns_back {s : Stack α} (hb : s.Bounded) {wanted : Nat} (hw : wanted < s.applied) :
    ∃ c, s.undoCommand? = some c ∧
      s.walkRuns wanted = (c, .reverse) :: s.stepBackward.1.walkRuns wanted := by
  unfold Bounded count at hb
  obtain ⟨a, ha⟩ : ∃ a, s.applied = a + 1 := ⟨s.applied - 1, by omega⟩
  have hlt : a < s.commands.length := by omega
  refine ⟨s.commands[a], by simp [undoCommand?, ha], ?_⟩
  have hstep : s.stepBackward.1.applied = a := by simp [stepBackward, ha]
  have hcommands : s.stepBackward.1.commands = s.commands := commands_stepBackward s
  have htake : s.commands.take (a + 1) = s.commands.take a ++ [s.commands[a]] := by
    rw [List.take_add_one, List.getElem?_eq_getElem hlt, Option.toList_some]
  have hdrop : (s.commands.take a ++ [s.commands[a]]).drop wanted =
      (s.commands.take a).drop wanted ++ [s.commands[a]] :=
    List.drop_append_of_le_length (by simp; omega)
  unfold walkRuns
  rw [if_pos hw, hstep, hcommands, ha, htake, hdrop]
  by_cases hrest : wanted < a
  · rw [if_pos hrest]
    simp
  · have ha' : wanted = a := by omega
    subst ha'
    simp

/-- A walk forward starts with the forward run of the first undone command; what is left is the
walk from the cursor one place on. -/
theorem walkRuns_forward {s : Stack α} {wanted : Nat} (hw : s.applied < wanted)
    (hc : wanted ≤ s.count) :
    ∃ c, s.redoCommand? = some c ∧
      s.walkRuns wanted = (c, .forward) :: s.stepForward.1.walkRuns wanted := by
  unfold count at hc
  have hlt : s.applied < s.commands.length := by omega
  refine ⟨s.commands[s.applied], by simp [redoCommand?], ?_⟩
  have hstep : s.stepForward.1.applied = s.applied + 1 := by simp [stepForward, count, hlt]
  have hcommands : s.stepForward.1.commands = s.commands := commands_stepForward s
  obtain ⟨k, hk⟩ : ∃ k, wanted - s.applied = k + 1 := ⟨wanted - s.applied - 1, by omega⟩
  unfold walkRuns
  rw [if_neg (by omega), hstep, hcommands, if_neg (by omega), hk, List.drop_eq_getElem_cons hlt,
    List.take_succ_cons, show wanted - (s.applied + 1) = k by omega]
  rfl

end Stack

namespace Engine

variable {α σ : Type}

/-- How a walk's runs went in a world, made one after another until one failed. -/
structure Walked (σ α : Type) where
  world : σ
  /-- How many runs succeeded. -/
  stepped : Nat
  /-- The run that failed, with its outcome. -/
  failed : Option (Command α × Outcome)

def Walked.runs (r : Walked σ α) : Nat :=
  r.stepped + if r.failed.isSome then 1 else 0

/-- What a jump answers: the failed run's error, or the position it was asked for. -/
def Walked.result (r : Walked σ α) (target : Option Nat) : Except Fault Value :=
  r.failed.elim (.ok (jumpAnswer target)) fun f => f.1.settle f.2

/-- Makes a walk's runs in a world, one after another, until one fails. -/
def playWalk (run : σ → Command α → Direction → σ × List ProgressEvent × Outcome) :
    σ → List (Command α × Direction) → Walked σ α
  | w, [] => ⟨w, 0, none⟩
  | w, step :: rest =>
    if (run w step.1 step.2).2.2.isOk then
      let later := playWalk run (run w step.1 step.2).1 rest
      { later with stepped := later.stepped + 1 }
    else ⟨(run w step.1 step.2).1, 0, some (step.1, (run w step.1 step.2).2.2)⟩

section Play

variable (run : σ → Command α → Direction → σ × List ProgressEvent × Outcome)

theorem playWalk_ok {w : σ} {c : Command α} {d : Direction} (rest : List (Command α × Direction))
    (h : (run w c d).2.2.isOk = true) :
    playWalk run w ((c, d) :: rest) =
      { playWalk run (run w c d).1 rest with stepped := (playWalk run (run w c d).1 rest).stepped + 1 } := by
  simp only [playWalk, h, if_true]

theorem playWalk_fail {w : σ} {c : Command α} {d : Direction} (rest : List (Command α × Direction))
    (h : (run w c d).2.2.isOk = false) :
    playWalk run w ((c, d) :: rest) = ⟨(run w c d).1, 0, some (c, (run w c d).2.2)⟩ := by
  simp only [playWalk, h, Bool.false_eq_true, if_false]

theorem runs_playWalk_le (w : σ) (steps : List (Command α × Direction)) :
    (playWalk run w steps).runs ≤ steps.length := by
  induction steps generalizing w with
  | nil => simp [playWalk, Walked.runs]
  | cons step rest ih =>
      obtain ⟨c, d⟩ := step
      cases h : (run w c d).2.2.isOk
      · simp [playWalk_fail run rest h, Walked.runs]
      · have := ih (run w c d).1
        simp only [playWalk_ok run rest h, Walked.runs, List.length_cons] at this ⊢
        omega

theorem stepped_playWalk (w : σ) (steps : List (Command α × Direction))
    (h : (playWalk run w steps).failed = none) : (playWalk run w steps).stepped = steps.length := by
  induction steps generalizing w with
  | nil => rfl
  | cons step rest ih =>
      obtain ⟨c, d⟩ := step
      cases hok : (run w c d).2.2.isOk
      · rw [playWalk_fail run rest hok] at h
        cases h
      · rw [playWalk_ok run rest hok] at h ⊢
        simp [ih _ h]

end Play

/-! ### One step of a walk -/

theorem walk_arrived {e : Engine α} {stack : String} {s : Stack α} (hs : e.stack? stack = some s)
    (t g : Nat) (target : Option Nat) (p : List ProgressEvent) :
    e.walk t g stack s.applied target p = e.finish t (.ok (jumpAnswer target)) p := by
  simp [walk, hs]

theorem walk_back {e : Engine α} {stack : String} {s : Stack α} (hs : e.stack? stack = some s)
    {wanted : Nat} (hw : wanted < s.applied) {c : Command α} (hc : s.undoCommand? = some c)
    (t g : Nat) (target : Option Nat) (p : List ProgressEvent) :
    e.walk t g stack wanted target p =
      (e.publish (.undoing c.scope true)).await t g ⟨c, .undo⟩ (.walk stack wanted target) p := by
  simp [walk, hs, hw, hc]

theorem walk_forward {e : Engine α} {stack : String} {s : Stack α} (hs : e.stack? stack = some s)
    {wanted : Nat} (hw : s.applied < wanted) {c : Command α} (hc : s.redoCommand? = some c)
    (t g : Nat) (target : Option Nat) (p : List ProgressEvent) :
    e.walk t g stack wanted target p =
      (e.publish (.redoing c.scope true)).await t g ⟨c, .redo⟩ (.walk stack wanted target) p := by
  simp [walk, hs, Nat.not_lt.mpr hw.le, hw, hc]

/-- A returned step of a walk, in the generation it started in: the engine the run leaves, with
its cursor moved if the run succeeded, then the walk goes on or the job ends with the run's
fault. -/
theorem resume_walk {e : Engine α} {b : Busy α} (hbusy : e.busy = some b) {stack : String}
    {wanted : Nat} {target : Option Nat} (hseq : b.sequel = .walk stack wanted target)
    (hgen : e.generation = b.generation) (reports : List ProgressEvent) (outcome : Outcome) :
    ∃ E : Engine α, E.histories = e.settled b outcome.isOk ∧ E.queue = e.queue ∧
      E.replies = e.replies ∧ E.generation = e.generation ∧
      (∀ v, b.call.command.settle outcome = .ok v → e.resume reports outcome =
        E.walk b.ticket b.generation stack wanted target (b.progress ++ reports)) ∧
      (∀ f, b.call.command.settle outcome = .error f → e.resume reports outcome =
        E.finish b.ticket (.error f) (b.progress ++ reports)) := by
  obtain ⟨e₂, moved, hm⟩ : ∃ e₂ moved, (if outcome.isOk then
      (e.afterRun b reports outcome.isOk).moveCursor b.generation stack b.call.command
        (b.call.operation == .redo) else (e.afterRun b reports outcome.isOk, false)) = (e₂, moved) :=
    ⟨_, _, rfl⟩
  obtain ⟨hsame₂, hqueue₂, hreplies₂, hhist₂⟩ := afterRun_moveCursor_ite hm
  unfold resume
  rw [hbusy]
  dsimp only
  rw [hseq]
  dsimp only
  rw [hm]
  dsimp only
  rw [publish_closing]
  -- the closing events leave an engine that differs from `e₂` in its events only
  generalize hE : ({ e₂ with events := _ } : Engine α) = E
  have hgen₂ : E.generation = e.generation := by
    rw [← hE]
    exact hsame₂.generation
  refine ⟨E, ?_, ?_, ?_, hgen₂, fun v hv => ?_, fun f hf => ?_⟩
  · rw [← hE]
    simp only [settled, hseq, hhist₂]
  · rw [← hE]
    exact hqueue₂
  · rw [← hE]
    exact hreplies₂
  · rw [hv]
    dsimp only
    rw [if_neg (by simp [hgen₂, hgen])]
  · rw [hf]

theorem settle_ok_of_isOk (c : Command α) {o : Outcome} (h : o.isOk = true) :
    ∃ v, c.settle o = .ok v := by
  cases o with
  | ok v => exact ⟨v, rfl⟩
  | fail f => cases h
  | panic payload => cases h

theorem settle_error_of_isOk (c : Command α) {o : Outcome} (h : o.isOk = false) :
    ∃ f, c.settle o = .error f := by
  cases o with
  | ok v => cases h
  | fail f =>
      by_cases hf : f.isCommandFailure = true
      · exact ⟨f, by simp [Command.settle, hf]⟩
      · exact ⟨.executionFailed c.text f.message, by simp [Command.settle, hf]⟩
  | panic payload => exact ⟨_, rfl⟩

section Step

variable (run : σ → Command α → Direction → σ × List ProgressEvent × Outcome)
  {E : Engine α} {stack : String} {s : Stack α} {wanted : Nat} {target : Option Nat} {t g : Nat}
  {p : List ProgressEvent} {c : Command α} {op : Operation} {ev : EngineEvent}

/-- The loop makes the run a walk stops at and, when it succeeds, moves the cursor over its command
and walks on from the engine it leaves. -/
theorem workFor_walk_ok (w : σ)
    (hX : E.walk t g stack wanted target p =
      (E.publish ev).await t g ⟨c, op⟩ (.walk stack wanted target) p)
    (hs : E.stack? stack = some s) (hgen : E.generation = g)
    (hc : (if op == .redo then s.redoCommand? else s.undoCommand?) = some c)
    (hq : c.isQuery = false) (hok : (run w c op.direction).2.2.isOk = true) (n : Nat) :
    ∃ E₁ : Engine α, E₁.queue = E.queue ∧ E₁.replies = E.replies ∧ E₁.generation = g ∧
      E₁.histories.map Stack.id = E.histories.map Stack.id ∧
      (∃ k, ∀ x, E₁.stack? x = if x = stack then
        some ((if op == .redo then s.stepForward else s.stepBackward).1.touch k) else E.stack? x) ∧
      workFor run (fun _ => false) (n + 1) w (E.walk t g stack wanted target p) =
        workFor run (fun _ => false) n (run w c op.direction).1
          (E₁.walk t g stack wanted target (p ++ (run w c op.direction).2.1)) := by
  set X := (E.publish ev).await t g ⟨c, op⟩ (.walk stack wanted target) p with hXdef
  have hXg : X.generation = g := ((SameSetup.publish E ev).trans (SameSetup.await ..)).generation.trans hgen
  have hXh : X.histories = E.histories := by simp [hXdef]
  have hbusy : X.busy =
      some ⟨t, g, ⟨c, op⟩, .walk stack wanted target, E.statusOf c.id, p, E.reporters.length⟩ := by
    simp [hXdef]
  have hanswer : answer run w ⟨c, op⟩ = run w c op.direction := by
    simp [answer, Command.skips, hq]
  obtain ⟨v, hv⟩ := settle_ok_of_isOk c hok
  obtain ⟨E₁, hh, hq₁, hr₁, hg₁, hwalk, -⟩ :=
    resume_walk hbusy rfl hXg (run w c op.direction).2.1 (run w c op.direction).2.2
  simp only [settled, hok, if_true] at hh
  -- the cursor moved over the command, which still sits next to it
  have hmove : ∀ x, E₁.stack? x = if x = stack then
      some ((if op == .redo then s.stepForward else s.stepBackward).1.touch (X.sequence + 1))
      else E.stack? x := by
    intro x
    have hsX : X.stack? stack = some s := by simp only [stack?, hXh]; exact hs
    have hstack := stack?_moveCursor_of_neighbour hXg hsX hc x
    simp only [stack?, hh] at hstack ⊢
    rw [hstack, hXh]
  refine ⟨E₁, by simp [hq₁, hXdef], by simp [hr₁, hXdef], hg₁.trans hXg, ?_, ⟨_, hmove⟩, ?_⟩
  · rw [hh, ids_moveCursor, hXh]
  · rw [hX, workFor_busy hbusy rfl, hanswer, hwalk v hv]

/-- The loop makes the run a walk stops at and, when it fails, ends the job with the run's fault
and leaves the stacks as they were. -/
theorem workFor_walk_fail (w : σ)
    (hX : E.walk t g stack wanted target p =
      (E.publish ev).await t g ⟨c, op⟩ (.walk stack wanted target) p)
    (hgen : E.generation = g) (hq : c.isQuery = false)
    (hfail : (run w c op.direction).2.2.isOk = false) :
    ∃ E₁ : Engine α, E₁.queue = E.queue ∧ E₁.replies = E.replies ∧ E₁.histories = E.histories ∧
      workFor run (fun _ => false) 1 w (E.walk t g stack wanted target p) =
        ((run w c op.direction).1,
          E₁.finish t (c.settle (run w c op.direction).2.2) (p ++ (run w c op.direction).2.1)) := by
  set X := (E.publish ev).await t g ⟨c, op⟩ (.walk stack wanted target) p with hXdef
  have hXg : X.generation = g := ((SameSetup.publish E ev).trans (SameSetup.await ..)).generation.trans hgen
  have hbusy : X.busy =
      some ⟨t, g, ⟨c, op⟩, .walk stack wanted target, E.statusOf c.id, p, E.reporters.length⟩ := by
    simp [hXdef]
  have hanswer : answer run w ⟨c, op⟩ = run w c op.direction := by
    simp [answer, Command.skips, hq]
  obtain ⟨f, hf⟩ := settle_error_of_isOk c hfail
  obtain ⟨E₁, hh, hq₁, hr₁, -, -, hend⟩ :=
    resume_walk hbusy rfl hXg (run w c op.direction).2.1 (run w c op.direction).2.2
  refine ⟨E₁, by simp [hq₁, hXdef], by simp [hr₁, hXdef], ?_, ?_⟩
  · simp only [settled, hfail, Bool.false_eq_true, if_false] at hh
    simp [hh, hXdef]
  · rw [hX, workFor_busy hbusy rfl, hanswer, hend f hf, hf]
    rfl

end Step

/-! ### The whole walk -/

/-- The next run of a walk that is not there yet: the undo or the redo of the command next to the
cursor, toward `wanted`; the runs after it are the walk from the cursor one place on. -/
theorem walk_head {E : Engine α} {stack : String} {s : Stack α} (hs : E.stack? stack = some s)
    (hb : s.Bounded) {wanted : Nat} (hw : wanted ≤ s.count) {c : Command α} {d : Direction}
    {more : List (Command α × Direction)} (hruns : s.walkRuns wanted = (c, d) :: more)
    (t g : Nat) (target : Option Nat) (p : List ProgressEvent) :
    ∃ (op : Operation) (ev : EngineEvent),
      E.walk t g stack wanted target p =
        (E.publish ev).await t g ⟨c, op⟩ (.walk stack wanted target) p ∧
      (if op == .redo then s.redoCommand? else s.undoCommand?) = some c ∧ d = op.direction ∧
      more = (if op == .redo then s.stepForward else s.stepBackward).1.walkRuns wanted ∧
      wanted ≠ s.applied ∧
      (if op == .redo then s.stepForward else s.stepBackward).1.applied =
        if wanted < s.applied then s.applied - 1 else s.applied + 1 := by
  by_cases hback : wanted < s.applied
  · obtain ⟨c', hc', heq⟩ := Stack.walkRuns_back hb hback
    rw [hruns, List.cons.injEq, Prod.mk.injEq] at heq
    obtain ⟨⟨rfl, rfl⟩, rfl⟩ := heq
    refine ⟨.undo, _, walk_back hs hback hc' t g target p, by simpa using hc', rfl, rfl, by omega, ?_⟩
    simp [Stack.stepBackward, hback, show 0 < s.applied by omega]
  · have hne : wanted ≠ s.applied := by
      intro heq
      rw [heq, Stack.walkRuns_self] at hruns
      cases hruns
    have hfwd : s.applied < wanted := by omega
    obtain ⟨c', hc', heq⟩ := Stack.walkRuns_forward hfwd hw
    rw [hruns, List.cons.injEq, Prod.mk.injEq] at heq
    obtain ⟨⟨rfl, rfl⟩, rfl⟩ := heq
    unfold Stack.count at hw
    refine ⟨.redo, _, walk_forward hs hfwd hc' t g target p, by simpa using hc', rfl, rfl, hne, ?_⟩
    simp [Stack.stepForward, Stack.count, hback, show s.applied < s.commands.length by omega]

/-- **A walk runs to its end.** From an engine whose stack `stack` is `s`, a walk toward a place
within `s` makes its runs in order until one fails, one loop step each. The world ends as
`playWalk` leaves it, the job ends with the failed run's fault or with the position, the cursor
moved once per successful run, and every other stack is as it was. -/
theorem workFor_walk (run : σ → Command α → Direction → σ × List ProgressEvent × Outcome) (w : σ)
    {E : Engine α} {stack : String} {s : Stack α} (hs : E.stack? stack = some s) (hb : s.Bounded)
    (hq : ∀ c ∈ s.commands, c.isQuery = false) {wanted : Nat} (hw : wanted ≤ s.count) {g : Nat}
    (hgen : E.generation = g) (t : Nat) (target : Option Nat) (p : List ProgressEvent)
    {r : Walked σ α} (hr : playWalk run w (s.walkRuns wanted) = r) :
    (workFor run (fun _ => false) r.runs w (E.walk t g stack wanted target p)).1 = r.world ∧
      (workFor run (fun _ => false) r.runs w (E.walk t g stack wanted target p)).2.busy = none ∧
      (workFor run (fun _ => false) r.runs w (E.walk t g stack wanted target p)).2.queue = E.queue ∧
      (∃ p', (workFor run (fun _ => false) r.runs w (E.walk t g stack wanted target p)).2.replies =
        E.replies ++ [⟨t, r.result target, p'⟩]) ∧
      (∀ x, x ≠ stack →
        (workFor run (fun _ => false) r.runs w (E.walk t g stack wanted target p)).2.stack? x =
          E.stack? x) ∧
      ∃ s', (workFor run (fun _ => false) r.runs w (E.walk t g stack wanted target p)).2.stack? stack =
          some s' ∧ s'.commands = s.commands ∧
        s'.applied = if wanted < s.applied then s.applied - r.stepped else s.applied + r.stepped := by
  generalize hruns : s.walkRuns wanted = runs at hr
  induction runs generalizing E s w p r with
  | nil =>
      -- the cursor is there already: the job ends at once with the position
      have ha : s.applied = wanted := by
        have hlen := Stack.length_walkRuns hb hw
        rw [hruns, List.length_nil] at hlen
        omega
      subst hr ha
      have hrun0 : (playWalk run w [] : Walked σ α).runs = 0 := rfl
      rw [hrun0, walk_arrived hs]
      exact ⟨rfl, rfl, rfl, ⟨p, rfl⟩, fun x _ => rfl, s, hs, rfl, by simp [playWalk]⟩
  | cons step more ih =>
      obtain ⟨c, d⟩ := step
      obtain ⟨op, ev, hX, hc, rfl, hmore, hne, hstepped⟩ := walk_head hs hb hw hruns t g target p
      have hqc : c.isQuery = false := by
        apply hq c
        split at hc
        · exact Stack.mem_of_redoCommand? hc
        · exact Stack.mem_of_undoCommand? hc
      cases hok : (run w c op.direction).2.2.isOk
      · -- the run fails: the job ends with its fault, the stacks as they were
        rw [playWalk_fail run more hok] at hr
        subst hr
        obtain ⟨E₁, hq₁, hr₁, hh₁, hloop⟩ := workFor_walk_fail run w hX hgen hqc hok
        have hruns1 : (⟨(run w c op.direction).1, 0, some (c, (run w c op.direction).2.2)⟩ :
            Walked σ α).runs = 1 := rfl
        rw [hruns1, hloop]
        refine ⟨rfl, rfl, hq₁, ⟨_, by rw [← hr₁]; rfl⟩, fun x _ => ?_, s, ?_, rfl, by simp⟩ <;>
          simp only [histories_finish, stack?, hh₁]
        exact hs
      · -- the run succeeds: the cursor moves one place and the walk goes on from there
        rw [playWalk_ok run more hok] at hr
        subst hr
        set r' := playWalk run (run w c op.direction).1 more with hr'
        have hruns1 : ({ r' with stepped := r'.stepped + 1 } : Walked σ α).runs = r'.runs + 1 := by
          simp only [Walked.runs]
          omega
        obtain ⟨E₁, hq₁, hr₁, hg₁, -, ⟨k, hmove⟩, hloop⟩ :=
          workFor_walk_ok run w hX hs hgen hc hqc hok r'.runs
        set s₁ := (if op == .redo then s.stepForward else s.stepBackward).1.touch k with hs₁def
        have hs₁ : E₁.stack? stack = some s₁ := by rw [hmove, if_pos rfl]
        have hcommands : s₁.commands = s.commands := by
          rw [hs₁def]
          split <;> simp [Stack.commands_stepForward, Stack.commands_stepBackward]
        have hb₁ : s₁.Bounded := by
          rw [hs₁def]
          split
          · exact hb.stepForward.touch k
          · exact hb.stepBackward.touch k
        have hw₁ : wanted ≤ s₁.count := by unfold Stack.count at hw ⊢; rwa [hcommands]
        have hruns₁ : s₁.walkRuns wanted = more := by rw [hs₁def, Stack.walkRuns_touch, hmore]
        obtain ⟨hworld, hidle, hqueue, ⟨p', hreplies⟩, hothers, s', hs', hc', ha'⟩ :=
          ih (run w c op.direction).1 hs₁ hb₁ (fun c' hc' => hq c' (hcommands ▸ hc')) hw₁ hg₁
            (p ++ (run w c op.direction).2.1) hruns₁ hr'.symm
        -- a walk from one place on makes at most the runs left
        have hle : r'.stepped ≤ s₁.applied - wanted + (wanted - s₁.applied) := by
          have hlen : more.length = s₁.applied - wanted + (wanted - s₁.applied) := by
            rw [← hruns₁, Stack.length_walkRuns hb₁ hw₁]
          have hruns' := runs_playWalk_le run (run w c op.direction).1 more
          rw [← hr'] at hruns'
          simp only [Walked.runs] at hruns'
          omega
        have happlied : s₁.applied = if wanted < s.applied then s.applied - 1 else s.applied + 1 := by
          rw [hs₁def]
          exact hstepped
        rw [hruns1, hloop]
        refine ⟨hworld, hidle, hqueue.trans hq₁, ⟨p', by rw [hreplies, hr₁]; rfl⟩, fun x hx => ?_,
          s', hs', hc'.trans hcommands, ?_⟩
        · rw [hothers x hx, hmove, if_neg hx]
        · -- one place back (on) and `k` more is `k + 1` places back (on)
          have hstep : ∀ a₁ k : Nat, a₁ = (if wanted < s.applied then s.applied - 1 else s.applied + 1) →
              k ≤ a₁ - wanted + (wanted - a₁) →
              (if wanted < a₁ then a₁ - k else a₁ + k) =
                if wanted < s.applied then s.applied - (k + 1) else s.applied + (k + 1) := by
            intro a₁ k h₁ h₂
            split_ifs at h₁ ⊢ <;> omega
          rw [ha']
          exact hstep _ _ happlied hle

/-! ### Taking a jump up -/

theorem activeCount_eq (E : Engine α) :
    (E.activeStack?.map (·.count)).getD 0 = (E.stackOrEmpty E.active).count := by
  unfold stackOrEmpty activeStack?
  cases E.stack? E.active <;> rfl

theorem begin_jump_out (E : Engine α) {job : Job α} {target : Option Nat}
    (htask : job.task = .jump target) (hgen : job.generation = E.generation) {i : Nat}
    (hi : target = some i) (hle : (E.stackOrEmpty E.active).count ≤ i) :
    E.begin job =
      E.finish job.ticket (.error (.indexOutOfRange i (E.stackOrEmpty E.active).count)) [] := by
  unfold begin
  rw [if_neg (by simp [hgen]), htask, hi]
  dsimp only
  rw [activeCount_eq, if_pos hle]

theorem begin_jump_walk (E : Engine α) {job : Job α} {target : Option Nat}
    (htask : job.task = .jump target) (hgen : job.generation = E.generation)
    (hin : ∀ i, target = some i → i < (E.stackOrEmpty E.active).count) :
    E.begin job =
      E.walk job.ticket job.generation E.active ((target.map (· + 1)).getD 0) target [] := by
  unfold begin
  rw [if_neg (by simp [hgen]), htask]
  dsimp only
  cases target with
  | none => rfl
  | some i =>
      dsimp only
      rw [activeCount_eq, if_neg (Nat.not_le.mpr (hin i rfl))]
      rfl

/-- **Jumps.** The worker takes up a jump of the current generation from an engine in the state
invariant, with `A` the active stack. A position past `A`'s end ends the job with an index fault
and runs nothing. Otherwise, with `wanted` the commands to be left done, the loop makes the runs of
`A.walkRuns wanted` in order until one fails, in one step per run after taking the job up, at most
one per place between the cursor and `wanted`: the world ends as those runs leave it, the job
answers the failed run's fault or the position, `A` keeps its commands with the cursor moved once per
successful run, at `wanted` if none failed, and every other stack is as it was. -/
theorem jump_walks_cursor {e : Engine α} (hinv : e.Invariant) (hbusy : e.busy = none)
    {job : Job α} {rest : List (Job α)} (hqueue : e.queue = job :: rest) {target : Option Nat}
    (htask : job.task = .jump target) (hgen : job.generation = e.generation)
    (run : σ → Command α → Direction → σ × List ProgressEvent × Outcome) (w : σ)
    {A : Stack α} (hA : e.stackOrEmpty e.active = A) :
    (∀ i, target = some i → A.count ≤ i →
      workFor run (fun _ => false) 1 w e =
        (w, { e with queue := rest }.finish job.ticket (.error (.indexOutOfRange i A.count)) [])) ∧
    ((∀ i, target = some i → i < A.count) →
      ∀ {wanted : Nat}, (target.map (· + 1)).getD 0 = wanted →
      ∀ {r : Walked σ α}, playWalk run w (A.walkRuns wanted) = r →
        r.runs ≤ A.applied - wanted + (wanted - A.applied) ∧
        (workFor run (fun _ => false) (r.runs + 1) w e).1 = r.world ∧
        (workFor run (fun _ => false) (r.runs + 1) w e).2.busy = none ∧
        (workFor run (fun _ => false) (r.runs + 1) w e).2.queue = rest ∧
        (∃ p, (workFor run (fun _ => false) (r.runs + 1) w e).2.replies =
          e.replies ++ [⟨job.ticket, r.result target, p⟩]) ∧
        (∀ x, x ≠ e.active → (workFor run (fun _ => false) (r.runs + 1) w e).2.stack? x = e.stack? x) ∧
        ((workFor run (fun _ => false) (r.runs + 1) w e).2.stackOrEmpty e.active).commands =
          A.commands ∧
        ((workFor run (fun _ => false) (r.runs + 1) w e).2.stackOrEmpty e.active).applied =
          (if wanted < A.applied then A.applied - r.stepped else A.applied + r.stepped) ∧
        (r.failed = none →
          ((workFor run (fun _ => false) (r.runs + 1) w e).2.stackOrEmpty e.active).applied =
            wanted)) := by
  set E : Engine α := { e with queue := rest, inFlight := true } with hE
  have hpick : e.pickUp = E.begin job := pickUp_next hbusy hqueue
  have hEA : E.stackOrEmpty E.active = A := hA
  -- the active stack exists, so the walk reads `A` itself
  obtain ⟨s, hs⟩ : ∃ s, e.stack? e.active = some s := by
    obtain ⟨t, ht, hid⟩ := List.mem_map.mp hinv.active_mem
    exact ⟨t, hid ▸ stack?_of_mem hinv.ids_nodup ht⟩
  have hsA : s = A := by rw [← hA, stackOrEmpty, hs, Option.getD_some]
  subst hsA
  have hfits := hinv.fits s (mem_of_stack? hs).1
  refine ⟨fun i hi hle => ?_, fun hin wanted hwanted r hr => ?_⟩
  · rw [workFor_pickUp hbusy hqueue, hpick, begin_jump_out E htask hgen hi (hEA ▸ hle), hEA]
    rfl
  · have hw : wanted ≤ s.count := by
      rw [← hwanted]
      cases target with
      | none => exact Nat.zero_le _
      | some i => exact hin i rfl
    obtain ⟨hworld, hidle, hqueue', ⟨p, hreplies⟩, hothers, s', hs', hc', ha'⟩ :=
      workFor_walk run w (E := E) hs hfits.bounded hfits.no_query hw hgen.symm job.ticket target []
        hr
    have hle : r.runs ≤ s.applied - wanted + (wanted - s.applied) := by
      have := runs_playWalk_le run w (s.walkRuns wanted)
      rw [hr, Stack.length_walkRuns hfits.bounded hw] at this
      exact this
    have hloop : workFor run (fun _ => false) (r.runs + 1) w e =
        workFor run (fun _ => false) r.runs w (E.walk job.ticket job.generation e.active wanted target []) := by
      rw [workFor_pickUp hbusy hqueue, hpick, begin_jump_walk E htask hgen (hEA ▸ hin), hwanted]
    have hlook : (workFor run (fun _ => false) (r.runs + 1) w e).2.stackOrEmpty e.active = s' := by
      rw [stackOrEmpty, hloop, hs', Option.getD_some]
    refine ⟨hle, hloop ▸ hworld, hloop ▸ hidle, hloop ▸ hqueue', ⟨p, hloop ▸ hreplies⟩,
      fun x hx => hloop ▸ hothers x hx, hlook ▸ hc', hlook ▸ ha', fun hnone => ?_⟩
    -- with no run failed, every run was made and the cursor is where it was sent
    have hall := stepped_playWalk run w (s.walkRuns wanted) (hr ▸ hnone)
    rw [hr, Stack.length_walkRuns hfits.bounded hw] at hall
    rw [hlook, ha', hall]
    split_ifs <;> omega

/-- The jump holds of a stack of two done commands and a jump to just after the first, in a world
that logs every run. -/
theorem jump_walks_cursor_back :
    let A : Stack Unit :=
      { id := "default", applied := 2,
        commands := [{ id := 1, text := "first", action := () }, { id := 2, text := "second", action := () }] }
    let job : Job Unit := { ticket := 1, generation := 0, task := .jump (some 0) }
    let e : Engine Unit :=
      { registry := {}, defaultStack := "default", undoLimit := 0, capacity := 1024, histories := [A],
        active := "default", routes := [], queue := [job] }
    let run : List (Nat × Direction) → Command Unit → Direction →
        List (Nat × Direction) × List ProgressEvent × Outcome :=
      fun w c d => (w ++ [(c.id, d)], [], .ok .null)
    e.Invariant ∧ e.busy = none ∧ e.queue = job :: [] ∧ job.task = .jump (some 0) ∧
      job.generation = e.generation ∧ e.stackOrEmpty e.active = A ∧
      (∀ i, some 0 = some i → A.count ≤ i →
        workFor run (fun _ => false) 1 [] e =
          ([], { e with queue := [] }.finish job.ticket (.error (.indexOutOfRange i A.count)) [])) ∧
      ((∀ i, some 0 = some i → i < A.count) →
        ∀ {wanted : Nat}, ((some 0 : Option Nat).map (· + 1)).getD 0 = wanted →
        ∀ {r : Walked (List (Nat × Direction)) Unit}, playWalk run [] (A.walkRuns wanted) = r →
          r.runs ≤ A.applied - wanted + (wanted - A.applied) ∧
          (workFor run (fun _ => false) (r.runs + 1) [] e).1 = r.world ∧
          (workFor run (fun _ => false) (r.runs + 1) [] e).2.busy = none ∧
          (workFor run (fun _ => false) (r.runs + 1) [] e).2.queue = [] ∧
          (∃ p, (workFor run (fun _ => false) (r.runs + 1) [] e).2.replies =
            e.replies ++ [⟨job.ticket, r.result (some 0), p⟩]) ∧
          (∀ x, x ≠ e.active →
            (workFor run (fun _ => false) (r.runs + 1) [] e).2.stack? x = e.stack? x) ∧
          ((workFor run (fun _ => false) (r.runs + 1) [] e).2.stackOrEmpty e.active).commands =
            A.commands ∧
          ((workFor run (fun _ => false) (r.runs + 1) [] e).2.stackOrEmpty e.active).applied =
            (if wanted < A.applied then A.applied - r.stepped else A.applied + r.stepped) ∧
          (r.failed = none →
            ((workFor run (fun _ => false) (r.runs + 1) [] e).2.stackOrEmpty e.active).applied =
              wanted)) := by
  intro A job e run
  have hinv : e.Invariant :=
    { ids_nodup := by decide
      fits := by
        intro s hs
        rw [List.mem_singleton.mp hs]
        exact ⟨Nat.le_refl _, fun h => absurd h (Nat.lt_irrefl 0), by decide⟩
      default_mem := by decide
      active_mem := by decide
      busy_shaped := fun b hb => by cases hb
      busy_generation := fun b hb => by cases hb
      queue_generation := by
        intro j hj
        rw [List.mem_singleton.mp hj] }
  exact ⟨hinv, rfl, rfl, rfl, rfl, rfl, jump_walks_cursor hinv rfl rfl rfl rfl run [] rfl⟩

end Engine

end ScopedUndo
