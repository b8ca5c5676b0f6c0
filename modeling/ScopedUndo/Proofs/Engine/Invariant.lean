import ScopedUndo.Proofs.Engine.Step
import ScopedUndo.Proofs.Registry
import Mathlib.Data.List.Infix
/-!
# The state invariant

Every engine that a valid configuration starts, and every engine a run of inputs reaches from it,
satisfies `Engine.Invariant`: stack ids are told apart, every stack fits the limit
(`Stack.Fits`: its cursor within its history, at most `limit` commands under a positive limit, no
query among them), the default and the active stack exist, and the job in flight and the queued
jobs are of no later generation than the engine. Apart from it, `RoutesValid` says the routes are
valid and of distinct scopes.

The proof is one lemma per kind of input, assembled in `Invariant.apply`, and an induction over the
run, `Invariant.run`. The worker's steps are read through the inversion lemmas of the step module;
what a returned run does to the stacks is `mem_settled`, and what a fresh job in flight knows of
the engine it started from is `Busy.Fresh`, which the history and status laws build on.

Beside the state, `Recorded` ties every command in a history to the successful forward run that
put it there, in the trace of the run. Together with the fact that ids are only ever appended,
these give `reachable_state_invariant`.
-/

namespace ScopedUndo

namespace Stack

variable {α : Type}

/-- A stack as the engine keeps it under a limit: the cursor within the history, at most `limit`
commands when the limit is positive, and no query among them. -/
structure Fits (limit : Nat) (s : Stack α) : Prop where
  bounded : s.Bounded
  within_limit : 0 < limit → s.count ≤ limit
  no_query : ∀ c ∈ s.commands, c.isQuery = false

theorem mem_commands_truncate {s : Stack α} {c : Command α} (limit : Nat) (hb : s.Bounded)
    (hc : c ∈ (s.truncate limit).1.commands) : c ∈ s.commands := by
  obtain ⟨k, m, -, -, -, -, htrunc⟩ := s.truncate_eq limit hb
  rw [htrunc] at hc
  exact List.mem_of_mem_drop (List.mem_of_mem_take hc)

theorem mem_commands_push {s : Stack α} {c c' : Command α} (hc : c' ∈ (s.push c).commands) :
    c' ∈ s.commands ∨ c' = c := by
  rw [commands_push, List.mem_append, List.mem_singleton] at hc
  exact hc.imp_left List.mem_of_mem_take

theorem Fits.empty (limit : Nat) (id : String) : (empty id : Stack α).Fits limit :=
  ⟨Bounded.empty id, fun _ => Nat.zero_le _, fun c hc => by simp at hc⟩

theorem Fits.clear (limit : Nat) (s : Stack α) : s.clear.Fits limit :=
  ⟨Bounded.clear s, fun _ => Nat.zero_le _, fun c hc => by simp at hc⟩

theorem Fits.touch {limit : Nat} {s : Stack α} (n : Nat) (h : s.Fits limit) : (s.touch n).Fits limit :=
  ⟨h.bounded, h.within_limit, h.no_query⟩

theorem Fits.stepForward {limit : Nat} {s : Stack α} (h : s.Fits limit) : s.stepForward.1.Fits limit :=
  ⟨h.bounded.stepForward, by simpa [count, commands_stepForward] using h.within_limit,
    by simpa [commands_stepForward] using h.no_query⟩

theorem Fits.stepBackward {limit : Nat} {s : Stack α} (h : s.Fits limit) :
    s.stepBackward.1.Fits limit :=
  ⟨h.bounded.stepBackward, by simpa [count, commands_stepBackward] using h.within_limit,
    by simpa [commands_stepBackward] using h.no_query⟩

theorem Fits.truncate {limit : Nat} {s : Stack α} (limit' : Nat) (h : s.Fits limit) :
    (s.truncate limit').1.Fits limit' :=
  ⟨h.bounded.truncate limit', fun hpos => s.count_truncate_le hpos h.bounded,
    fun c hc => h.no_query c (mem_commands_truncate limit' h.bounded hc)⟩

theorem Fits.record {limit : Nat} {s : Stack α} {c : Command α} (hc : c.isQuery = false)
    (h : s.Fits limit) : ((s.push c).truncate limit).1.Fits limit := by
  have hpush : (s.push c).Fits 0 := by
    refine ⟨h.bounded.push c, fun hpos => absurd hpos (Nat.lt_irrefl 0), fun c' hc' => ?_⟩
    rcases mem_commands_push hc' with hmem | rfl
    · exact h.no_query c' hmem
    · exact hc
  exact hpush.truncate limit

end Stack

/-- A job in flight as the worker makes them: an executed command is recorded, an undo or a redo
moves a cursor. -/
def Busy.Shaped {α : Type} (b : Busy α) : Prop :=
  match b.sequel with
  | .record _ => b.call.operation = .execute
  | .step _ | .walk _ _ _ => b.call.operation = .undo ∨ b.call.operation = .redo

/-- A job in flight that the engine `e` still lets through: it executes a command to record it, or
it undoes (redoes) the command right before (after) the cursor of its stack. -/
def Busy.Ready {α : Type} (e : Engine α) (b : Busy α) : Prop :=
  match b.sequel with
  | .record _ => b.call.operation = .execute
  | .step stack | .walk stack _ _ =>
      ∃ s, e.stack? stack = some s ∧
        ((b.call.operation = .undo ∧ s.undoCommand? = some b.call.command) ∨
          (b.call.operation = .redo ∧ s.redoCommand? = some b.call.command))

/-- A job the worker has just stopped at an action run, as the engine `e` it started from saw it:
it remembers the status its command had, and it is ready. -/
def Busy.Fresh {α : Type} (e : Engine α) (b : Busy α) : Prop :=
  b.previous = e.statusOf b.call.command.id ∧ b.Ready e

namespace Engine

variable {α : Type}

/-! ### Which stacks a step leaves -/

theorem mem_withStack {e : Engine α} {id : String} {f : Stack α → Stack α} {s : Stack α}
    (hs : s ∈ (e.withStack id f).histories) :
    s ∈ e.histories ∨ ∃ t, (t ∈ e.histories ∨ t = Stack.empty id) ∧ t.id = id ∧ s = f t := by
  unfold withStack at hs
  split_ifs at hs
  · obtain ⟨t, ht, rfl⟩ := List.mem_map.mp hs
    split
    · rename_i htid
      exact .inr ⟨t, .inl ht, by simpa using htid, rfl⟩
    · exact .inl ht
  · rcases List.mem_append.mp hs with hmem | hnew
    · exact .inl hmem
    · exact .inr ⟨_, .inr rfl, rfl, List.mem_singleton.mp hnew⟩

theorem mem_moveCursor {e : Engine α} (hnodup : (e.histories.map Stack.id).Nodup) {g : Nat}
    {stack : String} {c : Command α} {forward : Bool} {s : Stack α}
    (hs : s ∈ (e.moveCursor g stack c forward).1.histories) :
    s ∈ e.histories ∨ ∃ t ∈ e.histories,
      s = (if forward then t.stepForward else t.stepBackward).1.touch (e.sequence + 1) := by
  rcases moveCursor_cases e g stack c forward with ⟨hsame, -⟩ | ⟨-, t, ht, -, -, hids, hlook⟩
  · exact .inl (hsame ▸ hs)
  have hnodup' := hids ▸ hnodup
  have hfound := stack?_of_mem hnodup' hs
  rw [hlook] at hfound
  by_cases hx : s.id = stack
  · rw [if_pos hx] at hfound
    exact .inr ⟨t, (mem_of_stack? ht).1, (Option.some.inj hfound).symm⟩
  · rw [if_neg hx] at hfound
    exact .inl (mem_of_stack? hfound).1

theorem ids_moveCursor (e : Engine α) (g : Nat) (stack : String) (c : Command α) (forward : Bool) :
    (e.moveCursor g stack c forward).1.histories.map Stack.id = e.histories.map Stack.id := by
  rcases moveCursor_cases e g stack c forward with ⟨hsame, -⟩ | ⟨-, t, -, -, -, hids, -⟩
  · rw [hsame]
  · exact hids

theorem ids_prefix_withStack (e : Engine α) (id : String) (f : Stack α → Stack α)
    (hf : ∀ t, (f t).id = t.id) :
    e.histories.map Stack.id <+: (e.withStack id f).histories.map Stack.id := by
  rw [ids_withStack e id f hf]
  split_ifs
  · exact List.prefix_refl _
  · exact List.prefix_append _ _

theorem ids_nodup_withStack {e : Engine α} (hnodup : (e.histories.map Stack.id).Nodup) (id : String)
    (f : Stack α → Stack α) (hf : ∀ t, (f t).id = t.id) :
    ((e.withStack id f).histories.map Stack.id).Nodup := by
  rw [ids_withStack e id f hf]
  split_ifs with hmem
  · exact hnodup
  · exact hnodup.append (List.nodup_singleton id) (by simpa using hmem)

theorem mem_ids_withStack (e : Engine α) (id : String) (f : Stack α → Stack α)
    (hf : ∀ t, (f t).id = t.id) : id ∈ (e.withStack id f).histories.map Stack.id := by
  rw [ids_withStack e id f hf]
  split_ifs with hmem
  · exact hmem
  · simp

/-! ### What callers change -/

def Input.isSubmission : Input α → Bool
  | .enqueue _ => true
  | .undo _ => true
  | .redo _ => true
  | .jump _ => true
  | _ => false

/-- A submission is refused, using up at most a ticket; or the builder makes its job from the engine
with the next ticket used up, and the job goes last in the queue under that ticket, counted as
running; or, once the worker no longer takes jobs, the job is made but not sent: the count goes back,
the pending entries of its ticket are dropped and the answer is that the engine is shut down. -/
theorem submit_answer (e : Engine α) (build : Engine α → Nat → Except Fault (Engine α × Task α))
    {e₁ : Engine α} {r : Except Fault Nat} (hs : e.submit build = (e₁, r)) :
    (r.toOption = none ∧ ∃ n, e.nextTicket ≤ n ∧ e₁ = { e with nextTicket := n }) ∨
      ∃ e' task, build { e with nextTicket := e.nextTicket + 1 } e.nextTicket = .ok (e', task) ∧
        ((e'.receiving = true ∧ r.toOption = some e.nextTicket ∧
          e₁ = { e' with queue := e'.queue ++ [⟨e.nextTicket, e'.generation, task⟩],
                         running := e'.running + 1 }) ∨
        (e'.receiving = false ∧ r = .error .engineShutdown ∧
          e₁ = { e' with pending := e'.pending.filter (·.ticket != e.nextTicket) })) := by
  unfold submit at hs
  split_ifs at hs
  · cases hs
    exact .inl ⟨rfl, _, le_refl _, rfl⟩
  · dsimp only at hs
    split at hs
    · cases hs
      exact .inl ⟨rfl, _, Nat.le_succ _, rfl⟩
    · rename_i e' task hb
      refine .inr ⟨e', task, hb, ?_⟩
      split_ifs at hs with hreceiving
      · cases hs
        exact .inl ⟨hreceiving, rfl, rfl⟩
      · cases hs
        exact .inr ⟨by simpa using hreceiving, rfl, by simp⟩

/-- A submission hands out a ticket and queues at most one job, of the current generation, whose
task has what every task of the builder has, counting it as running; beside those, only the pending
list may change. -/
theorem submit_cases (e : Engine α) (build : Engine α → Nat → Except Fault (Engine α × Task α))
    (P : Task α → Prop)
    (hbuild : ∀ e' t r, build e' t = .ok r → r.1 = { e' with pending := r.1.pending } ∧ P r.2) :
    ∃ n p q m, (e.submit build).1 = { e with nextTicket := n, pending := p, queue := q, running := m } ∧
      (q = e.queue ∧ m = e.running ∨
        ∃ task, P task ∧ q = e.queue ++ [{ ticket := e.nextTicket, generation := e.generation, task := task }] ∧
          m = e.running + 1) ∧
      e.nextTicket ≤ n := by
  obtain ⟨e₁, r, hs⟩ : ∃ e₁ r, e.submit build = (e₁, r) := ⟨_, _, rfl⟩
  rw [hs]
  rcases submit_answer e build hs with ⟨-, n, hn, rfl⟩ | ⟨e', task, hb, ⟨-, -, rfl⟩ | ⟨-, -, rfl⟩⟩
  · exact ⟨n, _, _, _, rfl, .inl ⟨rfl, rfl⟩, hn⟩
  · obtain ⟨he', htask⟩ := hbuild _ _ _ hb
    have he'' : e' = { e with nextTicket := e.nextTicket + 1, pending := e'.pending } := he'
    refine ⟨e.nextTicket + 1, e'.pending, _, _, ?_, .inr ⟨task, htask, rfl, rfl⟩, Nat.le_succ _⟩
    rw [he'']
  · -- the send fails: the count goes back and the task's pending entry is dropped
    have he'' : e' = { e with nextTicket := e.nextTicket + 1, pending := e'.pending } := (hbuild _ _ _ hb).1
    refine ⟨e.nextTicket + 1, e'.pending.filter (·.ticket != e.nextTicket), e.queue, e.running, ?_,
      .inl ⟨rfl, rfl⟩, Nat.le_succ _⟩
    rw [he'']

/-- **Submissions.** Submitting a command, an undo, a redo or a jump changes the tickets, only
onward, the pending list, the queue and the running count only; the queue gains at most one job, of
the current generation, counted as running, and a job that executes a command comes from submitting
that command. -/
theorem apply_submission (e : Engine α) {x : Input α} (hx : x.isSubmission) :
    ∃ n p q m, e.apply x = { e with nextTicket := n, pending := p, queue := q, running := m } ∧
      (q = e.queue ∧ m = e.running ∨ ∃ task, (∀ c stack, task = .execute c stack → x = .enqueue c) ∧
        q = e.queue ++ [{ ticket := e.nextTicket, generation := e.generation, task := task }] ∧
          m = e.running + 1) ∧
      e.nextTicket ≤ n := by
  cases x with
  | enqueue c =>
      refine submit_cases e _ _ fun e' t r h => ?_
      cases hv : e'.registry.validate c.scope with
      | error f => simp [hv, bind, Except.bind] at h
      | ok u =>
          simp only [hv, bind, Except.bind, pure, Except.pure, Except.ok.injEq] at h
          subst h
          exact ⟨rfl, fun c' stack htask => by cases htask; rfl⟩
  | undo filter =>
      refine submit_cases e _ _ fun e' t r h => ?_
      cases hv : e'.checkFilter filter with
      | error f => simp [hv, bind, Except.bind] at h
      | ok u =>
          simp only [hv, bind, Except.bind, pure, Except.pure, Except.ok.injEq] at h
          subst h
          exact ⟨rfl, fun c' stack htask => by cases htask⟩
  | redo filter =>
      refine submit_cases e _ _ fun e' t r h => ?_
      cases hv : e'.checkFilter filter with
      | error f => simp [hv, bind, Except.bind] at h
      | ok u =>
          simp only [hv, bind, Except.bind, pure, Except.pure, Except.ok.injEq] at h
          subst h
          exact ⟨rfl, fun c' stack htask => by cases htask⟩
  | jump target =>
      refine submit_cases e _ _ fun e' t r h => ?_
      simp only [Except.ok.injEq] at h
      subst h
      exact ⟨rfl, fun c' stack htask => by cases htask⟩
  | _ => simp [Input.isSubmission] at hx

theorem clear_eq (e : Engine α) :
    e.clear = { e with generation := e.generation + 1, pending := [],
                       histories := e.histories.map Stack.clear,
                       events := e.events ++ [.stateChanged] } := rfl

theorem setUndoLimit_eq (e : Engine α) (limit : Nat) :
    e.setUndoLimit limit = { e with undoLimit := limit,
                                    histories := e.histories.map fun s => (s.truncate limit).1,
                                    events := (e.setUndoLimit limit).events } := by
  unfold setUndoLimit
  dsimp only
  split_ifs <;> simp [publish, Function.comp_def]

theorem setActive_eq (e : Engine α) (stack : Option String) :
    e.setActive stack = { e with histories := (e.withStack (stack.getD e.defaultStack) fun s => s).histories,
                                 active := stack.getD e.defaultStack,
                                 events := e.events ++ [.stateChanged] } := by
  unfold setActive
  dsimp only
  rw [withStack_eq]
  rfl

/-- An accepted route is of a registered, specific, non-empty scope, and replaces any route of
that scope. -/
theorem route_eq {e e' : Engine α} {scope : Scope} {stack : String} (h : e.route scope stack = .ok e') :
    e.registry.validate scope = .ok () ∧ scope.isAll = false ∧ scope.isEmpty = false ∧
      e' = { e with routes := e.routes.filter (·.1 != scope) ++ [(scope, stack)] } := by
  unfold route at h
  cases hv : e.registry.validate scope with
  | error f => simp [hv, bind, Except.bind] at h
  | ok u =>
      by_cases hbad : (scope.isAll || scope.isEmpty) = true
      · simp [hv, hbad, bind, Except.bind, throw, throwThe, MonadExceptOf.throw] at h
      · simp only [hv, hbad, bind, Except.bind, Bool.false_eq_true, if_false, pure, Except.pure,
          Except.ok.injEq] at h
        simp only [Bool.or_eq_true, not_or, Bool.not_eq_true] at hbad
        exact ⟨rfl, hbad.1, hbad.2, h.symm⟩

/-- A caller that submits nothing keeps the worker's bookkeeping and the tickets, and moves the
generation only forward. -/
theorem apply_control (e : Engine α) {x : Input α} (hx : x.isCaller) (hsub : x.isSubmission = false) :
    SameJobs e (e.apply x) ∧ (e.apply x).nextTicket = e.nextTicket ∧ e.generation ≤ (e.apply x).generation := by
  cases x with
  | clear => exact ⟨⟨rfl, rfl, rfl, rfl⟩, rfl, Nat.le_succ _⟩
  | setUndoLimit limit =>
      simp only [Engine.apply]
      rw [setUndoLimit_eq]
      exact ⟨⟨rfl, rfl, rfl, rfl⟩, rfl, le_refl _⟩
  | setActive stack =>
      simp only [Engine.apply]
      rw [setActive_eq]
      exact ⟨⟨rfl, rfl, rfl, rfl⟩, rfl, le_refl _⟩
  | route scope stack =>
      simp only [Engine.apply]
      split
      · rename_i e' hroute
        rw [(route_eq hroute).2.2.2]
        exact ⟨⟨rfl, rfl, rfl, rfl⟩, rfl, le_refl _⟩
      · exact ⟨⟨rfl, rfl, rfl, rfl⟩, rfl, le_refl _⟩
  | shutdown => exact ⟨⟨rfl, rfl, rfl, rfl⟩, rfl, le_refl _⟩
  | pickUp => cases hx
  | resume reports outcome => cases hx
  | reporter serial act => cases hx
  | halt => cases hx
  | enqueue c => cases hsub
  | undo filter => cases hsub
  | redo filter => cases hsub
  | jump target => cases hsub

theorem busy_apply_caller (e : Engine α) {x : Input α} (hx : x.isCaller) :
    (e.apply x).busy = e.busy := by
  cases hsub : x.isSubmission
  · exact (apply_control e hx hsub).1.busy
  · obtain ⟨n, p, q, m, h, -⟩ := apply_submission e hsub
    rw [h]

/-! ### The job in flight -/

theorem Busy.Ready.shaped {e : Engine α} {b : Busy α} (h : b.Ready e) : b.Shaped := by
  unfold Busy.Ready at h
  unfold Busy.Shaped
  split at h
  · exact h
  all_goals
    obtain ⟨s, -, ⟨hop, -⟩ | ⟨hop, -⟩⟩ := h
    · exact .inl hop
    · exact .inr hop

theorem Busy.Shaped.execute_iff {b : Busy α} (h : b.Shaped) :
    b.call.operation = .execute ↔ ∃ stack, b.sequel = .record stack := by
  unfold Busy.Shaped at h
  cases hseq : b.sequel with
  | record stack =>
      rw [hseq] at h
      exact ⟨fun _ => ⟨stack, rfl⟩, fun _ => h⟩
  | _ =>
      rw [hseq] at h
      refine ⟨fun hop => ?_, ?_⟩
      · rcases h with h | h <;> rw [h] at hop <;> cases hop
      · rintro ⟨_, hrec⟩
        cases hrec

theorem busy_walk (e : Engine α) (t g : Nat) (stack : String) (wanted : Nat) (target : Option Nat)
    (p : List ProgressEvent) {b : Busy α} (h : (e.walk t g stack wanted target p).busy = some b) :
    b.Fresh e ∧ b.ticket = t ∧ b.generation = g ∧ b.sequel = .walk stack wanted target := by
  rcases walk_cases e t g stack wanted target p with ⟨r, hw⟩ | ⟨s, c, hs, hc, hw⟩ | ⟨s, c, hs, hc, hw⟩ <;>
    rw [hw] at h
  · simp at h
  all_goals
    simp only [busy_await, Option.some.injEq] at h
    subst h
  · exact ⟨⟨rfl, s, hs, .inl ⟨rfl, hc⟩⟩, rfl, rfl, rfl⟩
  · exact ⟨⟨rfl, s, hs, .inr ⟨rfl, hc⟩⟩, rfl, rfl, rfl⟩

/-- A job that starts either ends at once or stops, in the current generation, at a fresh action
run; an executed command is the one the job was queued with. -/
theorem busy_begin {e : Engine α} (hnodup : (e.histories.map Stack.id).Nodup) (job : Job α) {b : Busy α}
    (h : (e.begin job).busy = some b) :
    b.Fresh e ∧ b.ticket = job.ticket ∧ b.generation = e.generation ∧
      ∀ stack, b.sequel = .record stack → job.task = .execute b.call.command stack := by
  rcases begin_cases e job with ⟨r, hb⟩ | ⟨hgen, ⟨c, stack, htask, hb⟩ | ⟨f, stack, c, htask, htarget, hb⟩ |
    ⟨f, stack, c, htask, htarget, hb⟩ | ⟨wanted, target, hb⟩⟩ <;> rw [hb] at h
  · simp at h
  · simp only [busy_await, Option.some.injEq] at h
    subst h
    exact ⟨⟨rfl, rfl⟩, rfl, hgen, fun _ hseq => by cases hseq; exact htask⟩
  · simp only [busy_await, Option.some.injEq] at h
    subst h
    obtain ⟨s, hs, hsid, hpick⟩ := target_some htarget
    exact ⟨⟨rfl, s, hsid ▸ stack?_of_mem hnodup hs, .inl ⟨rfl, hpick⟩⟩, rfl, hgen,
      fun _ hseq => by cases hseq⟩
  · simp only [busy_await, Option.some.injEq] at h
    subst h
    obtain ⟨s, hs, hsid, hpick⟩ := target_some htarget
    exact ⟨⟨rfl, s, hsid ▸ stack?_of_mem hnodup hs, .inr ⟨rfl, hpick⟩⟩, rfl, hgen,
      fun _ hseq => by cases hseq⟩
  · obtain ⟨hfresh, hticket, hgen', hseq⟩ := busy_walk e _ _ _ _ _ _ h
    exact ⟨hfresh, hticket, hgen'.trans hgen, fun _ h' => by rw [hseq] at h'; cases h'⟩

/-- After the worker takes up a job, the job in flight is the one there was, or a fresh one of the
current generation started from the head of the queue. -/
theorem busy_pickUp {e : Engine α} (hnodup : (e.histories.map Stack.id).Nodup) {b : Busy α}
    (h : e.pickUp.busy = some b) :
    e.busy = some b ∨
      (e.busy = none ∧ ∃ job rest, e.queue = job :: rest ∧ b.Fresh e ∧ b.ticket = job.ticket ∧
        b.generation = e.generation ∧
        ∀ stack, b.sequel = .record stack → job.task = .execute b.call.command stack) := by
  rcases pickUp_cases e with hp | ⟨job, rest, hbusy, hqueue, hp⟩ <;> rw [hp] at h
  · exact .inl h
  · have hnodup' : (({ e with queue := rest, inFlight := true } : Engine α).histories.map Stack.id).Nodup :=
      hnodup
    exact .inr ⟨hbusy, job, rest, hqueue, busy_begin hnodup' job h⟩

/-- After a run returns, the job in flight, if any, is a walk that goes on from the engine the run
left: its step succeeded with no clear in between. -/
theorem busy_resume {e : Engine α} {b : Busy α} (h : e.busy = some b) (reports : List ProgressEvent)
    (outcome : Outcome) {b' : Busy α} (h' : (e.resume reports outcome).busy = some b') :
    ∃ e₁ : Engine α, SameSetup e e₁ ∧ e₁.histories = e.settled b outcome.isOk ∧
      e₁.statuses = (e.afterRun b reports outcome.isOk).statuses ∧ b'.Fresh e₁ ∧
      b'.ticket = b.ticket ∧ b'.generation = b.generation ∧ b'.sequel = b.sequel ∧
      outcome.isOk ∧ e.generation = b.generation := by
  obtain ⟨e₁, hsame, -, hhist, hstatuses, ⟨r, p, hr⟩ | ⟨stack, wanted, target, hseq, hok, hgen, hr⟩⟩ :=
    resume_cases h reports outcome <;> rw [hr] at h'
  · simp at h'
  · obtain ⟨hfresh, hticket, hgen', hseq'⟩ := busy_walk e₁ _ _ _ _ _ _ h'
    exact ⟨e₁, hsame, hhist, hstatuses, hfresh, hticket, hgen', hseq'.trans hseq.symm, hok, hgen⟩

/-! ### The stacks a returned run leaves -/

/-- Each stack a returned run leaves was there before, or is the stack an executed command was
recorded on (made empty first if it was new), or had its cursor stepped over the command. -/
theorem mem_settled {e : Engine α} (hnodup : (e.histories.map Stack.id).Nodup) {b : Busy α} {ok : Bool}
    {s : Stack α} (hs : s ∈ e.settled b ok) :
    s ∈ e.histories ∨
      (∃ stack, b.sequel = .record stack ∧ ok = true ∧ b.call.command.isQuery = false ∧
        e.generation = b.generation ∧ ∃ t, (t ∈ e.histories ∨ t = Stack.empty stack) ∧ t.id = stack ∧
          s = ((t.push b.call.command).truncate e.undoLimit).1.touch (e.sequence + 1)) ∨
      (∃ t ∈ e.histories, s = (if b.call.operation == .redo then t.stepForward else t.stepBackward).1.touch
        (e.sequence + 1)) := by
  unfold settled at hs
  split at hs
  · rename_i stack hseq
    split_ifs at hs with hrec
    · simp only [Bool.and_eq_true, Bool.not_eq_true', beq_iff_eq] at hrec
      rcases mem_withStack hs with hmem | ⟨t, ht, htid, rfl⟩
      · exact .inl hmem
      · exact .inr (.inl ⟨stack, hseq, hrec.1.1, hrec.1.2, hrec.2, t, ht, htid, rfl⟩)
    · exact .inl hs
  all_goals
    split_ifs at hs
    · rcases mem_moveCursor hnodup hs with hmem | hstep
      · exact .inl hmem
      · exact .inr (.inr hstep)
    · exact .inl hs

theorem ids_prefix_settled (e : Engine α) (b : Busy α) (ok : Bool) :
    e.histories.map Stack.id <+: (e.settled b ok).map Stack.id := by
  unfold settled
  split
  · split_ifs
    · exact ids_prefix_withStack { e with sequence := e.sequence + 1 } _ _ (fun t => by simp)
    · exact List.prefix_refl _
  all_goals
    split_ifs
    · rw [ids_moveCursor]
    · exact List.prefix_refl _

theorem ids_nodup_settled {e : Engine α} (hnodup : (e.histories.map Stack.id).Nodup) (b : Busy α)
    (ok : Bool) : ((e.settled b ok).map Stack.id).Nodup := by
  unfold settled
  split
  · have hnodup' : (({ e with sequence := e.sequence + 1 } : Engine α).histories.map Stack.id).Nodup :=
      hnodup
    split_ifs
    · exact ids_nodup_withStack hnodup' _ _ (fun t => by simp)
    · exact hnodup
  all_goals
    split_ifs
    · rwa [ids_moveCursor]
    · exact hnodup

/-! ### The invariant -/

/-- What holds of every engine that a valid configuration starts and any run of inputs reaches. -/
structure Invariant (e : Engine α) : Prop where
  ids_nodup : (e.histories.map Stack.id).Nodup
  fits : ∀ s ∈ e.histories, s.Fits e.undoLimit
  default_mem : e.defaultStack ∈ e.histories.map Stack.id
  active_mem : e.active ∈ e.histories.map Stack.id
  busy_shaped : ∀ b, e.busy = some b → b.Shaped
  busy_generation : ∀ b, e.busy = some b → b.generation ≤ e.generation
  queue_generation : ∀ job ∈ e.queue, job.generation ≤ e.generation

/-- A worker step keeps the invariant when it keeps the setup, only adds stacks, keeps them
fitting, takes jobs off the queue only, and leaves a job in flight of a past generation. -/
theorem Invariant.of_worker {e e' : Engine α} (h : e.Invariant) (hsame : SameSetup e e')
    (hids : e.histories.map Stack.id <+: e'.histories.map Stack.id)
    (hnodup : (e'.histories.map Stack.id).Nodup) (hfits : ∀ s ∈ e'.histories, s.Fits e.undoLimit)
    (hqueue : ∀ job ∈ e'.queue, job ∈ e.queue)
    (hbusy : ∀ b, e'.busy = some b → b.Shaped ∧ b.generation ≤ e.generation) : e'.Invariant where
  ids_nodup := hnodup
  fits := hsame.undoLimit ▸ hfits
  default_mem := hsame.defaultStack ▸ hids.subset h.default_mem
  active_mem := hsame.active ▸ hids.subset h.active_mem
  busy_shaped b hb := (hbusy b hb).1
  busy_generation b hb := hsame.generation ▸ (hbusy b hb).2
  queue_generation job hjob := hsame.generation ▸ h.queue_generation job (hqueue job hjob)

theorem Invariant.pickUp {e : Engine α} (h : e.Invariant) : e.pickUp.Invariant := by
  have hhist := histories_pickUp e
  refine h.of_worker (SameSetup.pickUp e) (hhist ▸ List.prefix_refl _) (hhist ▸ h.ids_nodup)
    (hhist ▸ h.fits) (fun _ => mem_queue_pickUp) ?_
  · intro b hb
    rcases busy_pickUp h.ids_nodup hb with hold | ⟨-, job, rest, -, hfresh, -, hgen, -⟩
    · exact ⟨h.busy_shaped b hold, h.busy_generation b hold⟩
    · exact ⟨Busy.Ready.shaped hfresh.2, hgen.le⟩

theorem Invariant.fits_settled {e : Engine α} (h : e.Invariant) (b : Busy α) (ok : Bool) :
    ∀ s ∈ e.settled b ok, s.Fits e.undoLimit := by
  intro s hs
  rcases mem_settled h.ids_nodup hs with hmem | ⟨stack, -, -, hquery, -, t, ht, -, rfl⟩ | ⟨t, ht, rfl⟩
  · exact h.fits s hmem
  · have htfits : t.Fits e.undoLimit := by
      rcases ht with ht | rfl
      · exact h.fits t ht
      · exact Stack.Fits.empty _ _
    exact (htfits.record hquery).touch _
  · split
    · exact (h.fits t ht).stepForward.touch _
    · exact (h.fits t ht).stepBackward.touch _

theorem Invariant.resume {e : Engine α} (h : e.Invariant) (reports : List ProgressEvent)
    (outcome : Outcome) : (e.resume reports outcome).Invariant := by
  cases hbusy : e.busy with
  | none =>
      rw [resume_idle hbusy]
      exact h
  | some b =>
      refine h.of_worker (SameSetup.resume e reports outcome) ?_ ?_ ?_ ?_ ?_
      · rw [histories_resume hbusy]
        exact ids_prefix_settled e b _
      · rw [histories_resume hbusy]
        exact ids_nodup_settled h.ids_nodup b _
      · rw [histories_resume hbusy]
        exact h.fits_settled b _
      · intro job hjob
        rwa [queue_resume] at hjob
      · intro b' hb'
        obtain ⟨e₁, -, -, -, hfresh, -, hgen, -⟩ := busy_resume hbusy reports outcome hb'
        exact ⟨Busy.Ready.shaped hfresh.2, hgen ▸ h.busy_generation b hbusy⟩

theorem Invariant.submission {e : Engine α} (h : e.Invariant) {x : Input α} (hx : x.isSubmission) :
    (e.apply x).Invariant := by
  obtain ⟨n, p, q, m, hx', hq, -⟩ := apply_submission e hx
  rw [hx']
  refine { h with queue_generation := ?_ }
  intro job hjob
  rcases hq with ⟨rfl, -⟩ | ⟨task, -, rfl, -⟩
  · exact h.queue_generation job hjob
  · rcases List.mem_append.mp hjob with hold | hnew
    · exact h.queue_generation job hold
    · rw [List.mem_singleton.mp hnew]

theorem Invariant.clear {e : Engine α} (h : e.Invariant) : e.clear.Invariant := by
  have hids : (e.histories.map Stack.clear).map Stack.id = e.histories.map Stack.id :=
    ids_map _ _ (fun t => rfl)
  rw [clear_eq]
  exact
    { ids_nodup := hids ▸ h.ids_nodup
      fits := fun s hs => by
        obtain ⟨t, -, rfl⟩ := List.mem_map.mp hs
        exact Stack.Fits.clear _ t
      default_mem := hids ▸ h.default_mem
      active_mem := hids ▸ h.active_mem
      busy_shaped := h.busy_shaped
      busy_generation := fun b hb => Nat.le_succ_of_le (h.busy_generation b hb)
      queue_generation := fun job hjob => Nat.le_succ_of_le (h.queue_generation job hjob) }

theorem Invariant.setUndoLimit {e : Engine α} (h : e.Invariant) (limit : Nat) :
    (e.setUndoLimit limit).Invariant := by
  have hids : (e.histories.map fun s => (s.truncate limit).1).map Stack.id = e.histories.map Stack.id :=
    ids_map _ _ (fun t => Stack.id_truncate t limit)
  rw [setUndoLimit_eq]
  exact
    { h with
      ids_nodup := hids ▸ h.ids_nodup
      fits := fun s hs => by
        obtain ⟨t, ht, rfl⟩ := List.mem_map.mp hs
        exact (h.fits t ht).truncate limit
      default_mem := hids ▸ h.default_mem
      active_mem := hids ▸ h.active_mem }

theorem Invariant.setActive {e : Engine α} (h : e.Invariant) (stack : Option String) :
    (e.setActive stack).Invariant := by
  have hid : ∀ t : Stack α, ((fun s : Stack α => s) t).id = t.id := fun t => rfl
  rw [setActive_eq]
  exact
    { h with
      ids_nodup := ids_nodup_withStack h.ids_nodup _ _ hid
      fits := fun s hs => by
        rcases mem_withStack hs with hmem | ⟨t, ht | rfl, -, hst⟩
        · exact h.fits s hmem
        · exact hst ▸ h.fits t ht
        · exact hst ▸ Stack.Fits.empty _ _
      default_mem := (ids_prefix_withStack e _ _ hid).subset h.default_mem
      active_mem := mem_ids_withStack e _ _ hid }

theorem Invariant.handle {e : Engine α} (h : e.Invariant) (k : Nat) (act : Handling) :
    (e.handle k act).Invariant := by
  obtain ⟨evs, rs, extra, hx⟩ := handle_eq e k act
  rw [hx]
  refine { h with busy_shaped := ?_, busy_generation := ?_ }
  all_goals
    intro b hb
    obtain ⟨b₀, hb₀, rfl⟩ := Option.map_eq_some_iff.mp hb
  · exact h.busy_shaped b₀ hb₀
  · exact h.busy_generation b₀ hb₀

theorem Invariant.route {e : Engine α} (h : e.Invariant) (scope : Scope) (stack : String) :
    (e.apply (.route scope stack)).Invariant := by
  simp only [apply]
  split
  · rename_i e' hroute
    obtain ⟨-, -, -, rfl⟩ := route_eq hroute
    exact { h with }
  · exact h

/-- **Every input keeps the invariant.** -/
theorem Invariant.apply {e : Engine α} (h : e.Invariant) (x : Input α) : (e.apply x).Invariant := by
  cases x with
  | enqueue c => exact h.submission rfl
  | undo filter => exact h.submission rfl
  | redo filter => exact h.submission rfl
  | jump target => exact h.submission rfl
  | clear => exact h.clear
  | setUndoLimit limit => exact h.setUndoLimit limit
  | setActive stack => exact h.setActive stack
  | route scope stack => exact h.route scope stack
  | shutdown => exact { h with }
  | pickUp => exact h.pickUp
  | resume reports outcome => exact h.resume reports outcome
  | reporter serial act => exact h.handle serial act
  | halt =>
      obtain ⟨receiving, hx⟩ := halt_eq e
      rw [Engine.apply, hx]
      exact { h with }

theorem Invariant.run {e : Engine α} (h : e.Invariant) (xs : List (Input α)) : (e.run xs).Invariant := by
  induction xs generalizing e with
  | nil => exact h
  | cons x xs ih => exact ih (h.apply x)

/-- A fresh engine: the configuration's registry, limit and default stack, that stack alone and
active, and the routes resolved from the configuration. -/
theorem create_eq {c : Config} {e₀ : Engine α} (h : Engine.create c = .ok e₀) :
    ∃ r f routes, c.validate = .ok r ∧ (∀ name stack, f (name, stack) = (r.scopeOf name).map (·, stack)) ∧
      c.routes.mapM f = .ok routes ∧
      e₀ = { registry := r, defaultStack := c.defaultStack, undoLimit := c.undoLimit,
             capacity := c.eventCapacity, histories := [Stack.empty c.defaultStack],
             active := c.defaultStack, routes := routes } := by
  unfold create at h
  cases hvalid : c.validate with
  | error f => simp [hvalid, bind, Except.bind] at h
  | ok r =>
      simp only [hvalid, bind, Except.bind] at h
      split at h
      · cases h
      · rename_i routes hroutes
        simp only [pure, Except.pure, Except.ok.injEq] at h
        refine ⟨r, _, routes, rfl, ?_, hroutes, h.symm⟩
        intro name stack
        rfl

theorem invariant_create {c : Config} {e₀ : Engine α} (hcreate : Engine.create c = .ok e₀) :
    e₀.Invariant := by
  obtain ⟨r, f, routes, -, -, -, rfl⟩ := create_eq hcreate
  exact
    { ids_nodup := List.nodup_singleton _
      fits := fun s hs => by
        rw [List.mem_singleton.mp hs]
        exact Stack.Fits.empty _ _
      default_mem := List.mem_singleton_self _
      active_mem := List.mem_singleton_self _
      busy_shaped := fun b hb => by cases hb
      busy_generation := fun b hb => by cases hb
      queue_generation := fun job hjob => by cases hjob }

/-! ### Routes -/

/-- The routes are of registered, specific, non-empty scopes, one route per scope. -/
structure RoutesValid (e : Engine α) : Prop where
  valid : ∀ r ∈ e.routes, e.registry.validate r.1 = .ok () ∧ r.1.isAll = false ∧ r.1.isEmpty = false
  nodup : (e.routes.map Prod.fst).Nodup

theorem RoutesValid.of_same {e e' : Engine α} (h : e.RoutesValid) (hregistry : e'.registry = e.registry)
    (hroutes : e'.routes = e.routes) : e'.RoutesValid :=
  ⟨hroutes ▸ hregistry ▸ h.valid, hroutes ▸ h.nodup⟩

theorem RoutesValid.apply {e : Engine α} (h : e.RoutesValid) (x : Input α) : (e.apply x).RoutesValid := by
  by_cases hx : x.isSubmission
  · obtain ⟨n, p, q, m, hx', -⟩ := apply_submission e hx
    rw [hx']
    exact h.of_same rfl rfl
  cases x with
  | clear => exact h.of_same rfl rfl
  | setUndoLimit limit =>
      simp only [Engine.apply]
      rw [setUndoLimit_eq]
      exact h.of_same rfl rfl
  | setActive stack =>
      simp only [Engine.apply]
      rw [setActive_eq]
      exact h.of_same rfl rfl
  | route scope stack =>
      simp only [Engine.apply]
      split
      · rename_i e' hroute
        obtain ⟨hvalid, hall, hempty, rfl⟩ := route_eq hroute
        refine ⟨fun r hr => ?_, ?_⟩
        · rcases List.mem_append.mp hr with hold | hnew
          · exact h.valid r (List.mem_of_mem_filter hold)
          · rw [List.mem_singleton.mp hnew]
            exact ⟨hvalid, hall, hempty⟩
        · -- the other routes are of other scopes, so the new one is the only route of its scope
          rw [List.map_append, List.nodup_append]
          refine ⟨h.nodup.sublist (List.filter_sublist.map _), List.nodup_singleton _, ?_⟩
          intro a ha b hb
          obtain ⟨r, hr, rfl⟩ := List.mem_map.mp ha
          rw [List.mem_singleton.mp hb]
          simpa using (List.mem_filter.mp hr).2
      · exact h
  | shutdown => exact h.of_same rfl rfl
  | pickUp => exact h.of_same (SameSetup.pickUp e).registry (SameSetup.pickUp e).routes
  | resume reports outcome =>
      exact h.of_same (SameSetup.resume e reports outcome).registry (SameSetup.resume e reports outcome).routes
  | reporter serial act =>
      exact h.of_same (SameSetup.handle e serial act).registry (SameSetup.handle e serial act).routes
  | halt => exact h.of_same (SameSetup.halt e).registry (SameSetup.halt e).routes
  | enqueue c => exact absurd rfl hx
  | undo filter => exact absurd rfl hx
  | redo filter => exact absurd rfl hx
  | jump target => exact absurd rfl hx

theorem RoutesValid.run {e : Engine α} (h : e.RoutesValid) (xs : List (Input α)) : (e.run xs).RoutesValid := by
  induction xs generalizing e with
  | nil => exact h
  | cons x xs ih => exact ih (h.apply x)

theorem routesValid_create {c : Config} {e₀ : Engine α} (hcreate : Engine.create c = .ok e₀)
    (hkeys : (c.routes.map Prod.fst).Nodup) : e₀.RoutesValid := by
  obtain ⟨r, f, routes, hvalid, hf, hroutes, rfl⟩ := create_eq hcreate
  obtain ⟨hvalid_routes, hnodup⟩ := Config.route_scopes hvalid hkeys hf hroutes
  exact ⟨hvalid_routes, hnodup⟩

/-! ### The running count -/

/-- The running count is the number of jobs the worker holds without a reply, the one in flight and
the queued ones, and the in-flight flag is up exactly while a job is in flight. -/
structure Counted (e : Engine α) : Prop where
  running : e.running = e.busy.toList.length + e.queue.length
  inFlight : e.inFlight = e.busy.isSome

/-- The worker holds a job it took off the queue and has neither stopped at a run nor ended: the job
still counts as running, and the worker is busy with it. -/
structure Holding (e : Engine α) : Prop where
  running : e.running = e.queue.length + 1
  inFlight : e.inFlight = true

theorem Holding.publish {e : Engine α} (h : e.Holding) (ev : EngineEvent) : (e.publish ev).Holding :=
  ⟨h.running, h.inFlight⟩

theorem Holding.finish {e : Engine α} (h : e.Holding) (t : Nat) (r : Except Fault Value)
    (p : List ProgressEvent) : (e.finish t r p).Counted :=
  ⟨by simp [h.running], by simp⟩

theorem Holding.await {e : Engine α} (h : e.Holding) (t g : Nat) (call : Call α) (sq : Sequel)
    (p : List ProgressEvent) : (e.await t g call sq p).Counted :=
  ⟨by simp [h.running, Nat.add_comm], by simp [h.inFlight]⟩

theorem Holding.walk {e : Engine α} (h : e.Holding) (t g : Nat) (stack : String) (wanted : Nat)
    (target : Option Nat) (p : List ProgressEvent) : (e.walk t g stack wanted target p).Counted := by
  rcases walk_cases e t g stack wanted target p with ⟨r, hw⟩ | ⟨s, c, -, -, hw⟩ | ⟨s, c, -, -, hw⟩ <;>
    rw [hw]
  · exact h.finish t r p
  all_goals exact (h.publish _).await _ _ _ _ _

theorem Holding.begin {e : Engine α} (h : e.Holding) (job : Job α) : (e.begin job).Counted := by
  rcases begin_cases e job with ⟨r, hb⟩ | ⟨-, ⟨c, stack, -, hb⟩ | ⟨f, stack, c, -, -, hb⟩ |
    ⟨f, stack, c, -, -, hb⟩ | ⟨wanted, target, hb⟩⟩ <;> rw [hb]
  · exact h.finish _ r []
  · have hheld : ({ e with pending := e.pending.filter (·.ticket != job.ticket) } : Engine α).Holding :=
      ⟨h.running, h.inFlight⟩
    exact hheld.await _ _ _ _ _
  · exact (h.publish _).await _ _ _ _ _
  · exact (h.publish _).await _ _ _ _ _
  · exact h.walk _ _ _ _ _ _

theorem Counted.holding {e e₁ : Engine α} (h : e.Counted) {b : Busy α} (hbusy : e.busy = some b)
    (hjobs : SameJobs e e₁) : e₁.Holding := by
  refine ⟨?_, ?_⟩
  · rw [hjobs.running, hjobs.queue, h.running, hbusy, Option.toList_some, List.length_singleton,
      Nat.add_comm]
  · rw [hjobs.inFlight, h.inFlight, hbusy, Option.isSome_some]

theorem Counted.of_jobs {e e' : Engine α} (h : e.Counted) (hjobs : SameJobs e e') : e'.Counted :=
  ⟨by rw [hjobs.running, hjobs.busy, hjobs.queue, h.running],
    by rw [hjobs.inFlight, hjobs.busy, h.inFlight]⟩

theorem Counted.pickUp {e : Engine α} (h : e.Counted) : e.pickUp.Counted := by
  rcases pickUp_cases e with hp | ⟨job, rest, hbusy, hqueue, hp⟩ <;> rw [hp]
  · exact h
  · -- the job taken off the queue still counts, now as the one the worker holds
    have hheld : ({ e with queue := rest, inFlight := true } : Engine α).Holding := by
      refine ⟨?_, rfl⟩
      have hcount := h.running
      rw [hbusy, hqueue] at hcount
      simpa using hcount
    exact hheld.begin job

theorem Counted.resume {e : Engine α} (h : e.Counted) (reports : List ProgressEvent) (outcome : Outcome) :
    (e.resume reports outcome).Counted := by
  cases hbusy : e.busy with
  | none =>
      rw [resume_idle hbusy]
      exact h
  | some b =>
      obtain ⟨e₁, -, hjobs, -, -, ⟨r, p, hr⟩ | ⟨stack, wanted, target, -, -, -, hr⟩⟩ :=
        resume_cases hbusy reports outcome <;> rw [hr]
      · exact (h.holding hbusy hjobs.1).finish _ r p
      · exact (h.holding hbusy hjobs.1).walk _ _ _ _ _ _

theorem Counted.submission {e : Engine α} (h : e.Counted) {x : Input α} (hx : x.isSubmission) :
    (e.apply x).Counted := by
  obtain ⟨n, p, q, m, hx', hq, -⟩ := apply_submission e hx
  rw [hx']
  rcases hq with ⟨rfl, rfl⟩ | ⟨task, -, rfl, rfl⟩
  · exact ⟨h.running, h.inFlight⟩
  · exact ⟨by simp [h.running, Nat.add_assoc], h.inFlight⟩

theorem Counted.handle {e : Engine α} (h : e.Counted) (k : Nat) (act : Handling) :
    (e.handle k act).Counted := by
  obtain ⟨evs, rs, extra, hx⟩ := handle_eq e k act
  rw [hx]
  constructor
  · rw [h.running]
    cases e.busy <;> rfl
  · rw [h.inFlight]
    cases e.busy <;> rfl

/-- **Every input keeps the running count.** -/
theorem Counted.apply {e : Engine α} (h : e.Counted) (x : Input α) : (e.apply x).Counted := by
  by_cases hsub : x.isSubmission
  · exact h.submission hsub
  cases hcaller : x.isCaller
  · cases x with
    | pickUp => exact h.pickUp
    | resume reports outcome => exact h.resume reports outcome
    | reporter serial act => exact h.handle serial act
    | halt =>
        obtain ⟨receiving, hx⟩ := halt_eq e
        rw [Engine.apply, hx]
        exact ⟨h.running, h.inFlight⟩
    | _ => cases hcaller
  · exact h.of_jobs (apply_control e hcaller (by simpa using hsub)).1

theorem Counted.run {e : Engine α} (h : e.Counted) (xs : List (Input α)) : (e.run xs).Counted := by
  induction xs generalizing e with
  | nil => exact h
  | cons x xs ih => exact ih (h.apply x)

/-- The engine executes while a job is in flight, schedules while jobs wait and none is in flight,
and is idle otherwise. -/
theorem Counted.activity_eq {e : Engine α} (h : e.Counted) :
    e.activity = if e.busy.isSome then .executing else if e.queue.isEmpty then .idle else .scheduling := by
  unfold activity isRunning
  rw [h.inFlight, h.running]
  cases e.busy <;> cases e.queue <;> simp

theorem counted_create {c : Config} {e₀ : Engine α} (hcreate : Engine.create c = .ok e₀) : e₀.Counted := by
  obtain ⟨r, f, routes, -, -, -, rfl⟩ := create_eq hcreate
  exact ⟨rfl, rfl⟩

/-! ### Every recorded command ran -/

/-- Every command in a history had a successful forward run for its stack in the current
generation, among the deeds `ds`. -/
def Recorded (e : Engine α) (ds : List (Deed α)) : Prop :=
  ∀ s ∈ e.histories, ∀ c ∈ s.commands, Deed.ran e.generation s.id c .forward true ∈ ds

theorem Recorded.mono {e : Engine α} {ds ds' : List (Deed α)} (h : e.Recorded ds) (hsub : ds ⊆ ds') :
    e.Recorded ds' :=
  fun s hs c hc => hsub (h s hs c hc)

theorem ran_mem_deeds {e : Engine α} {b : Busy α} (hbusy : e.busy = some b)
    (hskip : b.call.command.skips b.call.operation.direction = false) (reports : List ProgressEvent)
    (outcome : Outcome) :
    Deed.ran e.generation b.sequel.stack b.call.command b.call.operation.direction outcome.isOk
      ∈ e.deeds (.resume reports outcome) := by
  simp only [deeds, hbusy, hskip, Bool.false_eq_true, if_false]
  split
  · split_ifs <;> simp
  all_goals simp

theorem Recorded.resume {e : Engine α} (hinv : e.Invariant) {ds : List (Deed α)} (h : e.Recorded ds)
    (reports : List ProgressEvent) (outcome : Outcome) :
    (e.resume reports outcome).Recorded (ds ++ e.deeds (.resume reports outcome)) := by
  cases hbusy : e.busy with
  | none =>
      rw [resume_idle hbusy]
      exact h.mono (List.subset_append_left _ _)
  | some b =>
      intro s hs c hc
      rw [histories_resume hbusy] at hs
      rw [(SameSetup.resume e reports outcome).generation]
      rcases mem_settled hinv.ids_nodup hs with hmem | ⟨stack, hseq, hok, hquery, -, t, ht, htid, rfl⟩ |
        ⟨t, ht, rfl⟩
      · exact List.mem_append_left _ (h s hmem c hc)
      · -- the recorded stack holds its old commands and the one just run forward
        have htfits : t.Fits e.undoLimit := by
          rcases ht with ht | rfl
          · exact hinv.fits t ht
          · exact Stack.Fits.empty _ _
        have hcpush := Stack.mem_commands_truncate e.undoLimit (htfits.bounded.push b.call.command) hc
        have hsid : (((t.push b.call.command).truncate e.undoLimit).1.touch (e.sequence + 1)).id = stack := by
          simpa using htid
        rw [hsid]
        rcases Stack.mem_commands_push hcpush with hold | rfl
        · rcases ht with ht | rfl
          · exact List.mem_append_left _ (htid ▸ h t ht c hold)
          · simp at hold
        · have hop : b.call.operation = .execute :=
            (Busy.Shaped.execute_iff (hinv.busy_shaped b hbusy)).mpr ⟨stack, hseq⟩
          have hskip : b.call.command.skips b.call.operation.direction = false := by
            simp [Command.skips, hop, Operation.direction]
          have hran := ran_mem_deeds hbusy hskip reports outcome
          rw [hseq, hop, hok] at hran
          exact List.mem_append_right _ hran
      · have hcmds : (if b.call.operation == .redo then t.stepForward else t.stepBackward).1.commands = t.commands := by
          split
          · exact Stack.commands_stepForward t
          · exact Stack.commands_stepBackward t
        have hid : (if b.call.operation == .redo then t.stepForward else t.stepBackward).1.id = t.id := by
          split <;> simp
        simp only [Stack.commands_touch, hcmds] at hc
        simp only [Stack.id_touch, hid]
        exact List.mem_append_left _ (h t ht c hc)

theorem Recorded.apply {e : Engine α} (hinv : e.Invariant) {ds : List (Deed α)} (h : e.Recorded ds)
    (x : Input α) : (e.apply x).Recorded (ds ++ e.deeds x) := by
  have hmono := h.mono (List.subset_append_left ds (e.deeds x))
  by_cases hx : x.isSubmission
  · obtain ⟨n, p, q, m, hx', -⟩ := apply_submission e hx
    rw [hx']
    exact hmono
  cases x with
  | clear =>
      intro s hs c hc
      simp only [Engine.apply] at hs
      rw [clear_eq] at hs
      obtain ⟨t, -, rfl⟩ := List.mem_map.mp hs
      simp at hc
  | setUndoLimit limit =>
      intro s hs c hc
      simp only [Engine.apply] at hs ⊢
      rw [setUndoLimit_eq] at hs ⊢
      obtain ⟨t, ht, rfl⟩ := List.mem_map.mp hs
      rw [Stack.id_truncate]
      exact hmono t ht c (Stack.mem_commands_truncate limit (hinv.fits t ht).bounded hc)
  | setActive stack =>
      intro s hs c hc
      simp only [Engine.apply] at hs ⊢
      rw [setActive_eq] at hs ⊢
      rcases mem_withStack hs with hmem | ⟨t, ht | rfl, -, hst⟩
      · exact hmono s hmem c hc
      · rw [hst] at hc ⊢
        exact hmono t ht c hc
      · rw [hst] at hc
        simp at hc
  | route scope stack =>
      simp only [Engine.apply]
      split
      · rename_i e' hroute
        obtain ⟨-, -, -, rfl⟩ := route_eq hroute
        exact hmono
      · exact hmono
  | shutdown => exact hmono
  | pickUp =>
      intro s hs c hc
      simp only [Engine.apply, histories_pickUp] at hs ⊢
      rw [(SameSetup.pickUp e).generation]
      exact hmono s hs c hc
  | resume reports outcome => exact h.resume hinv reports outcome
  | reporter serial act =>
      intro s hs c hc
      simp only [Engine.apply, histories_handle] at hs ⊢
      rw [(SameSetup.handle e serial act).generation]
      exact hmono s hs c hc
  | halt =>
      intro s hs c hc
      simp only [Engine.apply, histories_halt] at hs ⊢
      rw [(SameSetup.halt e).generation]
      exact hmono s hs c hc
  | enqueue c => exact absurd rfl hx
  | undo filter => exact absurd rfl hx
  | redo filter => exact absurd rfl hx
  | jump target => exact absurd rfl hx

theorem Recorded.run {e : Engine α} (hinv : e.Invariant) {ds : List (Deed α)} (h : e.Recorded ds)
    (xs : List (Input α)) : (e.run xs).Recorded (ds ++ e.trace xs) := by
  induction xs generalizing e ds with
  | nil => simpa [trace] using h
  | cons x xs ih =>
      have hstep := ih (hinv.apply x) (h.apply hinv x)
      simpa [trace, List.append_assoc] using hstep

/-! ### Stacks are never removed -/

theorem ids_prefix_apply (e : Engine α) (x : Input α) :
    e.histories.map Stack.id <+: (e.apply x).histories.map Stack.id := by
  by_cases hx : x.isSubmission
  · obtain ⟨n, p, q, m, hx', -⟩ := apply_submission e hx
    rw [hx']
  cases x with
  | clear =>
      have hids := ids_map e.histories Stack.clear (fun t => rfl)
      show e.histories.map Stack.id <+: (e.histories.map Stack.clear).map Stack.id
      rw [hids]
  | setUndoLimit limit =>
      have hids := ids_map e.histories (fun s => (s.truncate limit).1) (fun t => Stack.id_truncate t limit)
      simp only [Engine.apply]
      rw [setUndoLimit_eq]
      show e.histories.map Stack.id <+: (e.histories.map fun s => (s.truncate limit).1).map Stack.id
      rw [hids]
  | setActive stack =>
      simp only [Engine.apply]
      rw [setActive_eq]
      exact ids_prefix_withStack e _ _ (fun t => rfl)
  | route scope stack =>
      simp only [Engine.apply]
      split
      · rename_i e' hroute
        obtain ⟨-, -, -, rfl⟩ := route_eq hroute
        exact List.prefix_refl _
      · exact List.prefix_refl _
  | shutdown => exact List.prefix_refl _
  | pickUp =>
      simp only [Engine.apply, histories_pickUp]
      exact List.prefix_refl _
  | resume reports outcome =>
      cases hbusy : e.busy with
      | none =>
          simp only [Engine.apply, resume_idle hbusy]
          exact List.prefix_refl _
      | some b =>
          simp only [Engine.apply]
          rw [histories_resume hbusy]
          exact ids_prefix_settled e b _
  | reporter serial act =>
      simp only [Engine.apply, histories_handle]
      exact List.prefix_refl _
  | halt =>
      simp only [Engine.apply, histories_halt]
      exact List.prefix_refl _
  | enqueue c => exact absurd rfl hx
  | undo filter => exact absurd rfl hx
  | redo filter => exact absurd rfl hx
  | jump target => exact absurd rfl hx

theorem ids_prefix_run (e : Engine α) (xs : List (Input α)) :
    e.histories.map Stack.id <+: (e.run xs).histories.map Stack.id := by
  induction xs generalizing e with
  | nil => exact List.prefix_refl _
  | cons x xs ih => exact (ids_prefix_apply e x).trans (ih (e.apply x))

/-! ### The state invariant of reachable engines -/

/-- **The engine's state invariant.** Start from a valid configuration, which routes each name once,
and let callers and the worker act in any order, with any outcome of every action run. Then every
stack keeps its cursor within its history and, under a positive limit, at most that many commands;
stacks are never removed, and the default and the active stack exist; no query is in a history, and
every command in one had a successful forward run for its stack in the current generation; and the
routes are of registered, specific, non-empty scopes, one route per scope. The cursor bound holds
as well of a bare stack under any sequence of its operations. -/
theorem reachable_state_invariant {c : Config} {e₀ : Engine α} (hcreate : Engine.create c = .ok e₀)
    (hkeys : (c.routes.map Prod.fst).Nodup) (xs ys : List (Input α)) :
    (∀ s ∈ (e₀.run xs).histories, s.Bounded ∧
        (0 < (e₀.run xs).undoLimit → s.count ≤ (e₀.run xs).undoLimit) ∧
        ∀ cmd ∈ s.commands, cmd.isQuery = false ∧
          Deed.ran (e₀.run xs).generation s.id cmd .forward true ∈ e₀.trace xs) ∧
      (e₀.run xs).histories.map Stack.id <+: (e₀.run (xs ++ ys)).histories.map Stack.id ∧
      (e₀.run xs).defaultStack ∈ (e₀.run xs).histories.map Stack.id ∧
      (e₀.run xs).active ∈ (e₀.run xs).histories.map Stack.id ∧
      (∀ r ∈ (e₀.run xs).routes, (e₀.run xs).registry.validate r.1 = .ok () ∧
        r.1.isAll = false ∧ r.1.isEmpty = false) ∧
      ((e₀.run xs).routes.map Prod.fst).Nodup ∧
      ∀ (s : Stack α) (ops : List (Stack.Op α)), s.Bounded →
        (ops.foldl (fun t op => op.apply t) s).Bounded := by
  have hinv₀ := invariant_create hcreate
  have hinv := hinv₀.run xs
  have hroutes := (routesValid_create hcreate hkeys).run xs
  -- a fresh engine holds one empty stack, so nothing needs a run yet
  have hrec₀ : e₀.Recorded [] := by
    obtain ⟨r, f, routes, -, -, -, rfl⟩ := create_eq hcreate
    intro s hs cmd hcmd
    rw [List.mem_singleton.mp hs] at hcmd
    simp at hcmd
  have hrec := hrec₀.run hinv₀ xs
  refine ⟨fun s hs => ⟨(hinv.fits s hs).bounded, (hinv.fits s hs).within_limit, fun cmd hcmd =>
      ⟨(hinv.fits s hs).no_query cmd hcmd, by simpa using hrec s hs cmd hcmd⟩⟩, ?_,
    hinv.default_mem, hinv.active_mem, hroutes.valid, hroutes.nodup,
    fun s ops hb => Stack.Bounded.foldl ops hb⟩
  rw [run_append]
  exact ids_prefix_run _ ys

/-- The state invariant holds after a command of the scope `car` is recorded on the stack its route
names, under a limit of two commands. -/
theorem reachable_state_invariant_garage :
    let xs : List (Input Unit) :=
      [.enqueue { id := 1, text := "paint", scope := .set 2, action := () }, .pickUp,
        .resume [] (.ok .null)]
    ∃ e₀ : Engine Unit,
      Engine.create ({ undoLimit := 2, scopes := ["brand", "car"], routes := [("car", "garage")] } : Config) =
        .ok e₀ ∧
      ([("car", "garage")].map Prod.fst).Nodup ∧
      (∃ s ∈ (e₀.run xs).histories, s.id = "garage" ∧ s.commands.map (·.text) = ["paint"]) ∧
      (∀ s ∈ (e₀.run xs).histories, s.Bounded ∧
        (0 < (e₀.run xs).undoLimit → s.count ≤ (e₀.run xs).undoLimit) ∧
        ∀ cmd ∈ s.commands, cmd.isQuery = false ∧
          Deed.ran (e₀.run xs).generation s.id cmd .forward true ∈ e₀.trace xs) ∧
      (e₀.run xs).histories.map Stack.id <+: (e₀.run (xs ++ [])).histories.map Stack.id ∧
      (e₀.run xs).defaultStack ∈ (e₀.run xs).histories.map Stack.id ∧
      (e₀.run xs).active ∈ (e₀.run xs).histories.map Stack.id ∧
      (∀ r ∈ (e₀.run xs).routes, (e₀.run xs).registry.validate r.1 = .ok () ∧
        r.1.isAll = false ∧ r.1.isEmpty = false) ∧
      ((e₀.run xs).routes.map Prod.fst).Nodup ∧
      ∀ (s : Stack Unit) (ops : List (Stack.Op Unit)), s.Bounded →
        (ops.foldl (fun t op => op.apply t) s).Bounded := by
  intro xs
  obtain ⟨e₀, hcreate, hgarage⟩ : ∃ e₀ : Engine Unit,
      Engine.create ({ undoLimit := 2, scopes := ["brand", "car"], routes := [("car", "garage")] } : Config) =
        .ok e₀ ∧
      ∃ s ∈ (e₀.run xs).histories, s.id = "garage" ∧ s.commands.map (·.text) = ["paint"] :=
    ⟨_, rfl, by decide⟩
  have hkeys : ([("car", "garage")].map Prod.fst).Nodup := by decide
  exact ⟨e₀, hcreate, hkeys, hgarage, reachable_state_invariant hcreate hkeys xs []⟩

end Engine

end ScopedUndo