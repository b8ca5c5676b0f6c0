import ScopedUndo.Proofs.Ledger.Consistency
import ScopedUndo.Session
/-!
# Scripts keep the ledger in step with the histories

A session settles every job as soon as it is submitted, so between two statements no job is
outstanding, and all the engine did is a run of inputs, the callers' and the worker's, from the
fresh engine. `Session.Follows` is what then holds: the ledger is consistent with the histories over
the timelines that run leaves (`Engine.Consistent`), and every command in a history was built
already. Each statement but `stack` keeps it (`Follows.runLine`), and so does a whole script.

Hence each balance is the replay of its account's stack's timeline; a get, or an add that would
overflow, changes neither the ledger nor a history; and no redo, alone or in a jump's walk, fails on
the ledger.
-/

namespace ScopedUndo

namespace Engine

variable {α σ : Type}

section Loop

variable {run : σ → Command α → Direction → σ × List ProgressEvent × Outcome}

theorem workFor_induction {Q : σ → Engine α → Prop}
    (hpickUp : ∀ w e, e.Invariant → e.busy = none → Q w e → Q w e.pickUp)
    (hresume : ∀ w e b, e.Invariant → e.OnTime → e.busy = some b → Q w e →
      Q (answer run w b.call).1 (e.resume (answer run w b.call).2.1 (answer run w b.call).2.2))
    (n : Nat) {w : σ} {e : Engine α} (hinv : e.Invariant) (hon : e.OnTime) (hq : Q w e) :
    Q (workFor run (fun _ => false) n w e).1 (workFor run (fun _ => false) n w e).2 := by
  induction n generalizing w e with
  | zero => exact hq
  | succ n ih =>
      cases hbusy : e.busy with
      | some b =>
          rw [workFor_busy hbusy rfl]
          exact ih (hinv.resume _ _) (hon.apply hinv (x := .resume _ _) fun hc => by cases hc)
            (hresume w e b hinv hon hbusy hq)
      | none =>
          cases hqueue : e.queue with
          | nil =>
              rw [workFor_idle hbusy hqueue]
              exact hq
          | cons job rest =>
              rw [workFor_pickUp hbusy hqueue]
              exact ih hinv.pickUp (hon.apply hinv (x := .pickUp) fun hc => by cases hc)
                (hpickUp w e hinv hbusy hq)

theorem Invariant.workFor {e : Engine α} (h : e.Invariant) (n : Nat) (w : σ) :
    (workFor run (fun _ => false) n w e).2.Invariant := by
  rw [workFor_eq_run]
  exact h.run _

theorem OnTime.workFor {e : Engine α} (hinv : e.Invariant) (hon : e.OnTime) (n : Nat) (w : σ) :
    (workFor run (fun _ => false) n w e).2.OnTime := by
  rw [workFor_eq_run]
  exact hon.run hinv (sequential_workInputs _ _ _ _ _)

theorem SameSetup.workFor {e : Engine α} (hinv : e.Invariant) (hon : e.OnTime) (n : Nat) (w : σ) :
    SameSetup e (workFor run (fun _ => false) n w e).2 :=
  workFor_induction (Q := fun _ e' => SameSetup e e')
    (fun _ _ _ _ hsame => hsame.trans (SameSetup.pickUp _))
    (fun _ _ _ _ _ _ hsame => hsame.trans (SameSetup.resume _ _ _)) n hinv hon (SameSetup.refl e)

end Loop

/-- A command queued alone on an idle engine: the worker takes it up, runs it forward once, and is
done. -/
theorem work_execute (run : σ → Command α → Direction → σ × List ProgressEvent × Outcome) (w : σ)
    {e : Engine α} (hbusy : e.busy = none) {job : Job α}
    (hqueue : e.queue = [job]) {c : Command α} {stack : String} (htask : job.task = .execute c stack)
    (hgen : job.generation = e.generation) :
    ∃ b, e.pickUp.busy = some b ∧ b.call = ⟨c, .execute⟩ ∧ b.sequel = .record stack ∧
      e.work run (fun _ => false) w =
        ((run w c .forward).1, e.pickUp.resume (run w c .forward).2.1 (run w c .forward).2.2) := by
  have hpick : e.pickUp = { e with queue := [], inFlight := true }.begin job := pickUp_next hbusy hqueue
  obtain ⟨b, hb, hcall, hseq⟩ :
      ∃ b, e.pickUp.busy = some b ∧ b.call = ⟨c, .execute⟩ ∧ b.sequel = .record stack := by
    rw [hpick, begin, if_neg (by simp [hgen]), htask]
    exact ⟨_, busy_await _ _ _ _ _ _, rfl, rfl⟩
  refine ⟨b, hb, hcall, hseq, ?_⟩
  have hans : answer run w b.call = run w c .forward := by
    rw [answer, hcall, if_neg (by simp [Command.skips, Operation.direction])]
    rfl
  -- a recorded run ends its job, and nothing else waits
  have hdone : (e.pickUp.resume (run w c .forward).2.1 (run w c .forward).2.2).busy = none := by
    obtain ⟨e₁, -, -, -, -, ⟨r, p, hr⟩ | ⟨stack', wanted, target, hwalk, -⟩⟩ :=
      resume_cases hb (run w c .forward).2.1 (run w c .forward).2.2
    · rw [hr, busy_finish]
    · rw [hseq] at hwalk
      cases hwalk
  have hempty : (e.pickUp.resume (run w c .forward).2.1 (run w c .forward).2.2).queue = [] := by
    rw [queue_resume, hpick, queue_begin]
  obtain ⟨m, hm⟩ : ∃ m, e.workBound = m + 2 := ⟨e.workBound - 2, by
    simp only [workBound, hqueue, List.length_singleton]
    omega⟩
  rw [work, hm, workFor_pickUp hbusy hqueue, workFor_busy hb rfl, hans, workFor_idle hdone hempty]

/-- A submission on an idle engine is settled by one run of the worker: nothing is left in flight
or waiting. -/
theorem work_submission (run : σ → Command α → Direction → σ × List ProgressEvent × Outcome) (w : σ)
    {e : Engine α} (hinv : e.Invariant) (hbusy : e.busy = none) (hqueue : e.queue = [])
    {x : Input α} (hx : x.isSubmission) :
    ((e.apply x).work run (fun _ => false) w).2.busy = none ∧
      ((e.apply x).work run (fun _ => false) w).2.queue = [] := by
  obtain ⟨n, p, q, m, happly, hq, -⟩ := apply_submission e hx
  have hbusy₁ : (e.apply x).busy = none := by
    rw [happly]
    exact hbusy
  rcases hq with ⟨hq, -⟩ | ⟨task, -, hq, -⟩
  · have hq₁ : (e.apply x).queue = [] := by
      rw [happly]
      exact hq.trans hqueue
    rw [work, workFor_idle hbusy₁ hq₁]
    exact ⟨hbusy₁, hq₁⟩
  · have hq₁ : (e.apply x).queue =
        [{ ticket := e.nextTicket, generation := e.generation, task := task }] := by
      rw [happly]
      exact hq.trans (by rw [hqueue, List.nil_append])
    exact work_single _ _ (hinv.apply x) hbusy₁ hq₁

theorem toRecord_idle {e : Engine α} (hbusy : e.busy = none) (hqueue : e.queue = []) :
    e.toRecord = [] := by
  simp [toRecord, hbusy, hqueue]

theorem stackFor_congr {e e' : Engine α} (hroutes : e'.routes = e.routes) (hactive : e'.active = e.active) :
    e'.stackFor = e.stackFor := by
  funext scope
  simp only [stackFor, hroutes, hactive]

/-- Every command the engine holds, in a history or waiting to be recorded, has a property. -/
def Holds (P : Command α → Prop) (e : Engine α) : Prop :=
  (∀ x c, c ∈ (e.stackOrEmpty x).commands → P c) ∧ ∀ p ∈ e.toRecord, P p.1

namespace Holds

variable {P Q : Command α → Prop} {e e' : Engine α}

theorem of_empty (hcmd : ∀ x, (e.stackOrEmpty x).commands = []) (hrec : e.toRecord = []) :
    e.Holds P := by
  refine ⟨fun x c hc => ?_, fun p hp => ?_⟩
  · rw [hcmd] at hc
    cases hc
  · rw [hrec] at hp
    cases hp

theorem mono (h : e.Holds P) (hPQ : ∀ c, P c → Q c) : e.Holds Q :=
  ⟨fun x c hc => hPQ c (h.1 x c hc), fun p hp => hPQ p.1 (h.2 p hp)⟩

theorem of_sublists (h : e.Holds P)
    (hcmd : ∀ x, List.Sublist (e'.stackOrEmpty x).commands (e.stackOrEmpty x).commands)
    (hrec : List.Sublist e'.toRecord e.toRecord) : e'.Holds P :=
  ⟨fun x c hc => h.1 x c ((hcmd x).subset hc), fun p hp => h.2 p (hrec.subset hp)⟩

theorem pickUp (h : e.Holds P) (hinv : e.Invariant) : e.pickUp.Holds P :=
  h.of_sublists (fun x => by rw [stackOrEmpty_pickUp]) (toRecord_pickUp hinv.ids_nodup)

theorem resume (h : e.Holds P) (hinv : e.Invariant) (hon : e.OnTime) (reports : List ProgressEvent)
    (outcome : Outcome) : (e.resume reports outcome).Holds P := by
  cases hbusy : e.busy with
  | none =>
      rw [resume_idle hbusy]
      exact h
  | some b =>
      refine ⟨fun x c hc => ?_,
        fun p hp => h.2 p ((toRecord_resume_sublist hbusy reports outcome).subset hp)⟩
      by_cases hop : b.call.operation = .execute
      · obtain ⟨stack, hseq⟩ :=
          (Busy.Shaped.execute_iff (Busy.Ready.shaped (hon b hbusy).2)).mp hop
        cases hok : outcome.isOk
        · rw [stackOrEmpty_resume_fail hbusy reports hok] at hc
          exact h.1 x c hc
        cases hq : b.call.command.isQuery
        · rw [stackOrEmpty_resume_record hon hbusy reports hok hseq hq] at hc
          split_ifs at hc
          · rcases Stack.mem_commands_push (Stack.mem_commands_truncate _
                ((hinv.bounded_stackOrEmpty _).push _) hc) with hold | rfl
            · exact h.1 _ c hold
            · exact h.2 _ (mem_toRecord_of_busy hbusy hseq)
          · exact h.1 x c hc
        · rw [stackOrEmpty_resume_query hbusy reports outcome hseq hq] at hc
          exact h.1 x c hc
      · rw [commands_resume_step hon hbusy hop reports outcome x] at hc
        exact h.1 x c hc

theorem workFor {run : σ → Command α → Direction → σ × List ProgressEvent × Outcome} (h : e.Holds P)
    (hinv : e.Invariant) (hon : e.OnTime) (n : Nat) (w : σ) :
    (Engine.workFor run (fun _ => false) n w e).2.Holds P :=
  workFor_induction (Q := fun _ e' => e'.Holds P) (fun _ _ hinv _ h => h.pickUp hinv)
    (fun _ _ _ hinv hon _ h => h.resume hinv hon _ _) n hinv hon h

theorem submission (h : e.Holds P) {x : Input α} (hx : x.isSubmission)
    (hP : ∀ c, x = .enqueue c → P c) : (e.apply x).Holds P := by
  have hstacks := stackOrEmpty_congr (histories_apply_submission e hx)
  refine ⟨fun y c hc => h.1 y c (by rwa [hstacks] at hc), fun p hp => ?_⟩
  rcases toRecord_submission e hx with hrec | ⟨c, rfl, hrec⟩
  · rw [hrec] at hp
    exact h.2 p hp
  · rw [hrec, List.mem_append, List.mem_singleton] at hp
    rcases hp with hp | rfl
    · exact h.2 p hp
    · exact hP c rfl

theorem setUndoLimit (h : e.Holds P) (hinv : e.Invariant) (limit : Nat) :
    (e.apply (.setUndoLimit limit)).Holds P :=
  h.of_sublists (commands_setUndoLimit_sublist hinv limit)
    (toRecord_control e (x := .setUndoLimit limit) rfl rfl ▸ List.Sublist.refl _)

theorem clear (h : e.Holds P) : (e.apply .clear).Holds P :=
  h.of_sublists (fun x => by rw [commands_clear_eq_nil]; exact List.nil_sublist _)
    (toRecord_control e (x := .clear) rfl rfl ▸ List.Sublist.refl _)

end Holds

end Engine

namespace Session

/-- What statements act on: a session's engine, its ledger, and how many commands it built. -/
def core (s : Session) : Engine Entry × Ledger × Nat := (s.engine, s.ledger, s.built)

/-- The session a run of a script leaves, whether it went to the end or stopped at a fatal
failure. -/
def endOf : Except (Cli.CliError × Session) Session → Session
  | .ok s => s
  | .error (_, s) => s

theorem core_report (s : Session) (label : String) (r : Except Fault Value) :
    (s.report label r).1.core = s.core := by
  unfold report
  split <;> rfl

theorem core_foldl {β : Type} (f : Session → β → Session) (hf : ∀ s b, (f s b).core = s.core)
    (l : List β) (s : Session) : (l.foldl f s).core = s.core := by
  induction l generalizing s with
  | nil => rfl
  | cons b l ih => rw [List.foldl_cons, ih, hf]

theorem settle_eq (s : Session) :
    s.settle = { s with ledger := (s.engine.work Ledger.run (fun _ => false) s.ledger).1,
                        engine := (s.engine.work Ledger.run (fun _ => false) s.ledger).2 } := rfl

theorem core_settle_idle {s : Session} (hbusy : s.engine.busy = none) (hqueue : s.engine.queue = []) :
    s.settle.core = s.core := by
  rw [settle_eq, Engine.work, Engine.workFor_idle hbusy hqueue]

theorem core_finish (s : Session) (line : ScriptLine) (label : String) (ticket : Nat) :
    (s.finish line label ticket).1.core = s.settle.core := by
  unfold finish
  split_ifs
  · rfl
  · dsimp only
    split
    · exact core_report _ _ _
    · rfl

theorem core_waitBackground (s : Session) : s.waitBackground.core = s.settle.core := by
  unfold waitBackground
  refine core_foldl _ (fun s job => ?_) _ _
  cases s.engine.reply? job.ticket with
  | none => rfl
  | some r =>
      -- reporting a job and counting its failure touch only the output and the summary
      have hcore := core_report s job.label r.result
      dsimp only
      rcases hrep : s.report job.label r.result with ⟨s', _ | e⟩ <;> rw [hrep] at hcore
      · exact hcore
      · exact hcore

/-- The command a ledger statement builds: the next id, the entry's text and kind, and the scope its
scope name denotes. -/
def command (s : Session) (scope : Scope) (entry : Entry) : Command Entry :=
  { id := s.built, text := entry.text, kind := entry.kind, scope := scope, action := entry }

/-- What a ledger statement whose scope name is known does: it builds its command and submits it,
and lets the worker run it when the engine took it. -/
theorem core_submit (s : Session) (line : ScriptLine) (entry : Entry) {scope : Scope}
    (hscope : s.engine.registry.scopeOf entry.account.1 = .ok scope) :
    (s.submit line entry).1.core =
      (match s.engine.ticketOf (.enqueue (s.command scope entry)) with
        | some _ =>
          ({ s with built := s.built + 1, engine := s.engine.apply (.enqueue (s.command scope entry)) } :
            Session).settle
        | none =>
          { s with built := s.built + 1, engine := s.engine.apply (.enqueue (s.command scope entry)) }).core := by
  unfold Session.submit command
  rw [hscope]
  dsimp only
  obtain ⟨e₁, r, hq⟩ : ∃ e₁ r, s.engine.enqueue
      { id := s.built, text := entry.text, kind := entry.kind, scope := scope, action := entry } =
        (e₁, r) := ⟨_, _, rfl⟩
  rw [Engine.ticketOf, Engine.apply, hq]
  cases r with
  | error f => rfl
  | ok ticket =>
      dsimp only
      split_ifs
      · rfl
      · exact core_finish _ _ _ _

theorem runLine_get (s : Session) {line : ScriptLine} {scope account : String}
    (hst : line.statement = .get scope account) :
    s.runLine line = s.submit line (.get (scope, account)) := by
  unfold runLine
  rw [hst]

theorem runLine_add (s : Session) {line : ScriptLine} {scope account : String} {δ : Int}
    (hst : line.statement = .add scope account δ) :
    s.runLine line = s.submit line (.add (scope, account) δ) := by
  unfold runLine
  rw [hst]

/-- A session between statements, over the engine `e₀` it started with: no job is outstanding, the
stacks are chosen as at the start, the engine is a run of inputs from `e₀` with whose timelines the
ledger is consistent, and every command in a history was built before. -/
structure Follows (e₀ : Engine Entry) (s : Session) : Prop where
  idle : s.engine.busy = none
  drained : s.engine.queue = []
  registry : s.engine.registry = e₀.registry
  stackFor : s.engine.stackFor = e₀.stackFor
  invariant : s.engine.Invariant
  onTime : s.engine.OnTime
  inputs : ∃ xs, e₀.Sequential xs ∧ s.engine = e₀.run xs ∧
    Engine.Consistent e₀.home s.ledger s.engine fun x => Engine.shedOf x (e₀.trace xs)
  issued : s.engine.Holds fun c => c.id < s.built

namespace Follows

variable {e₀ : Engine Entry} {s s₁ : Session}

theorem of_core (h : Follows e₀ s) (hc : s₁.core = s.core) : Follows e₀ s₁ := by
  simp only [core, Prod.mk.injEq] at hc
  obtain ⟨he, hl, hb⟩ := hc
  obtain ⟨xs, hseq, hrun, hcons⟩ := h.inputs
  refine ⟨he ▸ h.idle, he ▸ h.drained, he ▸ h.registry, he ▸ h.stackFor, he ▸ h.invariant,
    he ▸ h.onTime, ⟨xs, hseq, he ▸ hrun, ?_⟩, ?_⟩
  · rw [he, hl]
    exact hcons
  · rw [he, hb]
    exact h.issued

/-- **A submission, settled.** Submitting on a session between statements, and letting the worker
run what that queued, leaves a session between statements, given that a command submitted is new
and bound for its account's stack. -/
theorem submission (h : Follows e₀ s) {x : Engine.Input Entry} (hx : x.isSubmission) (s₁ : Session)
    (he : s₁.engine = s.engine.apply x) (hl : s₁.ledger = s.ledger) (hbuilt : s.built ≤ s₁.built)
    (hnew : ∀ c, x = .enqueue c → s.built ≤ c.id ∧ c.id < s₁.built ∧
      s.engine.resolve c = e₀.home c.action.account ∧ c.kind = c.action.kind) :
    Follows e₀ s₁.settle := by
  obtain ⟨xs, hseq, hrun, hcons⟩ := h.inputs
  obtain ⟨n, p, q, m, happly, -, -⟩ := Engine.apply_submission s.engine hx
  have hinv₁ := h.invariant.apply x
  have hon₁ := h.onTime.apply h.invariant (x := x) fun _ => h.idle
  have hquiet := Engine.work_submission Ledger.run s.ledger h.invariant h.idle h.drained hx
  have hnew' : ∀ c, x = .enqueue c → s.engine.resolve c = e₀.home c.action.account ∧
      c.kind = c.action.kind ∧ (∀ y d, d ∈ (s.engine.stackOrEmpty y).commands → d.id ≠ c.id) ∧
      ∀ p ∈ s.engine.toRecord, p.1.id ≠ c.id := by
    intro c hc
    obtain ⟨hge, -, hres, hkind⟩ := hnew c hc
    refine ⟨hres, hkind, fun y d hd => Nat.ne_of_lt (lt_of_lt_of_le (h.issued.1 y d hd) hge),
      fun p hp => ?_⟩
    rw [Engine.toRecord_idle h.idle h.drained] at hp
    cases hp
  have hsame : Engine.SameSetup (s.engine.apply x) (Engine.workFor Ledger.run (fun _ => false)
      (s.engine.apply x).workBound s.ledger (s.engine.apply x)).2 :=
    Engine.SameSetup.workFor hinv₁ hon₁ _ _
  rw [settle_eq, he, hl]
  refine ⟨hquiet.1, hquiet.2, hsame.registry.trans (by rw [happly]; exact h.registry),
    (Engine.stackFor_congr hsame.routes hsame.active).trans (by
      rw [Engine.stackFor_congr (e := s.engine) (by rw [happly]) (by rw [happly])]
      exact h.stackFor),
    hinv₁.workFor _ _, hon₁.workFor hinv₁ _ _,
    ⟨xs ++ x :: Engine.workInputs Ledger.run (fun _ => false) (s.engine.apply x).workBound s.ledger
      (s.engine.apply x), ?_, ?_, ?_⟩, ?_⟩
  · refine (Engine.sequential_append e₀ xs _).mpr ⟨hseq, ?_⟩
    rw [← hrun]
    exact ⟨fun _ => h.idle, Engine.sequential_workInputs _ _ _ _ _⟩
  · rw [Engine.run_append, ← hrun, Engine.run_cons, ← Engine.workFor_eq_run]
    rfl
  · refine ((hcons.submission hx hnew').workFor hinv₁ hon₁ _).congr_shed fun y => ?_
    simp only [Engine.trace_append, ← hrun, Engine.trace, Engine.shedOf_append, List.append_assoc]
  · exact ((h.issued.mono fun c hc => lt_of_lt_of_le hc hbuilt).submission hx
      fun c hc => (hnew c hc).2.1).workFor hinv₁ hon₁ _ _

theorem refused (h : Follows e₀ s) {x : Engine.Input Entry} (hx : x.isSubmission) (s₁ : Session)
    (he : s₁.engine = s.engine.apply x) (hl : s₁.ledger = s.ledger) (hbuilt : s.built ≤ s₁.built)
    (hnew : ∀ c, x = .enqueue c → s.built ≤ c.id ∧ c.id < s₁.built ∧
      s.engine.resolve c = e₀.home c.action.account ∧ c.kind = c.action.kind)
    (hnone : s.engine.ticketOf x = none) : Follows e₀ s₁ := by
  rcases Engine.submission_cases s.engine hx with ⟨-, n, p, -, happly, -⟩ | ⟨job, hsome, -⟩
  · refine (h.submission hx s₁ he hl hbuilt hnew).of_core (core_settle_idle ?_ ?_).symm
    · rw [he, happly]
      exact h.idle
    · rw [he, happly]
      exact h.drained
  · rw [hnone] at hsome
    cases hsome

theorem job (h : Follows e₀ s) {x : Engine.Input Entry} (hx : x.isSubmission) (hnot : ∀ c, x ≠ .enqueue c)
    (line : ScriptLine) (label : String) (wrap : Fault → Cli.CliError)
    {submitted : Engine Entry × Except Fault Nat} (he : submitted.1 = s.engine.apply x)
    (hticket : submitted.2.toOption = s.engine.ticketOf x) :
    Follows e₀ (s.job line label wrap submitted).1 := by
  unfold Session.job
  cases hr : submitted.2 with
  | error f =>
      rw [hr] at hticket
      exact h.refused hx { s with engine := submitted.1 } he rfl le_rfl
        (fun c hc => absurd hc (hnot c)) hticket.symm
  | ok ticket =>
      exact (h.submission hx { s with engine := submitted.1 } he rfl le_rfl
        fun c hc => absurd hc (hnot c)).of_core (core_finish _ _ _ _)

/-- A ledger statement builds its command with the next id, in the scope its scope name denotes, so
the engine puts it on its account's stack. -/
theorem submit (h : Follows e₀ s) (line : ScriptLine) (entry : Entry) :
    Follows e₀ (s.submit line entry).1 := by
  cases hscope : s.engine.registry.scopeOf entry.account.1 with
  | error f =>
      refine h.of_core ?_
      unfold Session.submit
      rw [hscope]
  | ok scope =>
      have hnew : ∀ c, Engine.Input.enqueue (s.command scope entry) = .enqueue c →
          s.built ≤ c.id ∧ c.id < s.built + 1 ∧ s.engine.resolve c = e₀.home c.action.account ∧
            c.kind = c.action.kind := by
        intro c hc
        cases hc
        refine ⟨le_rfl, Nat.lt_succ_self _, ?_, rfl⟩
        rw [Engine.resolve_of_stack_none _ rfl, h.stackFor, Engine.home, ← h.registry]
        dsimp only [command]
        rw [hscope]
      refine Follows.of_core ?_ (core_submit s line entry hscope)
      cases ht : s.engine.ticketOf (.enqueue (s.command scope entry)) with
      | none =>
          exact h.refused rfl
            { s with built := s.built + 1, engine := s.engine.apply (.enqueue (s.command scope entry)) }
            rfl rfl (Nat.le_succ _) hnew ht
      | some t =>
          exact h.submission rfl
            { s with built := s.built + 1, engine := s.engine.apply (.enqueue (s.command scope entry)) }
            rfl rfl (Nat.le_succ _) hnew

theorem step (h : Follows e₀ s) (line : ScriptLine) (label : String)
    (submit : Engine Entry → Option Scope → Engine Entry × Except Fault Nat)
    (input : Option Scope → Engine.Input Entry)
    (hinput : ∀ f, (input f).isSubmission ∧ (∀ c, input f ≠ .enqueue c) ∧
      (submit s.engine f).1 = s.engine.apply (input f) ∧
      (submit s.engine f).2.toOption = s.engine.ticketOf (input f))
    (scopes : Option String) : Follows e₀ (s.step line label submit scopes).1 := by
  unfold Session.step
  cases scopes with
  | none =>
      obtain ⟨hx, hnot, he, ht⟩ := hinput none
      exact h.job hx hnot line label _ he ht
  | some text =>
      dsimp only
      cases s.engine.registry.scopeOfText text with
      | error f => exact h
      | ok filter =>
          obtain ⟨hx, hnot, he, ht⟩ := hinput (some filter)
          exact h.job hx hnot line label _ he ht

/-- An input a caller makes at once, with no job: the ledger stays consistent if the histories
shed what they lose, and the stacks are chosen as before. -/
theorem control (h : Follows e₀ s) {x : Engine.Input Entry} (hx : x.isCaller)
    (hsub : x.isSubmission = false) (hregistry : (s.engine.apply x).registry = s.engine.registry)
    (hstackFor : (s.engine.apply x).stackFor = s.engine.stackFor)
    (hkeep : ∀ shed, Engine.Consistent e₀.home s.ledger s.engine shed →
      Engine.Consistent e₀.home s.ledger (s.engine.apply x)
        fun y => shed y ++ Engine.shedOf y (s.engine.deeds x))
    (hholds : (s.engine.apply x).Holds fun c => c.id < s.built) :
    Follows e₀ { s with engine := s.engine.apply x } := by
  obtain ⟨xs, hseq, hrun, hcons⟩ := h.inputs
  obtain ⟨hjobs, -, -⟩ := Engine.apply_control s.engine hx hsub
  refine ⟨hjobs.busy.trans h.idle, hjobs.queue.trans h.drained, hregistry.trans h.registry,
    hstackFor.trans h.stackFor, h.invariant.apply x, h.onTime.apply h.invariant fun _ => h.idle,
    ⟨xs ++ [x], ?_, ?_, ?_⟩, hholds⟩
  · refine (Engine.sequential_append e₀ xs [x]).mpr ⟨hseq, ?_⟩
    rw [← hrun]
    exact ⟨fun _ => h.idle, trivial⟩
  · rw [Engine.run_append, ← hrun]
    rfl
  · refine (hkeep _ hcons).congr_shed fun y => ?_
    simp only [Engine.trace_append, ← hrun, Engine.trace, List.append_nil, Engine.shedOf_append]

theorem setUndoLimit (h : Follows e₀ s) (limit : Nat) :
    Follows e₀ { s with engine := s.engine.apply (.setUndoLimit limit) } := by
  have happly : s.engine.apply (.setUndoLimit limit) = _ := Engine.setUndoLimit_eq s.engine limit
  exact h.control rfl rfl (by rw [happly]) (Engine.stackFor_congr (by rw [happly]) (by rw [happly]))
    (fun _ hcons => hcons.setUndoLimit h.invariant limit) (h.issued.setUndoLimit h.invariant limit)

theorem clear (h : Follows e₀ s) : Follows e₀ { s with engine := s.engine.apply .clear } := by
  have happly : s.engine.apply .clear = _ := Engine.clear_eq s.engine
  exact h.control rfl rfl (by rw [happly]) (Engine.stackFor_congr (by rw [happly]) (by rw [happly]))
    (fun _ hcons => hcons.clear h.invariant) h.issued.clear

theorem waitBackground (h : Follows e₀ s) : Follows e₀ s.waitBackground :=
  h.of_core ((core_waitBackground s).trans (core_settle_idle h.idle h.drained))

/-- **Every statement but stack.** Switching the active stack would move where an account's
commands go; any other statement leaves a session between statements. -/
theorem runLine (h : Follows e₀ s) (line : ScriptLine) (hline : ∀ id, line.statement ≠ .stack id) :
    Follows e₀ (s.runLine line).1 := by
  unfold Session.runLine
  cases hst : line.statement with
  | set scope account value => exact h.submit line _
  | add scope account delta => exact h.submit line _
  | get scope account => exact h.submit line _
  | undo scopes =>
      exact h.step line "undo" Engine.undo Engine.Input.undo
        (fun _ => ⟨rfl, (fun _ hc => by cases hc), rfl, rfl⟩) scopes
  | redo scopes =>
      exact h.step line "redo" Engine.redo Engine.Input.redo
        (fun _ => ⟨rfl, (fun _ hc => by cases hc), rfl, rfl⟩) scopes
  | jump index => exact h.job (x := .jump index) rfl (fun _ hc => by cases hc) line _ .engine rfl rfl
  | stack id => exact absurd hst (hline id)
  | limit n => exact (h.setUndoLimit n).of_core rfl
  | history => exact h.of_core (core_foldl say (fun _ _ => rfl) _ _)
  | queued scopes =>
      dsimp only
      cases s.engine.registry.scopeOfText (scopes.getD Scope.allName) with
      | error f => exact h
      | ok filter => exact h.of_core rfl
  | wait => exact h.waitBackground
  | balances =>
      refine h.of_core ?_
      dsimp only
      refine core_foldl _ (fun _ _ => ?_) _ _
      rfl
  | clear => exact h.clear.of_core rfl
  | scopes => exact h.of_core rfl

theorem run (h : Follows e₀ s) (script : List ScriptLine)
    (hscript : ∀ line ∈ script, ∀ id, line.statement ≠ .stack id) :
    Follows e₀ (endOf (s.run script)) := by
  induction script generalizing s with
  | nil => exact h.waitBackground
  | cons line rest ih =>
      have hrest : ∀ l ∈ rest, ∀ id, l.statement ≠ .stack id :=
        fun l hl => hscript l (List.mem_cons_of_mem _ hl)
      have hcounted : Follows e₀
          { s with summary := { s.summary with statements := s.summary.statements + 1 } } :=
        h.of_core rfl
      have hline := hcounted.runLine line (hscript line List.mem_cons_self)
      rw [Session.run]
      dsimp only
      rcases hr : ({ s with summary := { s.summary with statements := s.summary.statements + 1 } } :
          Session).runLine line with ⟨s', _ | err⟩ <;> rw [hr] at hline
      · exact ih hline hrest
      · dsimp only
        split_ifs
        · exact hline
        · exact ih (hline.of_core rfl) hrest

/-- A fresh session: an engine just created, with one empty stack and no job, and an empty
ledger. -/
theorem start {config : Config} {s₀ : Session} (hstart : Session.start config = .ok s₀) :
    Follows s₀.engine s₀ := by
  unfold Session.start at hstart
  cases hcreate : Engine.create config with
  | error f =>
      rw [hcreate] at hstart
      cases hstart
  | ok e₀ =>
      rw [hcreate] at hstart
      cases hstart
      obtain ⟨r, f, routes, -, -, -, he₀⟩ := Engine.create_eq hcreate
      have hidle : e₀.busy = none := by rw [he₀]
      have hqueue : e₀.queue = [] := by rw [he₀]
      have hempty : ∀ x, (e₀.stackOrEmpty x).commands = [] := by
        intro x
        rw [he₀]
        simp only [Engine.stackOrEmpty, Engine.stack?, List.find?_cons, List.find?_nil]
        split <;> rfl
      have hrec : e₀.toRecord = [] := Engine.toRecord_idle hidle hqueue
      exact ⟨hidle, hqueue, rfl, rfl, Engine.invariant_create hcreate,
        (fun b hb => by rw [hidle] at hb; cases hb),
        ⟨[], trivial, rfl, (Engine.Consistent.empty hempty hrec).congr_shed fun _ => rfl⟩,
        Engine.Holds.of_empty hempty hrec⟩

/-- **A get, or an add that would overflow.** Such a statement changes neither the ledger nor a
history: the worker runs its command alone and once, which leaves the ledger as it was, and the
engine records neither a query nor a run that failed. -/
theorem inert (h : Follows e₀ s) (line : ScriptLine) (entry : Entry)
    (hentry : (∃ a, entry = .get a) ∨
      ∃ a δ, entry = .add a δ ∧ Text.fitsInt64 ((s.ledger.balance? a).getD 0 + δ) = false) :
    (s.submit line entry).1.ledger = s.ledger ∧
      ∀ x, (s.submit line entry).1.engine.stackOrEmpty x = s.engine.stackOrEmpty x := by
  cases hscope : s.engine.registry.scopeOf entry.account.1 with
  | error f =>
      unfold Session.submit
      rw [hscope]
      exact ⟨rfl, fun _ => rfl⟩
  | ok scope =>
      have hc := core_submit s line entry hscope
      simp only [core, Prod.mk.injEq] at hc
      rw [hc.1, hc.2.1]
      have hsame : ∀ x, (s.engine.apply (.enqueue (s.command scope entry))).stackOrEmpty x =
          s.engine.stackOrEmpty x :=
        Engine.stackOrEmpty_congr (Engine.histories_apply_submission _ rfl)
      cases ht : s.engine.ticketOf (.enqueue (s.command scope entry)) with
      | none => exact ⟨rfl, hsame⟩
      | some t =>
          -- the command is the one job, and the worker runs it forward on the session's ledger
          obtain ⟨-, hqueue, -⟩ := Engine.enqueue_accepted s.engine ht
          rw [h.drained, List.nil_append] at hqueue
          obtain ⟨n, p, q, m, happly, -, -⟩ :=
            Engine.apply_submission s.engine (x := .enqueue (s.command scope entry)) rfl
          have hbusy : (s.engine.apply (.enqueue (s.command scope entry))).busy = none := by
            rw [happly]
            exact h.idle
          obtain ⟨b, hb, hcall, hseq, hwork⟩ :=
            Engine.work_execute Ledger.run s.ledger hbusy hqueue rfl (by rw [happly])
          dsimp only
          rw [settle_eq]
          dsimp only
          rw [hwork]
          dsimp only
          have hpick : ∀ x, (s.engine.apply (.enqueue (s.command scope entry))).pickUp.stackOrEmpty x =
              s.engine.stackOrEmpty x :=
            fun x => (Engine.stackOrEmpty_pickUp _ x).trans (hsame x)
          rcases hentry with ⟨a, rfl⟩ | ⟨a, δ, rfl, hover⟩
          · -- a get leaves the ledger as it is, and is never recorded
            refine ⟨Ledger.run_get s.ledger rfl .forward, fun x => ?_⟩
            rw [Engine.stackOrEmpty_resume_query hb _ _ hseq (by rw [hcall]; rfl), hpick]
          · -- the add fails on the balance, and a failed run is not recorded
            have hfail : (s.ledger.run (s.command scope (.add a δ)) .forward).2.2.isOk = false := by
              cases hok : (s.ledger.run (s.command scope (.add a δ)) .forward).2.2.isOk
              · rfl
              · have hfits := (Ledger.run_forward rfl).1.mp hok a δ rfl
                rw [hover] at hfits
                cases hfits
            refine ⟨Ledger.run_fail _ _ _ hfail, fun x => ?_⟩
            rw [Engine.stackOrEmpty_resume_fail hb _ hfail, hpick]

/-- **Replays never fail.** Whatever undo, redo or jump is submitted between statements, every redo
the worker makes for it, alone or as a step of a jump's walk, runs forward on the ledger without
failing: an add fits on the balance it first ran on. -/
theorem redo_ok (h : Follows e₀ s) {x : Engine.Input Entry} (hx : x.isSubmission)
    (hnot : ∀ c, x ≠ .enqueue c) (n : Nat) {b : Busy Entry}
    (hb : (Engine.workFor Ledger.run (fun _ => false) n s.ledger (s.engine.apply x)).2.busy = some b)
    (hredo : b.call.operation = .redo) :
    ((Engine.workFor Ledger.run (fun _ => false) n s.ledger (s.engine.apply x)).1.run
      b.call.command .forward).2.2.isOk = true := by
  obtain ⟨xs, -, -, hcons⟩ := h.inputs
  have hinv₁ := h.invariant.apply x
  have hon₁ := h.onTime.apply h.invariant (x := x) fun _ => h.idle
  exact ((hcons.submission hx fun c hc => absurd hc (hnot c)).workFor hinv₁ hon₁ n).redo_ok
    (hon₁.workFor hinv₁ n s.ledger) hb hredo

end Follows

/-- **The ledger replays the histories.** Run a script without `stack` statements from a fresh
session. The session it leaves has no job outstanding, and its engine is a run of inputs from the
fresh one over which each balance is the replay, from no balance, of the commands of its account's
stack: those that left the stack's history from the front, then its done part. From there, a get or
an add that would overflow changes neither the ledger nor a history, and no redo that the worker
makes for an undo, a redo or a jump fails on the ledger. -/
theorem ledger_replays_histories {config : Config} {s₀ : Session}
    (hstart : Session.start config = .ok s₀) (script : List ScriptLine)
    (hscript : ∀ line ∈ script, ∀ id, line.statement ≠ .stack id) :
    let s := endOf (s₀.run script)
    s.engine.busy = none ∧ s.engine.queue = [] ∧
      (∃ xs, s₀.engine.Sequential xs ∧ s.engine = s₀.engine.run xs ∧
        ∀ k, s.ledger.balance? k = replay k (Engine.shedOf (s₀.engine.home k) (s₀.engine.trace xs) ++
          (s.engine.stackOrEmpty (s₀.engine.home k)).done)) ∧
      (∀ line, ((∃ scope account, line.statement = .get scope account) ∨
          ∃ scope account δ, line.statement = .add scope account δ ∧
            Text.fitsInt64 ((s.ledger.balance? (scope, account)).getD 0 + δ) = false) →
        (s.runLine line).1.ledger = s.ledger ∧
          ∀ x, (s.runLine line).1.engine.stackOrEmpty x = s.engine.stackOrEmpty x) ∧
      ∀ x : Engine.Input Entry, x.isSubmission → (∀ c, x ≠ .enqueue c) → ∀ n b,
        (Engine.workFor Ledger.run (fun _ => false) n s.ledger (s.engine.apply x)).2.busy = some b →
        b.call.operation = .redo →
        ((Engine.workFor Ledger.run (fun _ => false) n s.ledger (s.engine.apply x)).1.run
          b.call.command .forward).2.2.isOk = true := by
  intro s
  have h : Follows s₀.engine s := (Follows.start hstart).run script hscript
  clear_value s
  obtain ⟨xs, hseq, hrun, hcons⟩ := h.inputs
  refine ⟨h.idle, h.drained, ⟨xs, hseq, hrun, hcons.balance⟩, fun line hline => ?_,
    fun x hx hnot n b hb hredo => h.redo_ok hx hnot n hb hredo⟩
  rcases hline with ⟨scope, account, hst⟩ | ⟨scope, account, δ, hst, hover⟩
  · rw [runLine_get s hst]
    exact h.inert line _ (.inl ⟨_, rfl⟩)
  · rw [runLine_add s hst]
    exact h.inert line _ (.inr ⟨_, δ, rfl, hover⟩)

/-- The law for a script that adds to an account, undoes and redoes, in the default
configuration. -/
theorem ledger_replays_histories_default :
    let script : List ScriptLine :=
      [⟨1, .add "all" "cash" 5, false⟩, ⟨2, .undo none, false⟩, ⟨3, .redo none, false⟩]
    ∃ s₀ : Session, Session.start {} = .ok s₀ ∧
      (∀ line ∈ script, ∀ id, line.statement ≠ .stack id) ∧
    let s := endOf (s₀.run script)
    s.engine.busy = none ∧ s.engine.queue = [] ∧
      (∃ xs, s₀.engine.Sequential xs ∧ s.engine = s₀.engine.run xs ∧
        ∀ k, s.ledger.balance? k = replay k (Engine.shedOf (s₀.engine.home k) (s₀.engine.trace xs) ++
          (s.engine.stackOrEmpty (s₀.engine.home k)).done)) ∧
      (∀ line, ((∃ scope account, line.statement = .get scope account) ∨
          ∃ scope account δ, line.statement = .add scope account δ ∧
            Text.fitsInt64 ((s.ledger.balance? (scope, account)).getD 0 + δ) = false) →
        (s.runLine line).1.ledger = s.ledger ∧
          ∀ x, (s.runLine line).1.engine.stackOrEmpty x = s.engine.stackOrEmpty x) ∧
      ∀ x : Engine.Input Entry, x.isSubmission → (∀ c, x ≠ .enqueue c) → ∀ n b,
        (Engine.workFor Ledger.run (fun _ => false) n s.ledger (s.engine.apply x)).2.busy = some b →
        b.call.operation = .redo →
        ((Engine.workFor Ledger.run (fun _ => false) n s.ledger (s.engine.apply x)).1.run
          b.call.command .forward).2.2.isOk = true := by
  intro script
  obtain ⟨s₀, hstart⟩ : ∃ s₀, Session.start ({} : Config) = .ok s₀ := ⟨_, rfl⟩
  have hscript : ∀ line ∈ script, ∀ id, line.statement ≠ .stack id := by
    intro line hline id
    simp only [script, List.mem_cons, List.mem_nil_iff, or_false] at hline
    rcases hline with rfl | rfl | rfl <;> simp
  exact ⟨s₀, hstart, hscript, ledger_replays_histories hstart script hscript⟩

end Session

end ScopedUndo
