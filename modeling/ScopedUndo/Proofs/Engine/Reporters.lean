import ScopedUndo.Proofs.Engine.Queue
/-!
# Reporters

Each action run is handed a reporter of its own, appended to the engine's reporters, and the run's
return closes it before the job ends or walks on. So a reporter is open exactly while the run it was
handed to is in flight, and it reports for that run's job and command (`Reporting`). A report made on
it, or on a clone kept during the run, reaches the bus and the job's handle while the run is in
flight and is dropped after.

The proof follows the worker: a job stops at a run only when no reporter is open, and appends the
run's one open reporter (`Reporting.await`); a job ends with none open (`Reporting.finish`); the
return of a run closes the only open one.
-/

namespace ScopedUndo

namespace Engine

variable {α : Type}

/-! ### Which reporters are open -/

@[simp] theorem reporterOpen_publish (e : Engine α) (ev : EngineEvent) (k : Nat) :
    (e.publish ev).reporterOpen k = e.reporterOpen k := rfl

@[simp] theorem reporterOpen_finish (e : Engine α) (t : Nat) (r : Except Fault Value) (p : List ProgressEvent)
    (k : Nat) : (e.finish t r p).reporterOpen k = e.reporterOpen k := rfl

@[simp] theorem reporters_finish (e : Engine α) (t : Nat) (r : Except Fault Value) (p : List ProgressEvent) :
    (e.finish t r p).reporters = e.reporters := rfl

theorem reporterOpen_close (e : Engine α) (k j : Nat) :
    (e.close k).reporterOpen j = (decide (j ≠ k) && e.reporterOpen j) := by
  unfold reporterOpen close
  rw [List.getElem?_modify]
  by_cases hj : j = k
  · subst hj
    cases e.reporters[j]? <;> simp
  · cases e.reporters[j]? <;> simp [Ne.symm hj, hj]

/-- Counting clones changes no reporter's job, command or openness. -/
theorem countClones_same (e : Engine α) (k : Nat) (f : Nat → Nat) (j : Nat) :
    ((e.countClones k f).reporters[j]?).map (fun r : Reporter => (r.ticket, r.command, r.isOpen)) =
      (e.reporters[j]?).map fun r : Reporter => (r.ticket, r.command, r.isOpen) := by
  simp only [countClones, List.getElem?_modify]
  cases e.reporters[j]? <;> by_cases hkj : k = j <;> simp [hkj]

theorem reporterOpen_await (e : Engine α) (t g : Nat) (call : Call α) (sq : Sequel) (p : List ProgressEvent)
    (j : Nat) : (e.await t g call sq p).reporterOpen j = (decide (j = e.reporters.length) || e.reporterOpen j) := by
  rw [await_eq]
  unfold reporterOpen
  simp only [List.getElem?_append]
  by_cases hj : j < e.reporters.length
  · simp [hj, Nat.ne_of_lt hj]
  · by_cases hlen : j = e.reporters.length
    · subst hlen
      simp
    · have hpast : [({ ticket := t, command := call.command.id } : Reporter)][j - e.reporters.length]? = none :=
        List.getElem?_eq_none (by simp only [List.length_singleton]; omega)
      simp [hj, hlen, hpast]

theorem reporters_await_new (e : Engine α) (t g : Nat) (call : Call α) (sq : Sequel) (p : List ProgressEvent) :
    (e.await t g call sq p).reporters[e.reporters.length]? = some { ticket := t, command := call.command.id } := by
  rw [await_eq]
  simp

/-! ### The invariant -/

/-- A reporter is open exactly while the run it was handed to is in flight, and the run in flight
holds a reporter for its own job and command. -/
structure Reporting (e : Engine α) : Prop where
  open_iff : ∀ k, e.reporterOpen k = true ↔ ∃ b, e.busy = some b ∧ b.reporter = k
  busy_reporter : ∀ b, e.busy = some b →
    ∃ r, e.reporters[b.reporter]? = some r ∧ r.ticket = b.ticket ∧ r.command = b.call.command.id

def Quiet (e : Engine α) : Prop :=
  ∀ k, e.reporterOpen k = false

theorem Reporting.quiet {e : Engine α} (h : e.Reporting) (hidle : e.busy = none) : e.Quiet := by
  intro k
  cases hk : e.reporterOpen k
  · rfl
  · obtain ⟨b, hb, -⟩ := (h.open_iff k).mp hk
    rw [hidle] at hb
    cases hb

theorem Quiet.finish {e : Engine α} (h : e.Quiet) (t : Nat) (r : Except Fault Value) (p : List ProgressEvent) :
    (e.finish t r p).Reporting :=
  ⟨fun k => by simp [h k], fun b hb => by cases hb⟩

theorem Quiet.await {e : Engine α} (h : e.Quiet) (t g : Nat) (call : Call α) (sq : Sequel)
    (p : List ProgressEvent) : (e.await t g call sq p).Reporting := by
  refine ⟨fun k => ?_, fun b hb => ?_⟩
  · rw [reporterOpen_await, h k, Bool.or_false, decide_eq_true_iff, busy_await]
    constructor
    · rintro rfl
      exact ⟨_, rfl, rfl⟩
    · rintro ⟨b, hb, rfl⟩
      cases hb
      rfl
  · rw [busy_await] at hb
    cases hb
    exact ⟨_, reporters_await_new e t g call sq p, rfl, rfl⟩

theorem Quiet.walk {e : Engine α} (h : e.Quiet) (t g : Nat) (stack : String) (wanted : Nat)
    (target : Option Nat) (p : List ProgressEvent) : (e.walk t g stack wanted target p).Reporting := by
  have hpub : ∀ ev, (e.publish ev).Quiet := fun ev k => h k
  rcases walk_cases e t g stack wanted target p with ⟨r, hw⟩ | ⟨s, c, -, -, hw⟩ | ⟨s, c, -, -, hw⟩ <;>
    rw [hw]
  · exact h.finish t r p
  all_goals exact (hpub _).await _ _ _ _ _

theorem Quiet.begin {e : Engine α} (h : e.Quiet) (job : Job α) : (e.begin job).Reporting := by
  have hpub : ∀ ev, (e.publish ev).Quiet := fun ev k => h k
  rcases begin_cases e job with ⟨r, hb⟩ | ⟨-, ⟨c, stack, -, hb⟩ | ⟨f, stack, c, -, -, hb⟩ |
    ⟨f, stack, c, -, -, hb⟩ | ⟨wanted, target, hb⟩⟩ <;> rw [hb]
  · exact h.finish _ r []
  · have hquiet : ({ e with pending := e.pending.filter (·.ticket != job.ticket) } : Engine α).Quiet := h
    exact hquiet.await _ _ _ _ _
  · exact (hpub _).await _ _ _ _ _
  · exact (hpub _).await _ _ _ _ _
  · exact h.walk _ _ _ _ _ _

theorem Reporting.pickUp {e : Engine α} (h : e.Reporting) : e.pickUp.Reporting := by
  rcases pickUp_cases e with hp | ⟨job, rest, hbusy, -, hp⟩ <;> rw [hp]
  · exact h
  · have hquiet : ({ e with queue := rest, inFlight := true } : Engine α).Quiet := h.quiet hbusy
    exact hquiet.begin job

/-- The return of a run closes the run's reporter, the only open one, so the job ends or walks on
with none open. -/
theorem Reporting.resume {e : Engine α} (h : e.Reporting) (reports : List ProgressEvent) (outcome : Outcome) :
    (e.resume reports outcome).Reporting := by
  cases hbusy : e.busy with
  | none =>
      rw [resume_idle hbusy]
      exact h
  | some b =>
      obtain ⟨e₁, -, hret, -, -, ⟨r, p, hr⟩ | ⟨stack, wanted, target, -, -, -, hr⟩⟩ :=
        resume_cases hbusy reports outcome <;> rw [hr]
      all_goals
        have hquiet : e₁.Quiet := by
          intro k
          have hk : e₁.reporterOpen k = (e.close b.reporter).reporterOpen k := by
            unfold reporterOpen
            rw [hret.reporters]
          rw [hk, reporterOpen_close]
          by_cases hkb : k = b.reporter
          · simp [hkb]
          · -- only the run's own reporter was open
            have hshut : e.reporterOpen k = false := by
              cases hopen : e.reporterOpen k
              · rfl
              · obtain ⟨b', hb', hk'⟩ := (h.open_iff k).mp hopen
                rw [hbusy] at hb'
                cases hb'
                exact absurd hk'.symm hkb
            simp [hshut]
      · exact hquiet.finish _ r p
      · exact hquiet.walk _ _ _ _ _ _

/-- A report or a clone changes no reporter's job, command or openness, and the job in flight only
gains reports. -/
theorem Reporting.handle {e : Engine α} (h : e.Reporting) (k : Nat) (act : Handling) :
    (e.handle k act).Reporting := by
  -- the reporters after using one agree with those before on everything but the held clones
  have hsame : ∀ j : Nat, ((e.handle k act).reporters[j]?).map (fun r : Reporter => (r.ticket, r.command, r.isOpen)) =
      (e.reporters[j]?).map fun r : Reporter => (r.ticket, r.command, r.isOpen) := by
    intro j
    cases act with
    | emit ev =>
        simp only [Engine.handle]
        split
        · split_ifs <;> rfl
        · rfl
    | keep =>
        simp only [Engine.handle]
        split_ifs
        · exact countClones_same e k _ j
        · rfl
    | release => exact countClones_same e k _ j
  have hopen : ∀ j : Nat, (e.handle k act).reporterOpen j = e.reporterOpen j := by
    intro j
    have hj := congrArg (Option.map fun x : Nat × Nat × Bool => x.2.2) (hsame j)
    simp only [Option.map_map] at hj
    unfold reporterOpen
    exact congrArg (Option.getD · false) hj
  refine ⟨fun j => ?_, fun b hb => ?_⟩
  · rw [hopen, h.open_iff j]
    constructor
    · rintro ⟨b, hb, rfl⟩
      obtain ⟨evs, rs, extra, hx⟩ := handle_eq e k act
      exact ⟨{ b with progress := b.progress ++ extra }, by rw [hx, hb]; rfl, rfl⟩
    · rintro ⟨b, hb, rfl⟩
      obtain ⟨b₀, extra, hb₀, rfl⟩ := busy_handle e k act hb
      exact ⟨b₀, hb₀, rfl⟩
  · obtain ⟨b₀, extra, hb₀, rfl⟩ := busy_handle e k act hb
    obtain ⟨r, hr, hticket, hcommand⟩ := h.busy_reporter b₀ hb₀
    have hj := hsame b₀.reporter
    rw [hr] at hj
    obtain ⟨r', hr', heq⟩ := Option.map_eq_some_iff.mp hj
    simp only [Prod.mk.injEq] at heq
    exact ⟨r', hr', heq.1.trans hticket, heq.2.1.trans hcommand⟩

theorem Reporting.halt {e : Engine α} (h : e.Reporting) : e.halt.Reporting := by
  obtain ⟨receiving, hx⟩ := halt_eq e
  rw [hx]
  exact ⟨h.open_iff, h.busy_reporter⟩

theorem reporters_apply_caller (e : Engine α) {x : Input α} (hx : x.isCaller) :
    (e.apply x).reporters = e.reporters := by
  cases hsub : x.isSubmission
  · cases x with
    | clear => rfl
    | setUndoLimit limit =>
        simp only [Engine.apply]
        rw [setUndoLimit_eq]
    | setActive stack =>
        simp only [Engine.apply]
        rw [setActive_eq]
    | route scope stack =>
        simp only [Engine.apply]
        split
        · rename_i e' hroute
          rw [(route_eq hroute).2.2.2]
        · rfl
    | shutdown => rfl
    | pickUp => cases hx
    | resume reports outcome => cases hx
    | reporter serial act => cases hx
    | halt => cases hx
    | enqueue c => cases hsub
    | undo filter => cases hsub
    | redo filter => cases hsub
    | jump target => cases hsub
  · obtain ⟨n, p, q, m, h, -⟩ := apply_submission e hsub
    rw [h]

theorem Reporting.caller {e : Engine α} (h : e.Reporting) {x : Input α} (hx : x.isCaller) :
    (e.apply x).Reporting := by
  have hreporters := reporters_apply_caller e hx
  have hbusy := busy_apply_caller e hx
  have hopen : ∀ k, (e.apply x).reporterOpen k = e.reporterOpen k := by
    intro k
    unfold reporterOpen
    rw [hreporters]
  exact ⟨fun k => by rw [hopen, hbusy]; exact h.open_iff k,
    fun b hb => by rw [hreporters]; exact h.busy_reporter b (hbusy ▸ hb)⟩

/-- **Every input keeps the reporters in step with the runs.** -/
theorem Reporting.apply {e : Engine α} (h : e.Reporting) (x : Input α) : (e.apply x).Reporting := by
  cases hcaller : x.isCaller
  · cases x with
    | pickUp => exact h.pickUp
    | resume reports outcome => exact h.resume reports outcome
    | reporter serial act => exact h.handle serial act
    | halt => exact h.halt
    | _ => cases hcaller
  · exact h.caller hcaller

theorem Reporting.run {e : Engine α} (h : e.Reporting) (xs : List (Input α)) : (e.run xs).Reporting := by
  induction xs generalizing e with
  | nil => exact h
  | cons x xs ih => exact ih (h.apply x)

end Engine

end ScopedUndo
