import ScopedUndo.Proofs.Engine.Invariant
/-!
# A clear discards earlier work

A clear empties every stack, drops the pending commands and starts a new generation. Every job
carries the generation it was submitted in, and the worker compares it with the engine's wherever
the job could act: a queued job of an older generation is cancelled when it is taken up
(`pickUp_stale`), and a job whose run went across a clear neither records its command nor moves a
cursor, and ends with that run (`resume_stale`).

Generations and tickets only grow. From a clear on, every job of the new generation or a later one
holds a ticket handed out after the clear (`Since`), and every job there was at the clear is of an
older one; so each change the worker makes to a stack after a clear is the work of a job submitted
after it.
-/

namespace ScopedUndo

namespace Engine

variable {α : Type}

/-! ### Generations and tickets -/

theorem SameSetup.worker (e : Engine α) {x : Input α} (hx : x.isCaller = false) : SameSetup e (e.apply x) := by
  cases x with
  | pickUp => exact SameSetup.pickUp e
  | resume reports outcome => exact SameSetup.resume e reports outcome
  | reporter serial act => exact SameSetup.handle e serial act
  | halt => exact SameSetup.halt e
  | _ => cases hx

theorem generation_le_apply (e : Engine α) (x : Input α) : e.generation ≤ (e.apply x).generation := by
  cases hcaller : x.isCaller
  · exact (SameSetup.worker e hcaller).generation.ge
  cases hsub : x.isSubmission
  · exact (apply_control e hcaller hsub).2.2
  · obtain ⟨n, p, q, m, hx, -⟩ := apply_submission e hsub
    rw [hx]

theorem generation_le_run (e : Engine α) (xs : List (Input α)) : e.generation ≤ (e.run xs).generation := by
  induction xs generalizing e with
  | nil => exact le_refl _
  | cons x xs ih => exact (generation_le_apply e x).trans (ih (e.apply x))

theorem run_callers {e : Engine α} {ys : List (Input α)} (hcallers : ∀ y ∈ ys, y.isCaller = true) :
    (e.run ys).busy = e.busy ∧ (Input.clear ∈ ys → e.generation < (e.run ys).generation) := by
  induction ys generalizing e with
  | nil => exact ⟨rfl, fun hmem => by cases hmem⟩
  | cons y ys ih =>
      have hy := hcallers y (List.mem_cons_self ..)
      obtain ⟨hbusy, hgen⟩ := ih (e := e.apply y) fun z hz => hcallers z (List.mem_cons_of_mem y hz)
      refine ⟨hbusy.trans (busy_apply_caller e hy), fun hclear => ?_⟩
      rcases List.mem_cons.mp hclear with rfl | hrest
      · exact Nat.lt_of_lt_of_le (Nat.lt_succ_self _) (generation_le_run (e.apply .clear) ys)
      · exact Nat.lt_of_le_of_lt (generation_le_apply e y) (hgen hrest)

/-! ### Stale jobs -/

/-- **A stale job is cancelled when taken up.** It runs nothing, publishes nothing, changes no
stack or status, no longer counts as running, and only leaves its reply. -/
theorem pickUp_stale {e : Engine α} {job : Job α} {rest : List (Job α)} (hbusy : e.busy = none)
    (hidle : e.inFlight = false) (hqueue : e.queue = job :: rest) (hgen : job.generation ≠ e.generation) :
    e.pickUp = { e with queue := rest, running := e.running - 1,
                        replies := e.replies ++ [{ ticket := job.ticket, result := .error .cancelled,
                                                   progress := [] }] } := by
  have hne : (job.generation != e.generation) = true := by simpa using hgen
  simp only [pickUp, hbusy, hqueue, begin, hne, if_true, finish]
  rw [hidle]

/-- **A run across a clear settles nothing.** The job it belongs to records nothing, moves no
cursor and ends once the run returns: a walk takes no further step. -/
theorem resume_stale {e : Engine α} {b : Busy α} (hbusy : e.busy = some b) (hgen : b.generation ≠ e.generation)
    (reports : List ProgressEvent) (outcome : Outcome) :
    (e.resume reports outcome).histories = e.histories ∧ (e.resume reports outcome).busy = none := by
  obtain ⟨e₁, -, -, -, -, ⟨r, p, hr⟩ | ⟨-, -, -, -, -, hgen', -⟩⟩ := resume_cases hbusy reports outcome
  swap
  · exact absurd hgen'.symm hgen
  refine ⟨?_, by rw [hr]; rfl⟩
  rw [histories_resume hbusy]
  unfold settled
  split
  · -- recording needs the generation unchanged
    have hne : (e.generation == b.generation) = false := by simpa using Ne.symm hgen
    simp [hne]
  all_goals
    split_ifs
    · rcases moveCursor_cases e b.generation _ b.call.command _ with ⟨hsame, -⟩ | ⟨hgen'', -⟩
      · exact hsame
      · exact absurd hgen''.symm hgen
    · rfl

theorem current_of_worker_change {e : Engine α} {x : Input α} (hx : x.isCaller = false)
    (hchange : (e.apply x).histories ≠ e.histories) :
    ∃ b, e.busy = some b ∧ b.generation = e.generation := by
  cases x with
  | pickUp => exact absurd (histories_pickUp e) hchange
  | resume reports outcome =>
      cases hbusy : e.busy with
      | none =>
          simp only [Engine.apply, resume_idle hbusy] at hchange
          exact absurd rfl hchange
      | some b =>
          refine ⟨b, rfl, ?_⟩
          by_contra hgen
          exact hchange (resume_stale hbusy hgen reports outcome).1
  | reporter serial act => exact absurd (histories_handle e serial act) hchange
  | halt => exact absurd (histories_halt e) hchange
  | _ => cases hx

/-! ### Jobs since a clear -/

/-- The job in flight after the worker takes one up is the one there was, or holds the ticket and
the generation of a queued job. -/
theorem busy_pickUp_queued {e : Engine α} {b : Busy α} (h : e.pickUp.busy = some b) :
    e.busy = some b ∨ ∃ job ∈ e.queue, b.ticket = job.ticket ∧ b.generation = job.generation := by
  rcases pickUp_cases e with hp | ⟨job, rest, -, hqueue, hp⟩ <;> rw [hp] at h
  · exact .inl h
  refine .inr ⟨job, by simp [hqueue], ?_⟩
  rcases begin_cases _ job with ⟨r, hb⟩ | ⟨-, ⟨c, stack, -, hb⟩ | ⟨f, stack, c, -, -, hb⟩ |
    ⟨f, stack, c, -, -, hb⟩ | ⟨wanted, target, hb⟩⟩ <;> rw [hb] at h
  · simp at h
  · simp only [busy_await, Option.some.injEq] at h
    rw [← h]
    exact ⟨rfl, rfl⟩
  · simp only [busy_await, Option.some.injEq] at h
    rw [← h]
    exact ⟨rfl, rfl⟩
  · simp only [busy_await, Option.some.injEq] at h
    rw [← h]
    exact ⟨rfl, rfl⟩
  · obtain ⟨-, hticket, hgen, -⟩ := busy_walk _ _ _ _ _ _ _ h
    exact ⟨hticket, hgen⟩

/-- From generation `g` and ticket `t` on: every job of generation `g` or later, queued or in
flight, holds a ticket from `t` on. -/
structure Since (g t : Nat) (e : Engine α) : Prop where
  generation : g ≤ e.generation
  ticket : t ≤ e.nextTicket
  queued : ∀ job ∈ e.queue, g ≤ job.generation → t ≤ job.ticket
  in_flight : ∀ b, e.busy = some b → g ≤ b.generation → t ≤ b.ticket

section Since

variable {g t : Nat} {e : Engine α}

theorem Since.submission (h : e.Since g t) {x : Input α} (hx : x.isSubmission) : (e.apply x).Since g t := by
  obtain ⟨n, p, q, m, hx', hq, hn⟩ := apply_submission e hx
  rw [hx']
  refine ⟨h.generation, h.ticket.trans hn, ?_, h.in_flight⟩
  intro job hjob hgen
  rcases hq with ⟨rfl, -⟩ | ⟨task, -, rfl, -⟩
  · exact h.queued job hjob hgen
  rcases List.mem_append.mp hjob with hold | hnew
  · exact h.queued job hold hgen
  · -- the new job holds the ticket the engine hands out next
    rw [List.mem_singleton.mp hnew]
    exact h.ticket

theorem Since.pickUp (h : e.Since g t) : e.pickUp.Since g t := by
  have hsame := SameSetup.pickUp e
  refine ⟨hsame.generation ▸ h.generation, hsame.nextTicket ▸ h.ticket,
    fun job hjob => h.queued job (mem_queue_pickUp hjob), ?_⟩
  intro b hb hgen
  rcases busy_pickUp_queued hb with hold | ⟨job, hjob, hticket, hgen'⟩
  · exact h.in_flight b hold hgen
  · rw [hticket]
    exact h.queued job hjob (hgen' ▸ hgen)

theorem Since.resume (h : e.Since g t) (reports : List ProgressEvent) (outcome : Outcome) :
    (e.resume reports outcome).Since g t := by
  have hsame := SameSetup.resume e reports outcome
  refine ⟨hsame.generation ▸ h.generation, hsame.nextTicket ▸ h.ticket, ?_, ?_⟩
  · intro job hjob
    rw [queue_resume] at hjob
    exact h.queued job hjob
  intro b' hb' hgen
  cases hbusy : e.busy with
  | none =>
      rw [resume_idle hbusy, hbusy] at hb'
      cases hb'
  | some b =>
      obtain ⟨-, -, -, -, -, hticket, hgen', -⟩ := busy_resume hbusy reports outcome hb'
      rw [hticket]
      exact h.in_flight b hbusy (hgen' ▸ hgen)

theorem Since.handle (h : e.Since g t) (k : Nat) (act : Handling) : (e.handle k act).Since g t := by
  have hsame := SameSetup.handle e k act
  refine ⟨hsame.generation ▸ h.generation, hsame.nextTicket ▸ h.ticket, ?_, ?_⟩
  · intro job hjob
    rw [queue_handle] at hjob
    exact h.queued job hjob
  · intro b hb hgen
    obtain ⟨b₀, extra, hb₀, rfl⟩ := busy_handle e k act hb
    exact h.in_flight b₀ hb₀ hgen

theorem Since.halt (h : e.Since g t) : e.halt.Since g t := by
  have hsame := SameSetup.halt e
  refine ⟨hsame.generation ▸ h.generation, hsame.nextTicket ▸ h.ticket, ?_, ?_⟩
  · rw [queue_halt]
    exact h.queued
  · rw [busy_halt]
    exact h.in_flight

theorem Since.apply (h : e.Since g t) (x : Input α) : (e.apply x).Since g t := by
  cases hcaller : x.isCaller
  · cases x with
    | pickUp => exact h.pickUp
    | resume reports outcome => exact h.resume reports outcome
    | reporter serial act => exact h.handle serial act
    | halt => exact h.halt
    | _ => cases hcaller
  cases hsub : x.isSubmission
  · obtain ⟨hjobs, hticket, hgen⟩ := apply_control e hcaller hsub
    exact ⟨h.generation.trans hgen, hticket ▸ h.ticket, hjobs.queue ▸ h.queued, hjobs.busy ▸ h.in_flight⟩
  · exact h.submission hsub

theorem Since.run (h : e.Since g t) (xs : List (Input α)) : (e.run xs).Since g t := by
  induction xs generalizing e with
  | nil => exact h
  | cons x xs ih => exact ih (h.apply x)

end Since

/-- Right after a clear every job there is belongs to an older generation, so the clear's
generation and next ticket start a `Since`. -/
theorem Invariant.since_clear {e : Engine α} (h : e.Invariant) :
    e.clear.Since e.clear.generation e.clear.nextTicket := by
  refine ⟨le_refl _, le_refl _, fun job hjob hgen => ?_, fun b hb hgen => ?_⟩
  · have hold : job.generation ≤ e.generation := h.queue_generation job hjob
    exact absurd hgen (by show ¬ e.generation + 1 ≤ job.generation; omega)
  · have hold : b.generation ≤ e.generation := h.busy_generation b hb
    exact absurd hgen (by show ¬ e.generation + 1 ≤ b.generation; omega)

/-! ### The law of a clear -/

/-- **A clear discards all earlier work.** Along any run: a queued job of an older generation is
cancelled when taken up, without a run or an event; a job whose run a clear overtakes neither
records nor moves a cursor when the run returns, and starts no further run; right after a clear
every stack and the pending list are empty and every job there is is of an older generation, and
from then on a worker step changes a stack only for a job submitted after the clear. -/
theorem clear_discards_earlier_work {c : Config} {e₀ : Engine α} (hcreate : Engine.create c = .ok e₀)
    (xs : List (Input α)) :
    (∀ job rest, (e₀.run xs).busy = none → (e₀.run xs).queue = job :: rest →
        job.generation ≠ (e₀.run xs).generation →
        (e₀.run xs).pickUp = { e₀.run xs with
          queue := rest
          running := (e₀.run xs).running - 1
          replies := (e₀.run xs).replies ++
            [{ ticket := job.ticket, result := .error .cancelled, progress := [] }] }) ∧
      (∀ b, (e₀.run xs).busy = some b → ∀ ys : List (Input α), (∀ y ∈ ys, y.isCaller = true) →
        Input.clear ∈ ys → (e₀.run (xs ++ ys)).busy = some b ∧
          ∀ reports outcome,
            ((e₀.run (xs ++ ys)).resume reports outcome).histories = (e₀.run (xs ++ ys)).histories ∧
              ((e₀.run (xs ++ ys)).resume reports outcome).busy = none) ∧
      (∀ s ∈ (e₀.run xs).clear.histories, s.commands = []) ∧ (e₀.run xs).clear.pending = [] ∧
      (∀ job ∈ (e₀.run xs).clear.queue, job.generation < (e₀.run xs).clear.generation) ∧
      (∀ b, (e₀.run xs).clear.busy = some b → b.generation < (e₀.run xs).clear.generation) ∧
      ∀ pre x, x.isCaller = false →
        (((e₀.run xs).clear.run pre).apply x).histories ≠ ((e₀.run xs).clear.run pre).histories →
        ∃ b, ((e₀.run xs).clear.run pre).busy = some b ∧
          (e₀.run xs).clear.generation ≤ b.generation ∧ (e₀.run xs).clear.nextTicket ≤ b.ticket := by
  have hinv := (invariant_create hcreate).run xs
  have hcounted := (counted_create hcreate).run xs
  refine ⟨fun job rest hbusy hqueue hgen => ?_, ?_, ?_, rfl, ?_, ?_, ?_⟩
  · have hidle : (e₀.run xs).inFlight = false := by rw [hcounted.inFlight, hbusy, Option.isSome_none]
    exact pickUp_stale hbusy hidle hqueue hgen
  · intro b hb ys hcallers hclear
    obtain ⟨hbusy, hgen⟩ := run_callers (e := e₀.run xs) hcallers
    rw [run_append]
    have hbusy' : ((e₀.run xs).run ys).busy = some b := hbusy.trans hb
    -- the job began no later than the engine's generation, which the clear has since passed
    have hstale : b.generation ≠ ((e₀.run xs).run ys).generation :=
      Nat.ne_of_lt (Nat.lt_of_le_of_lt (hinv.busy_generation b hb) (hgen hclear))
    exact ⟨hbusy', resume_stale hbusy' hstale⟩
  · intro s hs
    have hs' : s ∈ (e₀.run xs).histories.map Stack.clear := hs
    obtain ⟨t, -, rfl⟩ := List.mem_map.mp hs'
    rfl
  · exact fun job hjob => Nat.lt_succ_of_le (hinv.queue_generation job hjob)
  · exact fun b hb => Nat.lt_succ_of_le (hinv.busy_generation b hb)
  · intro pre x hx hchange
    obtain ⟨b, hb, hgen⟩ := current_of_worker_change hx hchange
    have hsince := hinv.since_clear.run pre
    have hnew : (e₀.run xs).clear.generation ≤ b.generation := hgen ▸ hsince.generation
    exact ⟨b, hb, hnew, hsince.in_flight b hb hnew⟩

/-- The law of a clear, on the engine the default configuration starts with a command taken up. -/
theorem clear_discards_earlier_work_default :
    let xs : List (Input Unit) := [.enqueue { id := 1, text := "add", action := () }, .pickUp]
    ∃ e₀ : Engine Unit, Engine.create ({} : Config) = .ok e₀ ∧
      (∀ job rest, (e₀.run xs).busy = none → (e₀.run xs).queue = job :: rest →
          job.generation ≠ (e₀.run xs).generation →
          (e₀.run xs).pickUp = { e₀.run xs with
            queue := rest
            running := (e₀.run xs).running - 1
            replies := (e₀.run xs).replies ++
              [{ ticket := job.ticket, result := .error .cancelled, progress := [] }] }) ∧
        (∀ b, (e₀.run xs).busy = some b → ∀ ys : List (Input Unit), (∀ y ∈ ys, y.isCaller = true) →
          Input.clear ∈ ys → (e₀.run (xs ++ ys)).busy = some b ∧
            ∀ reports outcome,
              ((e₀.run (xs ++ ys)).resume reports outcome).histories = (e₀.run (xs ++ ys)).histories ∧
                ((e₀.run (xs ++ ys)).resume reports outcome).busy = none) ∧
        (∀ s ∈ (e₀.run xs).clear.histories, s.commands = []) ∧ (e₀.run xs).clear.pending = [] ∧
        (∀ job ∈ (e₀.run xs).clear.queue, job.generation < (e₀.run xs).clear.generation) ∧
        (∀ b, (e₀.run xs).clear.busy = some b → b.generation < (e₀.run xs).clear.generation) ∧
        ∀ pre x, x.isCaller = false →
          (((e₀.run xs).clear.run pre).apply x).histories ≠ ((e₀.run xs).clear.run pre).histories →
          ∃ b, ((e₀.run xs).clear.run pre).busy = some b ∧
            (e₀.run xs).clear.generation ≤ b.generation ∧ (e₀.run xs).clear.nextTicket ≤ b.ticket := by
  intro xs
  have hcreate : Engine.create ({} : Config) =
      .ok ({ registry := {}, defaultStack := "default", undoLimit := 0, capacity := 1024,
             histories := [Stack.empty "default"], active := "default", routes := [] } : Engine Unit) := rfl
  exact ⟨_, hcreate, clear_discards_earlier_work hcreate xs⟩

end Engine

end ScopedUndo
