import ScopedUndo.Proofs.Engine.Invariant
/-!
# Tickets, the queue and the pending list

A submission the engine takes gets the next ticket, and its job goes last in the queue in the
current generation; the worker takes jobs from the front, one at a time, and a job leaves its reply
when it ends. So the tickets handed out rise, and at every point they are, in order, those of the
finished jobs, of the job in flight and of the queued jobs (`Books.tickets`). The pending list shows
the queued commands of the current generation with the stack each was sent to when it was
submitted (`Books.pending`): a submission adds its entry, the worker drops it when the job starts,
and a clear drops all of them with the generation.

The worker's functions are read through `Continues`, which says what a step does to the job in
flight and to the replies, and through the lemmas that they keep the pending list.
-/

namespace ScopedUndo

/-- The pending entry a queued job stands for in generation `g`: a command executed in that
generation, with the stack it was sent to. -/
def Job.waiting {α : Type} (g : Nat) (job : Job α) : Option Pending :=
  match job.task with
  | .execute c stack => if job.generation = g then some ⟨job.ticket, c.text, c.scope, stack⟩ else none
  | _ => none

theorem Job.ticket_of_waiting {α : Type} {g : Nat} {job : Job α} {p : Pending}
    (h : job.waiting g = some p) : p.ticket = job.ticket := by
  unfold Job.waiting at h
  split at h
  · split_ifs at h
    cases h
    rfl
  · cases h

theorem Scope.meets_of_specific {a b : Scope} (ha : a.isAll = false) (hb : b.isAll = false) :
    a.meets b = (a.bits &&& b.bits != 0) := by
  cases a with
  | all => cases ha
  | set f =>
      cases b with
      | all => cases hb
      | set g => rfl

namespace Engine

variable {α : Type}

/-- The tickets of the finished jobs, of the job in flight and of the queued jobs, in that order. -/
def tickets (e : Engine α) : List Nat :=
  e.replies.map (·.ticket) ++ (e.busy.map (·.ticket)).toList ++ e.queue.map (·.ticket)

/-- The ticket a caller gets back for a submission the engine takes. -/
def ticketOf (e : Engine α) : Input α → Option Nat
  | .enqueue c => (e.enqueue c).2.toOption
  | .undo filter => (e.undo filter).2.toOption
  | .redo filter => (e.redo filter).2.toOption
  | .jump target => (e.jump target).2.toOption
  | _ => none

def ranTicketOf (e : Engine α) : Input α → Option Nat
  | .resume _ _ => e.busy.map (·.ticket)
  | _ => none

/-- The tickets of the submissions taken along a run, in the order they were taken. -/
def accepted (e : Engine α) : List (Input α) → List Nat
  | [] => []
  | x :: xs => (e.ticketOf x).toList ++ (e.apply x).accepted xs

/-- The tickets of the jobs whose action runs returned along a run, one for each run. -/
def ranTickets (e : Engine α) : List (Input α) → List Nat
  | [] => []
  | x :: xs => (e.ranTicketOf x).toList ++ (e.apply x).ranTickets xs

/-! ### What each worker function does to the replies and the pending list -/

@[simp] theorem pending_finish (e : Engine α) (t : Nat) (r : Except Fault Value) (p : List ProgressEvent) :
    (e.finish t r p).pending = e.pending := rfl

@[simp] theorem pending_await (e : Engine α) (t g : Nat) (call : Call α) (sq : Sequel)
    (p : List ProgressEvent) : (e.await t g call sq p).pending = e.pending := by
  rw [await_eq]
  split_ifs <;> rfl

@[simp] theorem replies_await (e : Engine α) (t g : Nat) (call : Call α) (sq : Sequel)
    (p : List ProgressEvent) : (e.await t g call sq p).replies = e.replies := by
  rw [await_eq]
  split_ifs <;> rfl

/-- From `e` to `e'` the worker went on with the job of ticket `t`: the job ended and left its
reply, or it waits on an action run; the replies before stay. -/
def Continues (t : Nat) (e e' : Engine α) : Prop :=
  (e'.busy = none ∧ ∃ r : Reply, r.ticket = t ∧ e'.replies = e.replies ++ [r]) ∨
    ∃ b : Busy α, e'.busy = some b ∧ b.ticket = t ∧ e'.replies = e.replies

theorem continues_finish (e : Engine α) (t : Nat) (r : Except Fault Value) (p : List ProgressEvent) :
    Continues t e (e.finish t r p) :=
  .inl ⟨rfl, _, rfl, rfl⟩

theorem continues_await (e : Engine α) (t g : Nat) (call : Call α) (sq : Sequel) (p : List ProgressEvent) :
    Continues t e (e.await t g call sq p) :=
  .inr ⟨_, busy_await e t g call sq p, rfl, replies_await e t g call sq p⟩

theorem Continues.of_replies {t : Nat} {e₀ e e' : Engine α} (h : Continues t e e')
    (hr : e.replies = e₀.replies) : Continues t e₀ e' := by
  rw [Continues, ← hr]
  exact h

/-- The tickets after a step that went on with the job `t`: the finished jobs, then `t`, then the
queue. -/
theorem Continues.tickets {t : Nat} {e e' : Engine α} (h : Continues t e e') :
    e'.tickets = e.replies.map (·.ticket) ++ [t] ++ e'.queue.map (·.ticket) := by
  unfold Engine.tickets
  rcases h with ⟨hbusy, r, rfl, hr⟩ | ⟨b, hbusy, rfl, hr⟩ <;> simp [hbusy, hr]

theorem pending_walk (e : Engine α) (t g : Nat) (stack : String) (wanted : Nat) (target : Option Nat)
    (p : List ProgressEvent) : (e.walk t g stack wanted target p).pending = e.pending := by
  rcases walk_cases e t g stack wanted target p with ⟨r, h⟩ | ⟨s, c, -, -, h⟩ | ⟨s, c, -, -, h⟩ <;>
    simp [h]

theorem continues_walk (e : Engine α) (t g : Nat) (stack : String) (wanted : Nat)
    (target : Option Nat) (p : List ProgressEvent) : Continues t e (e.walk t g stack wanted target p) := by
  rcases walk_cases e t g stack wanted target p with ⟨r, h⟩ | ⟨s, c, -, -, h⟩ | ⟨s, c, -, -, h⟩ <;>
    rw [h]
  · exact continues_finish e t r p
  all_goals exact (continues_await _ _ _ _ _ _).of_replies rfl

theorem pending_begin (e : Engine α) (job : Job α) :
    (e.begin job).pending =
      if (job.waiting e.generation).isSome then e.pending.filter (·.ticket != job.ticket)
      else e.pending := by
  unfold begin Job.waiting
  by_cases hgen : job.generation = e.generation
  · rw [if_neg (by simpa using hgen)]
    cases job.task with
    | execute c stack => simp [hgen]
    | undo f => dsimp only; split <;> simp
    | redo f => dsimp only; split <;> simp
    | jump target =>
        simp only [Option.isSome_none, Bool.false_eq_true, if_false]
        split
        · split_ifs <;> simp [pending_walk]
        · simp [pending_walk]
  · rw [if_pos (by simpa using hgen)]
    cases job.task <;> simp [hgen]

theorem continues_begin (e : Engine α) (job : Job α) : Continues job.ticket e (e.begin job) := by
  rcases begin_cases e job with ⟨r, hb⟩ | ⟨-, ⟨c, stack, -, hb⟩ | ⟨f, stack, c, -, -, hb⟩ |
    ⟨f, stack, c, -, -, hb⟩ | ⟨wanted, target, hb⟩⟩ <;> rw [hb]
  · exact continues_finish e _ r []
  · exact (continues_await _ _ _ _ _ _).of_replies rfl
  · exact (continues_await _ _ _ _ _ _).of_replies rfl
  · exact (continues_await _ _ _ _ _ _).of_replies rfl
  · exact continues_walk e _ _ _ _ _ _

theorem books_resume {e : Engine α} {b : Busy α} (hbusy : e.busy = some b) (reports : List ProgressEvent)
    (outcome : Outcome) :
    (e.resume reports outcome).pending = e.pending ∧ Continues b.ticket e (e.resume reports outcome) := by
  obtain ⟨e₁, -, ⟨-, hpending, hreplies⟩, -, -, ⟨r, p, h⟩ | ⟨stack, wanted, target, -, -, -, h⟩⟩ :=
    resume_cases hbusy reports outcome <;> rw [h]
  · exact ⟨hpending, (continues_finish e₁ _ r p).of_replies hreplies⟩
  · exact ⟨(pending_walk ..).trans hpending, (continues_walk e₁ ..).of_replies hreplies⟩

/-! ### Submissions -/

theorem filter_fresh_ticket {ps extra : List Pending} {t : Nat} (hfresh : ∀ p ∈ ps, p.ticket ≠ t)
    (hextra : ∀ p ∈ extra, p.ticket = t) : (ps ++ extra).filter (·.ticket != t) = ps := by
  rw [List.filter_append, List.filter_eq_self.mpr, List.filter_eq_nil_iff.mpr, List.append_nil]
  · intro p hp
    simp [hextra p hp]
  · intro p hp
    simpa using hfresh p hp

/-- A submission whose builder only adds the pending entry of its job, if any: it is refused,
using up at most a ticket and keeping the pending list unless an entry already bore the ticket it
used; or its job goes last in the queue under the next ticket, counted as running. -/
theorem submit_taken {e : Engine α} {build : Engine α → Nat → Except Fault (Engine α × Task α)}
    {e₁ : Engine α} {r : Except Fault Nat} (P : Task α → Prop) (hs : e.submit build = (e₁, r))
    (hbuild : ∀ e' task, build { e with nextTicket := e.nextTicket + 1 } e.nextTicket = .ok (e', task) →
      P task ∧ e' =
        { e with
          nextTicket := e.nextTicket + 1
          pending := e.pending ++ (Job.waiting e.generation ⟨e.nextTicket, e.generation, task⟩).toList }) :
    (r.toOption = none ∧ ∃ n p, e.nextTicket ≤ n ∧ e₁ = { e with nextTicket := n, pending := p } ∧
        ((∀ q ∈ e.pending, q.ticket ≠ e.nextTicket) → p = e.pending)) ∨
      ∃ task, P task ∧ r.toOption = some e.nextTicket ∧
        e₁ =
          { e with
            nextTicket := e.nextTicket + 1
            pending := e.pending ++ (Job.waiting e.generation ⟨e.nextTicket, e.generation, task⟩).toList
            queue := e.queue ++ [⟨e.nextTicket, e.generation, task⟩]
            running := e.running + 1 } := by
  rcases submit_answer e build hs with ⟨hnone, n, hn, rfl⟩ | ⟨e', task, hb, ⟨-, hr, rfl⟩ | ⟨-, rfl, rfl⟩⟩
  · exact .inl ⟨hnone, n, e.pending, hn, rfl, fun _ => rfl⟩
  · obtain ⟨htask, rfl⟩ := hbuild e' task hb
    exact .inr ⟨task, htask, hr, rfl⟩
  · obtain ⟨-, rfl⟩ := hbuild e' task hb
    refine .inl ⟨rfl, e.nextTicket + 1, _, Nat.le_succ _, rfl, fun hfresh => filter_fresh_ticket hfresh ?_⟩
    -- the only entry added is the job's, under the ticket it used
    intro q hq
    exact Job.ticket_of_waiting (by simpa using hq)

/-- The builder of an undo or a redo checks the filter and adds no pending entry. -/
theorem checked_build {e : Engine α} {f : Option Scope} {task : Task α}
    (hwaiting : ∀ t g, Job.waiting e.generation ⟨t, g, task⟩ = none) (e' : Engine α) (task' : Task α)
    (hb : (({ e with nextTicket := e.nextTicket + 1 } : Engine α).checkFilter f >>= fun _ =>
      pure (({ e with nextTicket := e.nextTicket + 1 } : Engine α), task)) = Except.ok (e', task')) :
    task' = task ∧
      e' = { e with
        nextTicket := e.nextTicket + 1
        pending := e.pending ++ (Job.waiting e.generation ⟨e.nextTicket, e.generation, task'⟩).toList } := by
  cases hv : ({ e with nextTicket := e.nextTicket + 1 } : Engine α).checkFilter f with
  | error flt => simp [hv, bind, Except.bind] at hb
  | ok u =>
      simp only [hv, bind, Except.bind, pure, Except.pure, Except.ok.injEq, Prod.mk.injEq] at hb
      obtain ⟨rfl, rfl⟩ := hb
      simp [hwaiting]

/-- **A submission.** It is refused, changing nothing but the next ticket and keeping the pending
list unless an entry already bore the ticket it used; or it is taken under the next ticket: its job,
of the current generation, goes last in the queue, counted as running, and the pending list gains the
job's entry. A command is sent to the stack it resolves to. -/
theorem submission_cases (e : Engine α) {x : Input α} (hx : x.isSubmission) :
    (e.ticketOf x = none ∧ ∃ n p, e.nextTicket ≤ n ∧ e.apply x = { e with nextTicket := n, pending := p } ∧
        ((∀ q ∈ e.pending, q.ticket ≠ e.nextTicket) → p = e.pending)) ∨
      ∃ job : Job α, e.ticketOf x = some e.nextTicket ∧ job.ticket = e.nextTicket ∧
        job.generation = e.generation ∧ (∀ c, x = .enqueue c → job.task = .execute c (e.resolve c)) ∧
        e.apply x = { e with nextTicket := e.nextTicket + 1,
                             pending := e.pending ++ (job.waiting e.generation).toList,
                             queue := e.queue ++ [job], running := e.running + 1 } := by
  cases x with
  | enqueue c =>
      obtain ⟨e₁, r, hs⟩ : ∃ e₁ r, e.enqueue c = (e₁, r) := ⟨_, _, rfl⟩
      simp only [Engine.apply, ticketOf, hs]
      have hres := submit_taken (fun task => task = .execute c (e.resolve c)) hs
      rcases hres (by
          intro e' task hb
          dsimp only at hb
          cases hv : e.registry.validate c.scope with
          | error f => simp [hv, bind, Except.bind] at hb
          | ok u =>
              simp only [hv, bind, Except.bind, pure, Except.pure, Except.ok.injEq, Prod.mk.injEq] at hb
              obtain ⟨rfl, rfl⟩ := hb
              simp [Job.waiting, resolve]) with hrefused | ⟨task, htask, hr, he₁⟩
      · exact .inl hrefused
      · exact .inr ⟨⟨e.nextTicket, e.generation, task⟩, hr, rfl, rfl, (fun c' hc' => by cases hc'; exact htask), he₁⟩
  | undo f =>
      obtain ⟨e₁, r, hs⟩ : ∃ e₁ r, e.undo f = (e₁, r) := ⟨_, _, rfl⟩
      simp only [Engine.apply, ticketOf, hs]
      rcases submit_taken (· = .undo f) hs (checked_build fun _ _ => rfl) with
        hrefused | ⟨task, -, hr, he₁⟩
      · exact .inl hrefused
      · exact .inr ⟨⟨e.nextTicket, e.generation, task⟩, hr, rfl, rfl, (fun c' hc' => by cases hc'), he₁⟩
  | redo f =>
      obtain ⟨e₁, r, hs⟩ : ∃ e₁ r, e.redo f = (e₁, r) := ⟨_, _, rfl⟩
      simp only [Engine.apply, ticketOf, hs]
      rcases submit_taken (· = .redo f) hs (checked_build fun _ _ => rfl) with
        hrefused | ⟨task, -, hr, he₁⟩
      · exact .inl hrefused
      · exact .inr ⟨⟨e.nextTicket, e.generation, task⟩, hr, rfl, rfl, (fun c' hc' => by cases hc'), he₁⟩
  | jump target =>
      obtain ⟨e₁, r, hs⟩ : ∃ e₁ r, e.jump target = (e₁, r) := ⟨_, _, rfl⟩
      simp only [Engine.apply, ticketOf, hs]
      have hres := submit_taken (fun _ => True) hs
      rcases hres (by
          intro e' task hb
          simp only [Except.ok.injEq, Prod.mk.injEq] at hb
          obtain ⟨rfl, rfl⟩ := hb
          simp [Job.waiting]) with hrefused | ⟨task, -, hr, he₁⟩
      · exact .inl hrefused
      · exact .inr ⟨⟨e.nextTicket, e.generation, task⟩, hr, rfl, rfl, (fun c' hc' => by cases hc'), he₁⟩
  | _ => simp [Input.isSubmission] at hx

/-- A caller that submits nothing keeps the replies; every one but a clear keeps the pending list
and the generation. -/
theorem books_control (e : Engine α) {x : Input α} (hx : x.isCaller) (hsub : x.isSubmission = false)
    (hclear : x ≠ .clear) :
    (e.apply x).replies = e.replies ∧ (e.apply x).pending = e.pending ∧
      (e.apply x).generation = e.generation := by
  cases x with
  | setUndoLimit limit =>
      simp only [Engine.apply]
      rw [setUndoLimit_eq]
      exact ⟨rfl, rfl, rfl⟩
  | setActive stack =>
      simp only [Engine.apply]
      rw [setActive_eq]
      exact ⟨rfl, rfl, rfl⟩
  | route scope stack =>
      simp only [Engine.apply]
      split
      · rename_i e' hroute
        rw [(route_eq hroute).2.2.2]
        exact ⟨rfl, rfl, rfl⟩
      · exact ⟨rfl, rfl, rfl⟩
  | shutdown => exact ⟨rfl, rfl, rfl⟩
  | clear => exact absurd rfl hclear
  | pickUp => cases hx
  | resume reports outcome => cases hx
  | reporter serial act => cases hx
  | halt => cases hx
  | enqueue c => cases hsub
  | undo filter => cases hsub
  | redo filter => cases hsub
  | jump target => cases hsub

/-! ### The books -/

/-- The books of the queue, against the tickets `acc` handed out so far and the tickets `ran` of the
action runs that returned: the tickets rise and are, in order, those of the finished jobs, of the job
in flight and of the queued jobs; the runs returned in ticket order, each for a job taken and none
for a job after the one in flight; and the pending list is the queued commands of the current
generation. -/
structure Books (acc ran : List Nat) (e : Engine α) : Prop where
  tickets : e.tickets = acc
  rising : acc.Pairwise (· < ·)
  below : ∀ t ∈ acc, t < e.nextTicket
  ran_sorted : ran.Pairwise (· ≤ ·)
  ran_taken : ∀ t ∈ ran, t ∈ acc
  ran_before : ∀ t ∈ ran, ∀ t' ∈ (e.busy.map (·.ticket)).toList ++ e.queue.map (·.ticket), t ≤ t'
  pending : e.pending = e.queue.filterMap (Job.waiting e.generation)

theorem filter_waiting (g t : Nat) {jobs : List (Job α)} (hlater : ∀ job ∈ jobs, t < job.ticket) :
    (jobs.filterMap (Job.waiting g)).filter (·.ticket != t) = jobs.filterMap (Job.waiting g) := by
  apply List.filter_eq_self.mpr
  intro p hp
  obtain ⟨job, hjob, hwait⟩ := List.mem_filterMap.mp hp
  have hlt := hlater job hjob
  rw [Job.ticket_of_waiting hwait]
  simpa using Nat.ne_of_gt hlt

theorem Books.pending_below {acc ran : List Nat} {e : Engine α} (h : e.Books acc ran) :
    ∀ q ∈ e.pending, q.ticket < e.nextTicket := by
  intro q hq
  rw [h.pending] at hq
  obtain ⟨job, hjob, hwait⟩ := List.mem_filterMap.mp hq
  rw [Job.ticket_of_waiting hwait]
  apply h.below
  rw [← h.tickets]
  unfold Engine.tickets
  exact List.mem_append_right _ (List.mem_map_of_mem hjob)

theorem Books.submission {acc ran : List Nat} {e : Engine α} (h : e.Books acc ran) {x : Input α}
    (hx : x.isSubmission) : (e.apply x).Books (acc ++ (e.ticketOf x).toList) ran := by
  rcases submission_cases e hx with ⟨hnone, n, p, hn, happ, hp⟩ | ⟨job, hsome, hticket, hgen, -, happ⟩
  · have hfresh : ∀ q ∈ e.pending, q.ticket ≠ e.nextTicket := fun q hq => Nat.ne_of_lt (h.pending_below q hq)
    rw [hnone, happ, hp hfresh, Option.toList_none, List.append_nil]
    exact { h with
      tickets := h.tickets
      below := fun t ht => Nat.lt_of_lt_of_le (h.below t ht) hn }
  rw [hsome, happ, Option.toList_some]
  refine
    { tickets := ?_, rising := ?_, below := ?_, ran_sorted := h.ran_sorted,
      ran_taken := fun t ht => List.mem_append_left _ (h.ran_taken t ht), ran_before := ?_,
      pending := ?_ }
  · rw [← h.tickets]
    simp [Engine.tickets, hticket]
  · exact List.pairwise_append.mpr ⟨h.rising, List.pairwise_singleton _ _,
      fun t ht t' ht' => List.mem_singleton.mp ht' ▸ h.below t ht⟩
  · intro t ht
    rcases List.mem_append.mp ht with hold | hnew
    · exact Nat.lt_succ_of_lt (h.below t hold)
    · rw [List.mem_singleton.mp hnew]
      exact Nat.lt_succ_self _
  · -- the new job's ticket is above every ticket taken before
    intro t ht t' ht'
    simp only [List.map_append, List.map_singleton] at ht'
    rcases List.mem_append.mp ht' with hbusy | hrest
    · exact h.ran_before t ht t' (List.mem_append_left _ hbusy)
    rcases List.mem_append.mp hrest with hqueue | hnew
    · exact h.ran_before t ht t' (List.mem_append_right _ hqueue)
    · rw [List.mem_singleton.mp hnew, hticket]
      exact Nat.le_of_lt (h.below t (h.ran_taken t ht))
  · show e.pending ++ (job.waiting e.generation).toList =
      (e.queue ++ [job]).filterMap (Job.waiting e.generation)
    rw [List.filterMap_append, ← h.pending]
    cases hw : job.waiting e.generation <;> simp [hw]

theorem Books.control {acc ran : List Nat} {e : Engine α} (h : e.Books acc ran) (hinv : e.Invariant)
    {x : Input α} (hx : x.isCaller) (hsub : x.isSubmission = false) : (e.apply x).Books acc ran := by
  obtain ⟨hjobs, hnext, -⟩ := apply_control e hx hsub
  by_cases hclear : x = .clear
  · -- the queue keeps only jobs of older generations, which have no pending entry
    subst hclear
    have hnone : e.queue.filterMap (Job.waiting (e.generation + 1)) = [] := by
      apply List.filterMap_eq_nil_iff.mpr
      intro job hjob
      have hold := hinv.queue_generation job hjob
      unfold Job.waiting
      split
      · rw [if_neg (by omega)]
      · rfl
    refine { h with tickets := ?_, below := ?_, ran_before := ?_, pending := ?_ }
    · rw [← h.tickets]
      rfl
    · exact h.below
    · exact h.ran_before
    · exact hnone.symm
  obtain ⟨hreplies, hpending, hgen⟩ := books_control e hx hsub hclear
  refine { h with tickets := ?_, below := ?_, ran_before := ?_, pending := ?_ }
  · rw [← h.tickets]
    simp [Engine.tickets, hreplies, hjobs.busy, hjobs.queue]
  · exact hnext ▸ h.below
  · exact hjobs.busy ▸ hjobs.queue ▸ h.ran_before
  · rw [hpending, hjobs.queue, hgen]
    exact h.pending

theorem Books.pickUp {acc ran : List Nat} {e : Engine α} (h : e.Books acc ran) :
    e.pickUp.Books acc ran := by
  rcases pickUp_cases e with hp | ⟨job, rest, hbusy, hqueue, hp⟩
  · rw [hp]
    exact h
  rw [hp]
  set e₁ : Engine α := { e with queue := rest, inFlight := true } with he₁
  have hcont := continues_begin e₁ job
  have hsame := SameSetup.begin e₁ job
  have hq : (e₁.begin job).queue = rest := queue_begin e₁ job
  -- the head's ticket is below those of the jobs behind it
  have hold : e.tickets = e.replies.map (·.ticket) ++ job.ticket :: rest.map (·.ticket) := by
    simp [Engine.tickets, hbusy, hqueue]
  have hlater : ∀ j ∈ rest, job.ticket < j.ticket := by
    have hr := h.rising
    rw [← h.tickets, hold, List.pairwise_append, List.pairwise_cons] at hr
    exact fun j hj => hr.2.1.1 j.ticket (List.mem_map_of_mem hj)
  refine { h with tickets := ?_, below := ?_, ran_before := ?_, pending := ?_ }
  · rw [← h.tickets, hcont.tickets, hold, hq]
    simp [he₁]
  · exact hsame.nextTicket ▸ h.below
  · intro t ht t' ht'
    apply h.ran_before t ht t'
    rw [hbusy, hqueue]
    rw [hq] at ht'
    rcases hcont with ⟨hnone, -⟩ | ⟨b, hb, hbt, -⟩
    · rw [hnone] at ht'
      exact List.mem_append_right _ (List.mem_cons_of_mem _ (by simpa using ht'))
    · rw [hb] at ht'
      simp only [Option.map_some, Option.toList_some, List.singleton_append, List.mem_cons] at ht'
      rcases ht' with rfl | hrest
      · simp [hbt]
      · simp [hrest]
  · rw [(pending_begin e₁ job), hq, hsame.generation, h.pending, hqueue]
    simp only [he₁, List.filterMap_cons]
    cases hwait : job.waiting e.generation with
    | none => simp
    | some p =>
        have hp : p.ticket = job.ticket := Job.ticket_of_waiting hwait
        simp [hp, filter_waiting e.generation job.ticket hlater]

theorem Books.resume {acc ran : List Nat} {e : Engine α} (h : e.Books acc ran) (reports : List ProgressEvent)
    (outcome : Outcome) :
    (e.resume reports outcome).Books acc (ran ++ (e.ranTicketOf (.resume reports outcome)).toList) := by
  cases hbusy : e.busy with
  | none =>
      rw [resume_idle hbusy]
      simpa [ranTicketOf, hbusy] using h
  | some b =>
      obtain ⟨hpending, hcont⟩ := books_resume hbusy reports outcome
      have hsame := SameSetup.resume e reports outcome
      have hq := queue_resume e reports outcome
      have hold : e.tickets = e.replies.map (·.ticket) ++ b.ticket :: e.queue.map (·.ticket) := by
        simp [Engine.tickets, hbusy]
      have hmem : b.ticket ∈ acc := by
        rw [← h.tickets, hold]
        simp
      have hlater : ∀ t' ∈ e.queue.map (·.ticket), b.ticket < t' := by
        have hr := h.rising
        rw [← h.tickets, hold, List.pairwise_append, List.pairwise_cons] at hr
        exact hr.2.1.1
      have hran : ∀ t ∈ ran, t ≤ b.ticket := fun t ht => h.ran_before t ht b.ticket (by simp [hbusy])
      simp only [ranTicketOf, hbusy, Option.map_some, Option.toList_some]
      refine { h with tickets := ?_, below := ?_, ran_sorted := ?_, ran_taken := ?_,
                      ran_before := ?_, pending := ?_ }
      · rw [← h.tickets, hcont.tickets, hold, hq]
        simp
      · exact hsame.nextTicket ▸ h.below
      · exact List.pairwise_append.mpr ⟨h.ran_sorted, List.pairwise_singleton _ _,
          fun t ht t' ht' => List.mem_singleton.mp ht' ▸ hran t ht⟩
      · intro t ht
        rcases List.mem_append.mp ht with hold | hnew
        · exact h.ran_taken t hold
        · exact List.mem_singleton.mp hnew ▸ hmem
      · -- what stays is the job in flight and the queue behind it
        have hafter : ∀ t' ∈ ((e.resume reports outcome).busy.map (·.ticket)).toList ++
            (e.resume reports outcome).queue.map (·.ticket), b.ticket ≤ t' := by
          intro t' ht'
          rw [hq] at ht'
          rcases List.mem_append.mp ht' with hb' | hqueue
          · rcases hcont with ⟨hnone, -⟩ | ⟨b', hb'', hbt, -⟩
            · simp [hnone] at hb'
            · simp only [hb'', Option.map_some, Option.toList_some, List.mem_singleton] at hb'
              rw [hb', hbt]
          · exact Nat.le_of_lt (hlater t' hqueue)
        intro t ht t' ht'
        rcases List.mem_append.mp ht with hran' | hnew
        · exact Nat.le_trans (hran t hran') (hafter t' ht')
        · exact List.mem_singleton.mp hnew ▸ hafter t' ht'
      · rw [hpending, hq, hsame.generation]
        exact h.pending

theorem Books.handle {acc ran : List Nat} {e : Engine α} (h : e.Books acc ran) (k : Nat) (act : Handling) :
    (e.handle k act).Books acc ran := by
  obtain ⟨evs, rs, extra, hx⟩ := handle_eq e k act
  have hbusy : (e.busy.map fun b => { b with progress := b.progress ++ extra }).map (·.ticket) =
      e.busy.map (·.ticket) := by
    cases e.busy <;> rfl
  rw [hx]
  exact { h with
    tickets := by rw [← h.tickets]; simp only [Engine.tickets, hbusy]
    ran_before := by simpa only [hbusy] using h.ran_before }

theorem Books.halt {acc ran : List Nat} {e : Engine α} (h : e.Books acc ran) : e.halt.Books acc ran := by
  obtain ⟨receiving, hx⟩ := halt_eq e
  rw [hx]
  exact { h with }

@[simp] theorem ticketOf_worker (e : Engine α) {x : Input α} (hx : x.isCaller = false) :
    e.ticketOf x = none := by
  cases x <;> first | rfl | cases hx

@[simp] theorem ranTicketOf_caller (e : Engine α) {x : Input α} (hx : x.isCaller) :
    e.ranTicketOf x = none := by
  cases x <;> first | rfl | cases hx

theorem ticketOf_control (e : Engine α) {x : Input α} (hsub : x.isSubmission = false) :
    e.ticketOf x = none := by
  cases x <;> first | rfl | cases hsub

/-- **Every input keeps the books**, the tickets it hands out and the run it returns added. -/
theorem Books.apply {acc ran : List Nat} {e : Engine α} (h : e.Books acc ran) (hinv : e.Invariant)
    (x : Input α) :
    (e.apply x).Books (acc ++ (e.ticketOf x).toList) (ran ++ (e.ranTicketOf x).toList) := by
  cases hcaller : x.isCaller
  · rw [ticketOf_worker e hcaller, Option.toList_none, List.append_nil]
    cases x with
    | pickUp =>
        rw [show e.ranTicketOf .pickUp = none from rfl, Option.toList_none, List.append_nil]
        exact h.pickUp
    | resume reports outcome => exact h.resume reports outcome
    | reporter serial act =>
        rw [show e.ranTicketOf (.reporter serial act) = none from rfl, Option.toList_none, List.append_nil]
        exact h.handle serial act
    | halt =>
        rw [show e.ranTicketOf .halt = none from rfl, Option.toList_none, List.append_nil]
        exact h.halt
    | _ => cases hcaller
  rw [ranTicketOf_caller e hcaller, Option.toList_none, List.append_nil]
  cases hsub : x.isSubmission
  · rw [ticketOf_control e hsub, Option.toList_none, List.append_nil]
    exact h.control hinv hcaller hsub
  · exact h.submission hsub

theorem Books.run {acc ran : List Nat} {e : Engine α} (h : e.Books acc ran) (hinv : e.Invariant)
    (xs : List (Input α)) : (e.run xs).Books (acc ++ e.accepted xs) (ran ++ e.ranTickets xs) := by
  induction xs generalizing e acc ran with
  | nil => simpa [accepted, ranTickets] using h
  | cons x xs ih =>
      simpa [accepted, ranTickets, List.append_assoc] using ih (h.apply hinv x) (hinv.apply x)

theorem books_create {c : Config} {e₀ : Engine α} (hcreate : Engine.create c = .ok e₀) :
    e₀.Books [] [] := by
  obtain ⟨r, f, routes, -, -, -, rfl⟩ := create_eq hcreate
  exact
    { tickets := rfl
      rising := List.Pairwise.nil
      below := fun t ht => by cases ht
      ran_sorted := List.Pairwise.nil
      ran_taken := fun t ht => by cases ht
      ran_before := fun t ht => by cases ht
      pending := rfl }

/-- On routes of specific scopes, the first route meeting a specific scope is the first that shares
a bit with it. -/
theorem find?_meets {routes : List (Scope × String)} (hroutes : ∀ r ∈ routes, r.1.isAll = false)
    {scope : Scope} (hall : scope.isAll = false) :
    routes.find? (fun r => r.1.meets scope) = routes.find? fun r => r.1.bits &&& scope.bits != 0 := by
  induction routes with
  | nil => rfl
  | cons r routes ih =>
      have hr : r.1.meets scope = (r.1.bits &&& scope.bits != 0) :=
        Scope.meets_of_specific (hroutes r (List.mem_cons_self ..)) hall
      simp only [List.find?_cons, hr, ih fun r' h' => hroutes r' (List.mem_cons_of_mem _ h')]

/-- **Where a command goes.** With routes of specific scopes, a command goes to its own stack if it
names one; else a command of the wildcard scope goes to the active stack, and any other to the first
route whose scope shares a bit with its scope, else to the active stack. -/
theorem resolve_eq {e : Engine α} (hroutes : ∀ r ∈ e.routes, r.1.isAll = false) (c : Command α) :
    e.resolve c = c.stack.getD
      (if c.scope.isAll then e.active
       else ((e.routes.find? fun r => r.1.bits &&& c.scope.bits != 0).map (·.2)).getD e.active) := by
  unfold resolve
  cases hstack : c.stack with
  | some s => rfl
  | none =>
      cases hall : c.scope.isAll with
      | true => rfl
      | false =>
          simp only [Option.getD_none, Bool.false_eq_true, if_false]
          rw [← find?_meets hroutes hall]
          split
          next _ stack hf => rw [hf]; rfl
          next hf => rw [hf]; rfl

/-- An accepted command goes last in the queue, of the current generation and with the stack it
resolves to, and its entry goes last in the pending list; its ticket is the next one. -/
theorem enqueue_accepted (e : Engine α) {c : Command α} {t : Nat}
    (ht : e.ticketOf (.enqueue c) = some t) :
    t = e.nextTicket ∧
      (e.apply (.enqueue c)).queue = e.queue ++ [⟨t, e.generation, .execute c (e.resolve c)⟩] ∧
      (e.apply (.enqueue c)).pending = e.pending ++ [⟨t, c.text, c.scope, e.resolve c⟩] := by
  rcases submission_cases e (x := .enqueue c) rfl with ⟨hnone, -⟩ | ⟨job, hticket, hjt, hjg, hjc, happly⟩
  · rw [hnone] at ht
    cases ht
  obtain rfl : t = e.nextTicket := Option.some.inj (ht.symm.trans hticket)
  have hjob : job = ⟨e.nextTicket, e.generation, .execute c (e.resolve c)⟩ := by
    cases job with
    | mk ticket generation task =>
        dsimp only at hjt hjg hjc
        rw [hjt, hjg, hjc c rfl]
  refine ⟨rfl, by rw [happly, hjob], ?_⟩
  rw [happly, hjob]
  simp [Job.waiting]

/-- **A command the worker can no longer take.** While submissions are open but the worker's task
has ended, a valid command uses up its ticket and is answered that the engine is shut down: the
count it took goes back and its pending entry is dropped, so nothing else changes. -/
theorem enqueue_unreceived (e : Engine α) (cmd : Command α) (hopen : e.accepting = true)
    (hlost : e.receiving = false) (hvalid : e.registry.validate cmd.scope = .ok ())
    (hfresh : ∀ q ∈ e.pending, q.ticket ≠ e.nextTicket) :
    e.enqueue cmd = ({ e with nextTicket := e.nextTicket + 1 }, .error .engineShutdown) := by
  unfold enqueue submit
  simpa [hopen, hvalid, hlost, bind, Except.bind, pure, Except.pure] using hfresh

namespace Books

variable {acc ran : List Nat} {e : Engine α}

theorem length_eq (h : e.Books acc ran) :
    e.replies.length + e.busy.toList.length + e.queue.length = acc.length := by
  have hlen := congrArg List.length h.tickets
  have hbusy : ((e.busy.map (·.ticket)).toList).length = e.busy.toList.length := by
    cases e.busy <;> rfl
  simpa only [Engine.tickets, List.length_append, List.length_map, hbusy] using hlen

theorem running_eq (h : e.Books acc ran) (hc : e.Counted) : e.running = acc.length - e.replies.length := by
  have hlen := h.length_eq
  rw [hc.running]
  omega

theorem isRunning_iff (h : e.Books acc ran) (hc : e.Counted) :
    e.isRunning = true ↔ e.replies.length < acc.length := by
  have hlen := h.length_eq
  unfold isRunning
  rw [hc.running, decide_eq_true_iff]
  omega

theorem queued_eq (h : e.Books acc ran) (f : Scope) :
    e.queued f = ((e.queue.filterMap (Job.waiting e.generation)).filter fun p =>
      p.stack == e.active && f.meets p.scope).map (·.text) := by
  rw [queued, h.pending]

end Books

/-- **Submission bookkeeping.** From a created engine, through any run of inputs: the tickets
handed out rise in the order the submissions are taken, and they are, in order, those of the answered
jobs, of the job in flight and of the queued jobs, so the worker takes jobs in ticket order, one at a
time; the tickets it runs never go back, each was handed out, and none passes a job still in flight or
queued. The pending list is, in ticket order, the queued command jobs of the current generation with
the stacks they were sent to; a command the engine takes is queued, and listed as pending, with the
stack it resolves to at that moment: its own, else the active one for the wildcard scope, else the
first route sharing a bit with its scope, else the active one; so the queued texts of a filter are
those pending entries on the active stack it meets. The running count is the number of taken jobs
with no reply, the queued ones and the one in flight; the in-flight flag is up exactly while a job is
in flight; the engine is running exactly while a taken job has no reply, and its activity says
whether a job is in flight or only queued. A command sent once the worker's task has ended uses up
its ticket and is answered that the engine is shut down, leaving the count and the pending list as
they were. -/
theorem submission_bookkeeping {c : Config} {e₀ : Engine α} (hcreate : Engine.create c = .ok e₀)
    (hkeys : (c.routes.map Prod.fst).Nodup) (xs : List (Input α)) :
    let e := e₀.run xs
    (e₀.accepted xs).Pairwise (· < ·) ∧
      e.replies.map (·.ticket) ++ (e.busy.map (·.ticket)).toList ++ e.queue.map (·.ticket) =
        e₀.accepted xs ∧
      (e₀.ranTickets xs).Pairwise (· ≤ ·) ∧
      (∀ t ∈ e₀.ranTickets xs, t ∈ e₀.accepted xs ∧
        ∀ t' ∈ (e.busy.map (·.ticket)).toList ++ e.queue.map (·.ticket), t ≤ t') ∧
      e.pending = e.queue.filterMap (Job.waiting e.generation) ∧
      (∀ cmd t, e.ticketOf (.enqueue cmd) = some t →
        (∀ t' ∈ e₀.accepted xs, t' < t) ∧
          (e.apply (.enqueue cmd)).queue = e.queue ++ [⟨t, e.generation, .execute cmd (e.resolve cmd)⟩] ∧
          (e.apply (.enqueue cmd)).pending = e.pending ++ [⟨t, cmd.text, cmd.scope, e.resolve cmd⟩]) ∧
      (∀ cmd : Command α, e.resolve cmd = cmd.stack.getD
        (if cmd.scope.isAll then e.active
         else ((e.routes.find? fun r => r.1.bits &&& cmd.scope.bits != 0).map (·.2)).getD e.active)) ∧
      (∀ f, e.queued f = ((e.queue.filterMap (Job.waiting e.generation)).filter fun p =>
        p.stack == e.active && f.meets p.scope).map (·.text)) ∧
      e.replies.length ≤ (e₀.accepted xs).length ∧
      (e₀.accepted xs).length - e.replies.length = e.queue.length + e.busy.toList.length ∧
      e.running = (e₀.accepted xs).length - e.replies.length ∧ e.inFlight = e.busy.isSome ∧
      (e.isRunning = true ↔ e.replies.length < (e₀.accepted xs).length) ∧
      e.activity = (if e.busy.isSome then .executing else if e.queue.isEmpty then .idle else .scheduling) ∧
      ∀ cmd : Command α, e.accepting = true → e.receiving = false → e.registry.validate cmd.scope = .ok () →
        e.enqueue cmd = ({ e with nextTicket := e.nextTicket + 1 }, .error .engineShutdown) := by
  intro e
  have hbooks : e.Books (e₀.accepted xs) (e₀.ranTickets xs) := by
    simpa using (books_create hcreate).run (invariant_create hcreate) xs
  have hcounted : e.Counted := (counted_create hcreate).run xs
  have hroutes : ∀ r ∈ e.routes, r.1.isAll = false :=
    fun r hr => (((routesValid_create hcreate hkeys).run xs).valid r hr).2.1
  have hlen := hbooks.length_eq
  refine ⟨hbooks.rising, hbooks.tickets, hbooks.ran_sorted,
    fun t ht => ⟨hbooks.ran_taken t ht, hbooks.ran_before t ht⟩, hbooks.pending,
    fun cmd t ht => ?_, resolve_eq hroutes, hbooks.queued_eq, by omega, by omega,
    hbooks.running_eq hcounted, hcounted.inFlight, hbooks.isRunning_iff hcounted, hcounted.activity_eq,
    fun cmd hopen hlost hvalid => ?_⟩
  · obtain ⟨rfl, hqueue, hpending⟩ := enqueue_accepted e ht
    exact ⟨hbooks.below, hqueue, hpending⟩
  · exact enqueue_unreceived e cmd hopen hlost hvalid fun q hq => Nat.ne_of_lt (hbooks.pending_below q hq)

/-- The bookkeeping on an engine made from the empty configuration, after a command was taken and
picked up, the worker's task then ended with nothing left, and a second command was sent. -/
theorem submission_bookkeeping_default :
    let xs : List (Input Unit) := [.enqueue { id := 1, text := "add", action := () }, .pickUp,
      .resume [] (.ok .null), .halt, .enqueue { id := 2, text := "late", action := () }]
    ∃ e₀ : Engine Unit, Engine.create ({} : Config) = .ok e₀ ∧
      (([] : List (Scope × String)).map Prod.fst).Nodup ∧
      let e := e₀.run xs
      (e₀.accepted xs).Pairwise (· < ·) ∧
        e.replies.map (·.ticket) ++ (e.busy.map (·.ticket)).toList ++ e.queue.map (·.ticket) =
          e₀.accepted xs ∧
        (e₀.ranTickets xs).Pairwise (· ≤ ·) ∧
        (∀ t ∈ e₀.ranTickets xs, t ∈ e₀.accepted xs ∧
          ∀ t' ∈ (e.busy.map (·.ticket)).toList ++ e.queue.map (·.ticket), t ≤ t') ∧
        e.pending = e.queue.filterMap (Job.waiting e.generation) ∧
        (∀ cmd t, e.ticketOf (.enqueue cmd) = some t →
          (∀ t' ∈ e₀.accepted xs, t' < t) ∧
            (e.apply (.enqueue cmd)).queue = e.queue ++ [⟨t, e.generation, .execute cmd (e.resolve cmd)⟩] ∧
            (e.apply (.enqueue cmd)).pending = e.pending ++ [⟨t, cmd.text, cmd.scope, e.resolve cmd⟩]) ∧
        (∀ cmd : Command Unit, e.resolve cmd = cmd.stack.getD
          (if cmd.scope.isAll then e.active
           else ((e.routes.find? fun r => r.1.bits &&& cmd.scope.bits != 0).map (·.2)).getD e.active)) ∧
        (∀ f, e.queued f = ((e.queue.filterMap (Job.waiting e.generation)).filter fun p =>
          p.stack == e.active && f.meets p.scope).map (·.text)) ∧
        e.replies.length ≤ (e₀.accepted xs).length ∧
        (e₀.accepted xs).length - e.replies.length = e.queue.length + e.busy.toList.length ∧
        e.running = (e₀.accepted xs).length - e.replies.length ∧ e.inFlight = e.busy.isSome ∧
        (e.isRunning = true ↔ e.replies.length < (e₀.accepted xs).length) ∧
        e.activity = (if e.busy.isSome then .executing else if e.queue.isEmpty then .idle else .scheduling) ∧
        ∀ cmd : Command Unit, e.accepting = true → e.receiving = false → e.registry.validate cmd.scope = .ok () →
          e.enqueue cmd = ({ e with nextTicket := e.nextTicket + 1 }, .error .engineShutdown) := by
  intro xs
  have hcreate : Engine.create ({} : Config) =
      .ok ({ registry := {}, defaultStack := "default", undoLimit := 0, capacity := 1024,
             histories := [Stack.empty "default"], active := "default", routes := [] } : Engine Unit) := rfl
  exact ⟨_, hcreate, List.nodup_nil, submission_bookkeeping hcreate List.nodup_nil xs⟩

end Engine

end ScopedUndo
