import ScopedUndo.Proofs.Engine.History
/-!
# Statuses agree with the cursor

A command's status is applied after its last successful forward run and reversed after a successful
reverse run. In any interleaving of callers and the worker in which each command is enqueued once,
statuses and cursors tell the same story: at rest, a command of a history is applied exactly when it
lies before the cursor (`status_agrees_with_cursor`).

The invariant is `Engine.Agrees`. Its centre is the job in flight: while its action runs, callers
may trim or clear the stacks, and when the run returns the worker must move the cursor over the
right command or not at all. What makes the worker's test right is that trimming keeps a command at
the same distance from the cursor (`Stack.getElem?_truncate`, `Busy.Crosses.shift`), so the command
a job crosses has either left its history or is still the cursor's neighbour on its side. Ids sit at
one position each (`Agrees.unique`), which lets an id stand for its command; commands come in fresh
through the queue, and `seen`, the ids enqueued so far, keeps count of that.

Callers are handled once by `Agrees.of_shrinks`; a returned run by `Agrees.resume_record` and
`Agrees.resume_cursor`. The latter reads the run through `Agrees.resume_cursor_cases`, which also
says where the cursor goes at the end of a step (`Agrees.cursor_resume`).
-/

namespace ScopedUndo

namespace Stack

variable {α : Type}

/-- The status at rest of the command at a position of the history: applied while it is done,
reversed once undone. -/
def sideAt (s : Stack α) (i : Nat) : Status :=
  if i < s.applied then .applied else .reversed

theorem sideAt_shift {s t : Stack α} (hle : t.applied ≤ s.applied) (j : Nat) :
    t.sideAt j = s.sideAt (j + (s.applied - t.applied)) := by
  unfold sideAt
  by_cases hj : j < t.applied
  · rw [if_pos hj, if_pos (by omega)]
  · rw [if_neg hj, if_neg (by omega)]

theorem finish_sideAt (s : Stack α) (i : Nat) (onSuccess : Status) :
    (s.sideAt i).finish false onSuccess = s.sideAt i := by
  unfold sideAt
  split_ifs <;> rfl

/-- Trimming keeps each remaining command as many places nearer the front as the cursor moved
back. -/
theorem getElem?_truncate {s : Stack α} (limit : Nat) (hb : s.Bounded) :
    (s.truncate limit).1.applied ≤ s.applied ∧ ∀ j c, (s.truncate limit).1.commands[j]? = some c →
      s.commands[j + (s.applied - (s.truncate limit).1.applied)]? = some c := by
  obtain ⟨k, m, hk, -, -, -, htrunc⟩ := s.truncate_eq limit hb
  rw [htrunc]
  refine ⟨Nat.sub_le _ _, fun j c hc => ?_⟩
  have hshift : s.applied - (s.applied - k) = k := by omega
  simp only [hshift]
  simp only [List.getElem?_take, List.getElem?_drop] at hc
  split_ifs at hc
  rw [Nat.add_comm]
  exact hc

theorem getElem?_push {s : Stack α} {c d : Command α} {j : Nat} (hb : s.Bounded)
    (h : (s.push c).commands[j]? = some d) :
    (j < s.applied ∧ s.commands[j]? = some d) ∨ (j = s.applied ∧ d = c) := by
  have hlen : (s.commands.take s.applied).length = s.applied := s.length_done hb
  rw [commands_push, List.getElem?_append] at h
  split_ifs at h with hj
  · rw [hlen] at hj
    rw [List.getElem?_take_of_lt hj] at h
    exact .inl ⟨hj, h⟩
  · rw [hlen] at hj h
    cases hn : j - s.applied with
    | zero =>
        simp only [hn, List.getElem?_cons_zero, Option.some.injEq] at h
        exact .inr ⟨by omega, h.symm⟩
    | succ n => simp [hn] at h

theorem lt_applied_of_record {s : Stack α} {c d : Command α} (limit : Nat) (hb : s.Bounded) {j : Nat}
    (h : ((s.push c).truncate limit).1.commands[j]? = some d) :
    j < ((s.push c).truncate limit).1.applied := by
  have hpb := hb.push c
  have hfull : (s.push c).applied = (s.push c).count := by
    have hlen : (s.commands.take s.applied).length = s.applied := s.length_done hb
    simp [count, commands_push, applied_push, hlen]
  obtain ⟨k, m, hk, hm, hkm, -, htrunc⟩ := (s.push c).truncate_eq limit hpb
  rw [htrunc] at h ⊢
  show j < (s.push c).applied - k
  have hj := (List.getElem?_eq_some_iff.mp h).1
  simp only [List.length_take, List.length_drop] at hj
  simp only [count] at hfull hkm
  omega

end Stack

/-- The job in flight would cross the command at position `i` of `s`: the one right before the
cursor of its stack for an undo, the one right after it for a redo. -/
def Busy.Crosses {α : Type} (b : Busy α) (s : Stack α) (i : Nat) : Prop :=
  s.id = b.sequel.stack ∧
    ((b.call.operation = .undo ∧ i + 1 = s.applied) ∨ (b.call.operation = .redo ∧ i = s.applied))

theorem Busy.Crosses.shift {α : Type} {b : Busy α} {s t : Stack α} {j : Nat}
    (h : b.Crosses s (j + (s.applied - t.applied))) (hid : s.id = t.id) (hle : t.applied ≤ s.applied) :
    b.Crosses t j := by
  obtain ⟨hstack, ⟨hundo, hi⟩ | ⟨hredo, hi⟩⟩ := h
  · exact ⟨hid ▸ hstack, .inl ⟨hundo, by omega⟩⟩
  · exact ⟨hid ▸ hstack, .inr ⟨hredo, by omega⟩⟩

theorem Busy.Crosses.neighbour {α : Type} {b : Busy α} {s : Stack α} {i : Nat} (h : b.Crosses s i)
    (hget : s.commands[i]? = some b.call.command) :
    (if b.call.operation == .redo then s.redoCommand? else s.undoCommand?) = some b.call.command := by
  obtain ⟨-, ⟨hundo, hi⟩ | ⟨hredo, rfl⟩⟩ := h
  · have happlied : s.applied ≠ 0 := by omega
    simp [hundo, Stack.undoCommand?, happlied, show s.applied - 1 = i by omega, hget]
  · simp [hredo, Stack.redoCommand?, hget]

/-- Stepping the cursor over the command a job crosses moves that command, and no other, to the
other side: it is reversed after an undo and applied after a redo. -/
theorem Busy.Crosses.sideAt_step {α : Type} {b : Busy α} {s : Stack α} {i : Nat} (h : b.Crosses s i)
    (hget : s.commands[i]? = some b.call.command) (j : Nat) :
    (if b.call.operation == .redo then s.stepForward else s.stepBackward).1.sideAt j =
      if j = i then b.call.operation.direction.success else s.sideAt j := by
  have hneighbour := h.neighbour hget
  obtain ⟨-, ⟨hundo, hi⟩ | ⟨hredo, rfl⟩⟩ := h
  · simp only [hundo, reduceCtorEq, beq_iff_eq, if_false] at hneighbour ⊢
    rw [Stack.stepBackward_of_undoCommand? hneighbour]
    unfold Stack.sideAt
    dsimp only
    split_ifs <;> first | rfl | omega
  · simp only [hredo, beq_self_eq_true, if_true] at hneighbour ⊢
    rw [Stack.stepForward_of_redoCommand? hneighbour]
    unfold Stack.sideAt
    dsimp only
    split_ifs <;> first | rfl | omega

def Job.executes? {α : Type} : Job α → Option Nat
  | ⟨_, _, .execute c _⟩ => some c.id
  | _ => none

theorem Job.executes?_execute {α : Type} {job : Job α} {c : Command α} {stack : String}
    (h : job.task = .execute c stack) : job.executes? = some c.id := by
  obtain ⟨t, g, task⟩ := job
  dsimp only at h
  subst h
  rfl

namespace Engine

variable {α : Type}

/-- A command sits at a position of one of the engine's histories. -/
def At (e : Engine α) (s : Stack α) (i : Nat) (c : Command α) : Prop :=
  s ∈ e.histories ∧ s.commands[i]? = some c

/-- The status a command has at rest: for the command in flight, the one it had before its run. -/
def restingStatus (e : Engine α) (x : Nat) : Status :=
  match e.busy with
  | some b => if x = b.call.command.id then b.previous else e.statusOf x
  | none => e.statusOf x

def queuedIds (e : Engine α) : List Nat :=
  e.queue.filterMap Job.executes?

def Input.enqueuedId? : Input α → Option Nat
  | .enqueue c => some c.id
  | _ => none

/-- Statuses agree with the cursors. Each command id sits at one position of one history at most;
at rest, a command is applied while it is done and reversed once undone; the command in flight,
if it is still in a history, is the one its job crosses, in the job's generation; and the commands
of queued jobs and of a job executing are new to the histories. `seen` holds every id enqueued. -/
structure Agrees (seen : List Nat) (e : Engine α) : Prop where
  unique : ∀ s i c t j d, e.At s i c → e.At t j d → c.id = d.id → s = t ∧ i = j
  status : ∀ s i c, e.At s i c → e.restingStatus c.id = s.sideAt i
  in_flight : ∀ b, e.busy = some b → ∀ s i c, e.At s i c → c.id = b.call.command.id →
    c = b.call.command ∧ b.generation = e.generation ∧ b.Crosses s i
  queued_nodup : e.queuedIds.Nodup
  queued_fresh : ∀ x ∈ e.queuedIds, ∀ s i c, e.At s i c → c.id ≠ x
  executing_fresh : ∀ b, e.busy = some b → b.call.operation = .execute →
    b.call.command.id ∉ e.queuedIds
  seen_at : ∀ s i c, e.At s i c → c.id ∈ seen
  seen_queued : ∀ x ∈ e.queuedIds, x ∈ seen
  seen_busy : ∀ b, e.busy = some b → b.call.command.id ∈ seen

/-! ### Statuses at rest -/

theorem restingStatus_await (e : Engine α) (t g : Nat) (call : Call α) (sq : Sequel)
    (p : List ProgressEvent) (x : Nat) : (e.await t g call sq p).restingStatus x = e.statusOf x := by
  by_cases hx : x = call.command.id
  · simp [restingStatus, hx]
  · have hother : (e.await t g call sq p).statusOf x = e.statusOf x := by
      rw [await_eq]
      split_ifs
      · rfl
      · exact (statusOf_setStatus e _ _ x).trans (if_neg hx)
    simp [restingStatus, hx, hother]

theorem restingStatus_finish (e : Engine α) (t : Nat) (r : Except Fault Value) (p : List ProgressEvent)
    (x : Nat) : (e.finish t r p).restingStatus x = e.statusOf x := rfl

theorem restingStatus_walk (e : Engine α) (t g : Nat) (stack : String) (wanted : Nat)
    (target : Option Nat) (p : List ProgressEvent) (x : Nat) :
    (e.walk t g stack wanted target p).restingStatus x = e.statusOf x := by
  rcases walk_cases e t g stack wanted target p with ⟨r, h⟩ | ⟨s, c, -, -, h⟩ | ⟨s, c, -, -, h⟩ <;>
    rw [h]
  · exact restingStatus_finish e t r p x
  all_goals exact restingStatus_await _ _ _ _ _ _ x

theorem restingStatus_begin (e : Engine α) (job : Job α) (x : Nat) :
    (e.begin job).restingStatus x = e.statusOf x := by
  rcases begin_cases e job with ⟨r, h⟩ | ⟨-, ⟨c, stack, -, h⟩ | ⟨f, stack, c, -, -, h⟩ |
    ⟨f, stack, c, -, -, h⟩ | ⟨wanted, target, h⟩⟩ <;> rw [h]
  · exact restingStatus_finish e _ r [] x
  · exact restingStatus_await _ _ _ _ _ _ x
  · exact restingStatus_await _ _ _ _ _ _ x
  · exact restingStatus_await _ _ _ _ _ _ x
  · exact restingStatus_walk e _ _ _ _ _ _ x

theorem restingStatus_pickUp (e : Engine α) (x : Nat) : e.pickUp.restingStatus x = e.restingStatus x := by
  rcases pickUp_cases e with h | ⟨job, rest, hbusy, -, h⟩ <;> rw [h]
  rw [restingStatus_begin]
  simp [restingStatus, hbusy, statusOf]

theorem restingStatus_resume {e : Engine α} {b : Busy α} (hbusy : e.busy = some b)
    (reports : List ProgressEvent) (outcome : Outcome) (x : Nat) :
    (e.resume reports outcome).restingStatus x =
      if !b.call.command.skips b.call.operation.direction && x = b.call.command.id then
        b.previous.finish outcome.isOk b.call.operation.direction.success
      else e.statusOf x := by
  obtain ⟨e₁, -, -, -, hstatuses, ⟨r, p, h⟩ | ⟨stack, wanted, target, -, -, -, h⟩⟩ :=
    resume_cases hbusy reports outcome <;> rw [h]
  · rw [restingStatus_finish, ← statusOf_afterRun e b reports]
    simp [statusOf, hstatuses]
  · rw [restingStatus_walk, ← statusOf_afterRun e b reports]
    simp [statusOf, hstatuses]

/-! ### Callers -/

/-- Every command of `e'` sits in `e` as many places further on as the cursor of its stack moved
back: callers only trim, clear and add stacks. -/
def Shrinks (e e' : Engine α) : Prop :=
  ∀ t j d, e'.At t j d → ∃ s, e.At s (j + (s.applied - t.applied)) d ∧ s.id = t.id ∧ t.applied ≤ s.applied

/-- A step that only trims, clears or adds stacks, and leaves the job in flight, the statuses and
the queue alone, keeps the statuses agreeing. -/
theorem Agrees.of_shrinks {seen : List Nat} {e e' : Engine α} (h : e.Agrees seen)
    (hnodup' : (e'.histories.map Stack.id).Nodup)
    (hshrinks : Shrinks e e') (hrest : ∀ x, e'.restingStatus x = e.restingStatus x)
    (hbusy : e'.busy = e.busy) (hgen : ∀ t j d, e'.At t j d → e'.generation = e.generation)
    (hqueue : e'.queuedIds = e.queuedIds) : e'.Agrees seen where
  unique t₁ j₁ d₁ t₂ j₂ d₂ h₁ h₂ hid := by
    obtain ⟨s₁, hs₁, hid₁, -⟩ := hshrinks _ _ _ h₁
    obtain ⟨s₂, hs₂, hid₂, -⟩ := hshrinks _ _ _ h₂
    obtain ⟨rfl, hj⟩ := h.unique _ _ _ _ _ _ hs₁ hs₂ hid
    have ht : t₁ = t₂ := List.inj_on_of_nodup_map hnodup' h₁.1 h₂.1 (hid₁.symm.trans hid₂)
    subst ht
    exact ⟨rfl, by omega⟩
  status t j d hd := by
    obtain ⟨s, hs, -, hle⟩ := hshrinks _ _ _ hd
    rw [hrest, h.status _ _ _ hs, Stack.sideAt_shift hle]
  in_flight b hb t j d hd hid := by
    obtain ⟨s, hs, hsid, hle⟩ := hshrinks _ _ _ hd
    obtain ⟨hc, hgen', hcross⟩ := h.in_flight b (hbusy ▸ hb) _ _ _ hs hid
    exact ⟨hc, hgen'.trans (hgen t j d hd).symm, Busy.Crosses.shift hcross hsid hle⟩
  queued_nodup := hqueue ▸ h.queued_nodup
  queued_fresh x hx t j d hd := by
    obtain ⟨s, hs, -, -⟩ := hshrinks _ _ _ hd
    exact h.queued_fresh x (hqueue ▸ hx) _ _ _ hs
  executing_fresh b hb hop := hqueue ▸ h.executing_fresh b (hbusy ▸ hb) hop
  seen_at t j d hd := by
    obtain ⟨s, hs, -, -⟩ := hshrinks _ _ _ hd
    exact h.seen_at _ _ _ hs
  seen_queued x hx := h.seen_queued x (hqueue ▸ hx)
  seen_busy b hb := h.seen_busy b (hbusy ▸ hb)

theorem Shrinks.of_histories {e e' : Engine α} (hh : e'.histories = e.histories) : Shrinks e e' :=
  fun t j d hd => ⟨t, ⟨hh ▸ hd.1, by simpa using hd.2⟩, rfl, le_refl _⟩

theorem shrinks_clear (e : Engine α) : Shrinks e e.clear := by
  intro t j d hd
  obtain ⟨s, -, rfl⟩ := List.mem_map.mp hd.1
  simp [At] at hd

theorem shrinks_setUndoLimit {e : Engine α} (hinv : e.Invariant) (limit : Nat) :
    Shrinks e (e.setUndoLimit limit) := by
  intro t j d hd
  rw [At, setUndoLimit_eq] at hd
  obtain ⟨s, hs, rfl⟩ := List.mem_map.mp hd.1
  obtain ⟨hle, hget⟩ := Stack.getElem?_truncate limit (hinv.fits s hs).bounded
  exact ⟨s, ⟨hs, hget j d hd.2⟩, (Stack.id_truncate s limit).symm, hle⟩

theorem shrinks_setActive (e : Engine α) (stack : Option String) :
    Shrinks e (e.setActive stack) := by
  intro t j d hd
  rw [At, setActive_eq] at hd
  rcases mem_withStack hd.1 with hmem | ⟨s, hs | hs, -, hst⟩
  · exact ⟨t, ⟨hmem, by simpa using hd.2⟩, rfl, le_refl _⟩
  · have hts : t = s := hst
    subst hts
    exact ⟨t, ⟨hs, by simpa using hd.2⟩, rfl, le_refl _⟩
  · have hts : t = s := hst
    subst hts hs
    simp at hd

theorem Agrees.mono {seen seen' : List Nat} {e : Engine α} (h : e.Agrees seen) (hsub : seen ⊆ seen') :
    e.Agrees seen' :=
  { h with
    seen_at := fun s i c hc => hsub (h.seen_at s i c hc)
    seen_queued := fun x hx => hsub (h.seen_queued x hx)
    seen_busy := fun b hb => hsub (h.seen_busy b hb) }

theorem At.congr {e e' : Engine α} (hh : e'.histories = e.histories) {s : Stack α} {i : Nat}
    {c : Command α} : e'.At s i c ↔ e.At s i c := by
  simp [At, hh]

theorem restingStatus_congr {e e' : Engine α} (hbusy : e'.busy = e.busy)
    (hstatuses : e'.statuses = e.statuses) (x : Nat) : e'.restingStatus x = e.restingStatus x := by
  simp [restingStatus, statusOf, hbusy, hstatuses]

/-- A step that leaves the histories, the job in flight and the statuses alone keeps the statuses
agreeing, provided the queued commands stay new and apart. -/
theorem Agrees.of_queue {seen : List Nat} {e e' : Engine α} (h : e.Agrees seen)
    (hh : e'.histories = e.histories) (hbusy : e'.busy = e.busy) (hstatuses : e'.statuses = e.statuses)
    (hgen : e'.generation = e.generation) (hnodup : e'.queuedIds.Nodup)
    (hfresh : ∀ x ∈ e'.queuedIds, ∀ s i c, e.At s i c → c.id ≠ x)
    (hexec : ∀ b, e.busy = some b → b.call.operation = .execute → b.call.command.id ∉ e'.queuedIds)
    (hseen : ∀ x ∈ e'.queuedIds, x ∈ seen) : e'.Agrees seen where
  unique s i c t j d hc hd hid := h.unique s i c t j d ((At.congr hh).mp hc) ((At.congr hh).mp hd) hid
  status s i c hc := by
    rw [restingStatus_congr hbusy hstatuses]
    exact h.status s i c ((At.congr hh).mp hc)
  in_flight b hb s i c hc hid := by
    rw [hgen]
    exact h.in_flight b (hbusy ▸ hb) s i c ((At.congr hh).mp hc) hid
  queued_nodup := hnodup
  queued_fresh x hx s i c hc := hfresh x hx s i c ((At.congr hh).mp hc)
  executing_fresh b hb hop := hexec b (hbusy ▸ hb) hop
  seen_at s i c hc := h.seen_at s i c ((At.congr hh).mp hc)
  seen_queued := hseen
  seen_busy b hb := h.seen_busy b (hbusy ▸ hb)

theorem restingStatus_handle (e : Engine α) (k : Nat) (act : Handling) (x : Nat) :
    (e.handle k act).restingStatus x = e.restingStatus x := by
  obtain ⟨evs, rs, extra, hx⟩ := handle_eq e k act
  rw [hx]
  unfold restingStatus statusOf
  cases e.busy <;> rfl

/-- Using a reporter changes of the job in flight only its reports, which the statuses do not
read. -/
theorem Agrees.handle {seen : List Nat} {e : Engine α} (h : e.Agrees seen) (k : Nat) (act : Handling) :
    (e.handle k act).Agrees seen := by
  have hat : ∀ {s i c}, (e.handle k act).At s i c ↔ e.At s i c := At.congr (histories_handle e k act)
  have hq : (e.handle k act).queuedIds = e.queuedIds := by simp [queuedIds]
  refine
    { unique := fun s i c t j d hc hd hid => h.unique s i c t j d (hat.mp hc) (hat.mp hd) hid
      status := fun s i c hc => (restingStatus_handle e k act c.id).trans (h.status s i c (hat.mp hc))
      queued_nodup := hq ▸ h.queued_nodup
      queued_fresh := fun x hx s i c hc => h.queued_fresh x (hq ▸ hx) s i c (hat.mp hc)
      seen_at := fun s i c hc => h.seen_at s i c (hat.mp hc)
      seen_queued := fun x hx => h.seen_queued x (hq ▸ hx)
      in_flight := ?_, executing_fresh := ?_, seen_busy := ?_ }
  all_goals
    intro b hb
    obtain ⟨b₀, extra, hb₀, rfl⟩ := busy_handle e k act hb
  · intro s i c hc hid
    rw [(SameSetup.handle e k act).generation]
    exact h.in_flight b₀ hb₀ s i c (hat.mp hc) hid
  · rw [hq]
    exact h.executing_fresh b₀ hb₀
  · exact h.seen_busy b₀ hb₀

theorem Agrees.halt {seen : List Nat} {e : Engine α} (h : e.Agrees seen) : e.halt.Agrees seen := by
  have hq : e.halt.queuedIds = e.queuedIds := by simp [queuedIds]
  exact h.of_queue (histories_halt e) (busy_halt e) (statuses_halt e) (SameSetup.halt e).generation
    (hq ▸ h.queued_nodup) (hq ▸ h.queued_fresh) (hq ▸ h.executing_fresh) (hq ▸ h.seen_queued)

theorem Agrees.submission {seen : List Nat} {e : Engine α} (h : e.Agrees seen) {x : Input α}
    (hx : x.isSubmission) (hnew : ∀ id, x.enqueuedId? = some id → id ∉ seen) :
    (e.apply x).Agrees (seen ++ x.enqueuedId?.toList) := by
  obtain ⟨n, p, q, m, hx', hq, -⟩ := apply_submission e hx
  have hmono := h.mono (List.subset_append_left seen x.enqueuedId?.toList)
  have hqueue : (e.apply x).queue = q := by rw [hx']
  -- the queued ids gain the id of the command enqueued, if any
  have hids : ∃ extra : List Nat, (e.apply x).queuedIds = e.queuedIds ++ extra ∧ extra.Nodup ∧
      ∀ y ∈ extra, x.enqueuedId? = some y := by
    rcases hq with ⟨rfl, -⟩ | ⟨task, htask, rfl, -⟩
    · exact ⟨[], by simp [queuedIds, hqueue], List.nodup_nil, by simp⟩
    cases hjob : Job.executes? { ticket := e.nextTicket, generation := e.generation, task := task } with
    | none => exact ⟨[], by simp [queuedIds, hqueue, List.filterMap_append, hjob], List.nodup_nil, by simp⟩
    | some y =>
        refine ⟨[y], by simp [queuedIds, hqueue, List.filterMap_append, hjob], List.nodup_singleton y, ?_⟩
        intro z hz
        rw [List.mem_singleton.mp hz]
        cases task with
        | execute c stack =>
            rw [htask c stack rfl]
            simpa [Job.executes?, Input.enqueuedId?] using hjob
        | _ => simp [Job.executes?] at hjob
  obtain ⟨extra, hids, hnodup, hextra⟩ := hids
  have hfresh : ∀ y ∈ extra, y ∉ seen := fun y hy => hnew y (hextra y hy)
  refine hmono.of_queue (by rw [hx']) (by rw [hx']) (by rw [hx']) (by rw [hx']) ?_ ?_ ?_ ?_
  · rw [hids]
    exact h.queued_nodup.append hnodup (fun y hy hy' => hfresh y hy' (h.seen_queued y hy))
  · intro y hy s i d hd
    rw [hids] at hy
    rcases List.mem_append.mp hy with hold | hnewy
    · exact h.queued_fresh y hold s i d hd
    · exact fun hdy => hfresh y hnewy (hdy ▸ h.seen_at s i d hd)
  · intro b hb hop
    rw [hids]
    simp only [List.mem_append, not_or]
    exact ⟨h.executing_fresh b hb hop, fun hbc => hfresh _ hbc (h.seen_busy b hb)⟩
  · intro y hy
    rw [hids] at hy
    rcases List.mem_append.mp hy with hold | hnewy
    · exact List.mem_append_left _ (h.seen_queued y hold)
    · exact List.mem_append_right _ (by simp [hextra y hnewy])

/-! ### The worker -/

theorem at_of_ready {e : Engine α} {b : Busy α} (hready : b.Ready e) (hstep : b.call.operation ≠ .execute) :
    ∃ s i, e.At s i b.call.command ∧ b.Crosses s i := by
  obtain ⟨stack, hseq, s, hs, hop⟩ : ∃ stack, b.sequel.stack = stack ∧ ∃ s, e.stack? stack = some s ∧
      ((b.call.operation = .undo ∧ s.undoCommand? = some b.call.command) ∨
        (b.call.operation = .redo ∧ s.redoCommand? = some b.call.command)) := by
    unfold Busy.Ready at hready
    cases hsq : b.sequel with
    | record stack =>
        rw [hsq] at hready
        exact absurd hready hstep
    | step stack =>
        rw [hsq] at hready
        exact ⟨stack, rfl, hready⟩
    | walk stack wanted target =>
        rw [hsq] at hready
        exact ⟨stack, rfl, hready⟩
  obtain ⟨hmem, hsid⟩ := mem_of_stack? hs
  rcases hop with ⟨hundo, hpick⟩ | ⟨hredo, hpick⟩
  · obtain ⟨hpos, hget⟩ := Stack.undoCommand?_eq_some hpick
    exact ⟨s, s.applied - 1, ⟨hmem, hget⟩, hsid.trans hseq.symm, .inl ⟨hundo, by omega⟩⟩
  · exact ⟨s, s.applied, ⟨hmem, hpick⟩, hsid.trans hseq.symm, .inr ⟨hredo, rfl⟩⟩

/-- Where ids have one position each, an undo or a redo that is ready crosses the one position of
its command's id. -/
theorem crosses_of_ready {e : Engine α}
    (hunique : ∀ s i c t j d, e.At s i c → e.At t j d → c.id = d.id → s = t ∧ i = j)
    {b : Busy α} (hready : b.Ready e) (hstep : b.call.operation ≠ .execute) {s : Stack α} {i : Nat}
    {c : Command α} (hc : e.At s i c) (hid : c.id = b.call.command.id) :
    c = b.call.command ∧ b.Crosses s i := by
  obtain ⟨s₀, i₀, h₀, hcross⟩ := at_of_ready hready hstep
  obtain ⟨rfl, rfl⟩ := hunique _ _ _ _ _ _ hc h₀ hid
  exact ⟨Option.some.inj (hc.2.symm.trans h₀.2), hcross⟩

/-- Taking up a job: an executed command comes from the queue, so it is new to the histories; an
undo or a redo crosses its command. -/
theorem Agrees.pickUp {seen : List Nat} {e : Engine α} (h : e.Agrees seen) (hinv : e.Invariant) :
    e.pickUp.Agrees seen := by
  rcases pickUp_cases e with hp | ⟨job, rest, hbusy, hqueue, hp⟩
  · rw [hp]
    exact h
  have hh := histories_pickUp e
  have hqueue' : e.pickUp.queue = rest := by
    rw [hp, queue_begin]
  have hids : e.queuedIds = (Job.executes? job).toList ++ e.pickUp.queuedIds := by
    cases hj : Job.executes? job <;> simp [queuedIds, hqueue, hqueue', hj]
  have hnodup : e.pickUp.queuedIds.Nodup := by
    have hall := h.queued_nodup
    rw [hids] at hall
    exact (List.nodup_append.mp hall).2.1
  have hsub : ∀ x ∈ e.pickUp.queuedIds, x ∈ e.queuedIds := fun x hx => by
    rw [hids]
    exact List.mem_append_right _ hx
  have hnew : ∀ b, e.pickUp.busy = some b → b.generation = e.generation ∧ b.Ready e ∧
      (b.call.operation = .execute → b.call.command.id ∈ (Job.executes? job).toList) := by
    intro b hb
    rcases busy_pickUp hinv.ids_nodup hb with hold | ⟨-, job', rest', hqueue₂, hfresh, -, hgen, hrec⟩
    · rw [hbusy] at hold
      cases hold
    rw [hqueue] at hqueue₂
    obtain ⟨rfl, -⟩ := List.cons.inj hqueue₂
    refine ⟨hgen, hfresh.2, fun hop => ?_⟩
    obtain ⟨stack, hsq⟩ := (Busy.Shaped.execute_iff (Busy.Ready.shaped hfresh.2)).mp hop
    simp [Job.executes?_execute (hrec stack hsq)]
  have hunique : ∀ s i c t j d, e.pickUp.At s i c → e.pickUp.At t j d → c.id = d.id → s = t ∧ i = j :=
    fun s i c t j d hc hd hid => h.unique s i c t j d ((At.congr hh).mp hc) ((At.congr hh).mp hd) hid
  exact
    { unique := hunique
      status := fun s i c hc => by
        rw [restingStatus_pickUp]
        exact h.status s i c ((At.congr hh).mp hc)
      in_flight := fun b hb s i c hc hid => by
        obtain ⟨hgen, hready, hexec⟩ := hnew b hb
        have hsame := (SameSetup.pickUp e).generation
        by_cases hop : b.call.operation = .execute
        · -- an executed command is new to the histories
          have hq : b.call.command.id ∈ e.queuedIds := by
            rw [hids]
            exact List.mem_append_left _ (hexec hop)
          exact absurd hid (h.queued_fresh _ hq s i c ((At.congr hh).mp hc))
        · obtain ⟨hcb, hcross⟩ := crosses_of_ready hunique (Busy.Ready.of_histories hready hh) hop hc hid
          exact ⟨hcb, hgen.trans hsame.symm, hcross⟩
      queued_nodup := hnodup
      queued_fresh := fun x hx s i c hc => h.queued_fresh x (hsub x hx) s i c ((At.congr hh).mp hc)
      executing_fresh := fun b hb hop => by
        have hx := (hnew b hb).2.2 hop
        have hall := h.queued_nodup
        rw [hids] at hall
        exact fun hmem => (List.nodup_append.mp hall).2.2 _ hx _ hmem rfl
      seen_at := fun s i c hc => h.seen_at s i c ((At.congr hh).mp hc)
      seen_queued := fun x hx => h.seen_queued x (hsub x hx)
      seen_busy := fun b hb => by
        obtain ⟨-, hready, hexec⟩ := hnew b hb
        by_cases hop : b.call.operation = .execute
        · apply h.seen_queued
          rw [hids]
          exact List.mem_append_left _ (hexec hop)
        · obtain ⟨s, i, hat, -⟩ := at_of_ready hready hop
          exact h.seen_at s i _ hat }

/-! ### Returned runs -/

/-- When one stack is replaced, a command of the new engine sits in the replacement or where it sat
before, in a stack of another id. -/
theorem At.of_replace {e e' : Engine α} (hnodup' : (e'.histories.map Stack.id).Nodup) {S : String}
    {T : Stack α} (hstack : ∀ x, e'.stack? x = if x = S then some T else e.stack? x) {t : Stack α}
    {j : Nat} {d : Command α} (hd : e'.At t j d) :
    (t.id ≠ S ∧ e.At t j d) ∨ (t = T ∧ T.commands[j]? = some d) := by
  have hfound := stack?_of_mem hnodup' hd.1
  rw [hstack] at hfound
  by_cases ht : t.id = S
  · rw [if_pos ht] at hfound
    obtain rfl := Option.some.inj hfound
    exact .inr ⟨rfl, hd.2⟩
  · rw [if_neg ht] at hfound
    exact .inl ⟨ht, (mem_of_stack? hfound).1, hd.2⟩

/-- Replacing the stack `S` by `T` keeps ids at one position each, when every command of `T` sits in
`U`, `k` places further on, and every command of `U` sat at its place in the old stack `S`, but for
at most one new command at place `m`. -/
theorem unique_replace {e e' : Engine α}
    (hunique : ∀ s i c t j d, e.At s i c → e.At t j d → c.id = d.id → s = t ∧ i = j)
    (hnodup' : (e'.histories.map Stack.id).Nodup) {S : String} {T U : Stack α} {k m : Nat}
    {c : Command α} (hstack : ∀ x, e'.stack? x = if x = S then some T else e.stack? x)
    (hT : ∀ j d, T.commands[j]? = some d → U.commands[j + k]? = some d)
    (hU : ∀ i d, U.commands[i]? = some d → (∃ s, e.At s i d ∧ s.id = S) ∨
      (i = m ∧ d = c ∧ ∀ s i d, e.At s i d → d.id ≠ c.id)) :
    ∀ s i c t j d, e'.At s i c → e'.At t j d → c.id = d.id → s = t ∧ i = j := by
  have horigin : ∀ t j d, e'.At t j d → (t.id ≠ S ∧ e.At t j d) ∨
      (t = T ∧ ((∃ s, e.At s (j + k) d ∧ s.id = S) ∨
        (j + k = m ∧ d = c ∧ ∀ s i d, e.At s i d → d.id ≠ c.id))) := by
    intro t j d hd
    rcases At.of_replace hnodup' hstack hd with hold | ⟨rfl, hget⟩
    · exact .inl hold
    · exact .inr ⟨rfl, hU _ _ (hT j d hget)⟩
  intro t₁ j₁ d₁ t₂ j₂ d₂ h₁ h₂ hid
  rcases horigin _ _ _ h₁ with ⟨hS₁, ho₁⟩ | ⟨rfl, ⟨s₁, ho₁, hs₁⟩ | ⟨hm₁, rfl, hfresh₁⟩⟩ <;>
    rcases horigin _ _ _ h₂ with ⟨hS₂, ho₂⟩ | ⟨rfl, ⟨s₂, ho₂, hs₂⟩ | ⟨hm₂, rfl, hfresh₂⟩⟩
  · exact hunique _ _ _ _ _ _ ho₁ ho₂ hid
  · obtain ⟨rfl, -⟩ := hunique _ _ _ _ _ _ ho₁ ho₂ hid
    exact absurd hs₂ hS₁
  · exact absurd hid (hfresh₂ _ _ _ ho₁)
  · obtain ⟨rfl, -⟩ := hunique _ _ _ _ _ _ ho₁ ho₂ hid
    exact absurd hs₁ hS₂
  · obtain ⟨-, hj⟩ := hunique _ _ _ _ _ _ ho₁ ho₂ hid
    exact ⟨rfl, by omega⟩
  · exact absurd hid (hfresh₂ _ _ _ ho₁)
  · exact absurd hid.symm (hfresh₁ _ _ _ ho₂)
  · exact absurd hid.symm (hfresh₁ _ _ _ ho₂)
  · exact ⟨rfl, by omega⟩

theorem walks_of_resume {e : Engine α} {b b' : Busy α} (hbusy : e.busy = some b)
    (reports : List ProgressEvent) (outcome : Outcome) (h' : (e.resume reports outcome).busy = some b') :
    b'.call.operation ≠ .execute := by
  obtain ⟨e₁, -, -, -, -, ⟨r, p, hr⟩ | ⟨stack, wanted, target, -, -, -, hr⟩⟩ :=
    resume_cases hbusy reports outcome <;> rw [hr] at h'
  · simp at h'
  · obtain ⟨hfresh, -, -, hseq⟩ := busy_walk e₁ _ _ _ _ _ _ h'
    intro hop
    obtain ⟨_, hrec⟩ := (Busy.Shaped.execute_iff (Busy.Ready.shaped hfresh.2)).mp hop
    rw [hseq] at hrec
    cases hrec

/-- A returned run keeps the statuses agreeing once ids keep one position each, statuses at rest
agree, and every command of the new engine was already in a history or is the command that just
executed. -/
theorem Agrees.of_resume {seen : List Nat} {e : Engine α} (h : e.Agrees seen) {b : Busy α}
    (hbusy : e.busy = some b) (reports : List ProgressEvent) (outcome : Outcome)
    (hunique : ∀ s i c t j d, (e.resume reports outcome).At s i c → (e.resume reports outcome).At t j d →
      c.id = d.id → s = t ∧ i = j)
    (hstatus : ∀ s i c, (e.resume reports outcome).At s i c →
      (e.resume reports outcome).restingStatus c.id = s.sideAt i)
    (horigin : ∀ s i d, (e.resume reports outcome).At s i d →
      (∃ t j, e.At t j d) ∨ (d = b.call.command ∧ b.call.operation = .execute)) :
    (e.resume reports outcome).Agrees seen := by
  have hqueue : (e.resume reports outcome).queuedIds = e.queuedIds := by
    simp [queuedIds, queue_resume]
  have hseen : ∀ s i d, (e.resume reports outcome).At s i d → d.id ∈ seen := by
    intro s i d hd
    rcases horigin s i d hd with ⟨t, j, ho⟩ | ⟨rfl, -⟩
    · exact h.seen_at t j d ho
    · exact h.seen_busy b hbusy
  -- the job in flight afterwards, if any, is the next step of a walk, ready on the new stacks
  have hnext : ∀ b', (e.resume reports outcome).busy = some b' →
      b'.generation = (e.resume reports outcome).generation ∧ b'.Ready (e.resume reports outcome) ∧
        b'.call.operation ≠ .execute := by
    intro b' hb'
    obtain ⟨e₁, -, hhist, -, hfresh, -, hgen, -, -, hgen₀⟩ := busy_resume hbusy reports outcome hb'
    refine ⟨?_, Busy.Ready.of_histories hfresh.2 ((histories_resume hbusy reports outcome).trans hhist.symm),
      walks_of_resume hbusy reports outcome hb'⟩
    rw [(SameSetup.resume e reports outcome).generation, hgen₀, hgen]
  exact
    { unique := hunique
      status := hstatus
      in_flight := fun b' hb' s i d hd hid => by
        obtain ⟨hgen, hready, hop⟩ := hnext b' hb'
        obtain ⟨hd', hcross⟩ := crosses_of_ready hunique hready hop hd hid
        exact ⟨hd', hgen, hcross⟩
      queued_nodup := hqueue ▸ h.queued_nodup
      queued_fresh := fun x hx s i d hd => by
        rw [hqueue] at hx
        rcases horigin s i d hd with ⟨t, j, ho⟩ | ⟨rfl, hop⟩
        · exact h.queued_fresh x hx t j d ho
        · exact fun hdx => h.executing_fresh b hbusy hop (hdx ▸ hx)
      executing_fresh := fun b' hb' hop => absurd hop (hnext b' hb').2.2
      seen_at := hseen
      seen_queued := fun x hx => h.seen_queued x (hqueue ▸ hx)
      seen_busy := fun b' hb' => by
        obtain ⟨-, hready, hop⟩ := hnext b' hb'
        obtain ⟨s, i, hat, -⟩ := at_of_ready hready hop
        exact hseen s i _ hat }

theorem stack?_congr {e e' : Engine α} (hh : e'.histories = e.histories) (x : String) :
    e'.stack? x = e.stack? x := by
  simp [stack?, hh]

theorem at_of_stackOrEmpty {e : Engine α} {S : String} {i : Nat} {d : Command α}
    (h : (e.stackOrEmpty S).commands[i]? = some d) :
    ∃ s, e.At s i d ∧ s.id = S ∧ e.stackOrEmpty S = s := by
  unfold stackOrEmpty at h ⊢
  cases hs : e.stack? S with
  | none => simp [hs] at h
  | some s =>
      rw [hs, Option.getD_some] at h
      exact ⟨s, ⟨(mem_of_stack? hs).1, h⟩, (mem_of_stack? hs).2, rfl⟩

/-- A run that leaves the histories as they were keeps the statuses agreeing when it leaves the
status at rest of every command in a history alone. -/
theorem Agrees.resume_still {seen : List Nat} {e : Engine α} (h : e.Agrees seen) {b : Busy α}
    (hbusy : e.busy = some b) (reports : List ProgressEvent) (outcome : Outcome)
    (hh : (e.resume reports outcome).histories = e.histories)
    (hrest : ∀ s i d, e.At s i d → (e.resume reports outcome).restingStatus d.id = e.restingStatus d.id) :
    (e.resume reports outcome).Agrees seen :=
  h.of_resume hbusy reports outcome
    (fun s i c t j d hc hd hid => h.unique s i c t j d ((At.congr hh).mp hc) ((At.congr hh).mp hd) hid)
    (fun s i d hd => by
      rw [hrest s i d ((At.congr hh).mp hd)]
      exact h.status s i d ((At.congr hh).mp hd))
    (fun s i d hd => .inl ⟨s, i, (At.congr hh).mp hd⟩)

/-- Recording an executed command: the command is new, it lands done on its stack, and the other
done commands of that stack stay done. -/
theorem Agrees.resume_record {seen : List Nat} {e : Engine α} (h : e.Agrees seen) (hinv : e.Invariant)
    {b : Busy α} (hbusy : e.busy = some b) {S : String} (hseq : b.sequel = .record S)
    (reports : List ProgressEvent) (outcome : Outcome) : (e.resume reports outcome).Agrees seen := by
  have hop : b.call.operation = .execute :=
    (Busy.Shaped.execute_iff (hinv.busy_shaped b hbusy)).mpr ⟨S, hseq⟩
  have hfresh : ∀ s i d, e.At s i d → d.id ≠ b.call.command.id := by
    intro s i d hd hid
    obtain ⟨-, -, -, ⟨hundo, -⟩ | ⟨hredo, -⟩⟩ := h.in_flight b hbusy s i d hd hid
    · rw [hop] at hundo
      cases hundo
    · rw [hop] at hredo
      cases hredo
  have hrest : ∀ x, (e.resume reports outcome).restingStatus x =
      if x = b.call.command.id then b.previous.finish outcome.isOk .applied else e.statusOf x := by
    intro x
    rw [restingStatus_resume hbusy]
    simp [hop, Command.skips, Operation.direction, Direction.success]
  have hold : ∀ s i d, e.At s i d →
      (e.resume reports outcome).restingStatus d.id = e.restingStatus d.id := by
    intro s i d hd
    rw [hrest, if_neg (hfresh s i d hd)]
    simp [restingStatus, hbusy, hfresh s i d hd]
  have hh := histories_resume hbusy reports outcome
  unfold settled at hh
  rw [hseq] at hh
  dsimp only at hh
  split_ifs at hh with hrec
  swap
  · exact h.resume_still hbusy reports outcome hh hold
  have hok : outcome.isOk = true := by simp_all
  set S₀ := e.stackOrEmpty S with hS₀
  have hb₀ : S₀.Bounded := hinv.bounded_stackOrEmpty S
  set T := ((S₀.push b.call.command).truncate e.undoLimit).1.touch (e.sequence + 1) with hT
  have hstack : ∀ x, (e.resume reports outcome).stack? x = if x = S then some T else e.stack? x := by
    intro x
    rw [stack?_congr hh, stack?_record]
  have hnodup' := (hinv.resume reports outcome).ids_nodup
  have hshift := (Stack.getElem?_truncate e.undoLimit (hb₀.push b.call.command)).2
  -- a command of the pushed stack was done in the old stack, or is the new one
  have hpushed : ∀ i d, (S₀.push b.call.command).commands[i]? = some d →
      (∃ s, e.At s i d ∧ s.id = S ∧ i < s.applied) ∨
        (i = S₀.applied ∧ d = b.call.command ∧ ∀ s i d, e.At s i d → d.id ≠ b.call.command.id) := by
    intro i d hd
    rcases Stack.getElem?_push hb₀ hd with ⟨hi, hget⟩ | ⟨hi, rfl⟩
    · obtain ⟨s, ho, hsid, hs⟩ := at_of_stackOrEmpty hget
      exact .inl ⟨s, ho, hsid, hs ▸ hi⟩
    · exact .inr ⟨hi, rfl, hfresh⟩
  have hpush : ∀ i d, (S₀.push b.call.command).commands[i]? = some d →
      (∃ s, e.At s i d ∧ s.id = S) ∨
        (i = S₀.applied ∧ d = b.call.command ∧ ∀ s i d, e.At s i d → d.id ≠ b.call.command.id) := by
    intro i d hd
    rcases hpushed i d hd with ⟨s, ho, hsid, -⟩ | hnew
    · exact .inl ⟨s, ho, hsid⟩
    · exact .inr hnew
  have hunique := unique_replace h.unique hnodup' hstack hshift hpush
  refine h.of_resume hbusy reports outcome hunique ?_ ?_
  · intro t j d hd
    rcases At.of_replace hnodup' hstack hd with ⟨-, ho⟩ | ⟨rfl, hget⟩
    · rw [hold t j d ho]
      exact h.status t j d ho
    · -- every command of the recorded stack is done
      have hdone : T.sideAt j = .applied :=
        if_pos (Stack.lt_applied_of_record e.undoLimit hb₀ hget)
      rw [hdone]
      rcases hpushed _ _ (hshift j d hget) with ⟨s, ho, -, hi⟩ | ⟨-, rfl, -⟩
      · rw [hold s _ d ho, h.status s _ d ho]
        exact if_pos hi
      · rw [hrest, if_pos rfl, hok]
        rfl
  · intro t j d hd
    rcases At.of_replace hnodup' hstack hd with ⟨-, ho⟩ | ⟨rfl, hget⟩
    · exact .inl ⟨t, j, ho⟩
    · rcases hpush _ _ (hshift j d hget) with ⟨s, ho, -⟩ | ⟨-, rfl, -⟩
      · exact .inl ⟨s, _, ho⟩
      · exact .inr ⟨rfl, hop⟩

theorem at_of_neighbour {e : Engine α} {S : String} {s : Stack α} (hs : e.stack? S = some s)
    {forward : Bool} {d : Command α} (h : (if forward then s.redoCommand? else s.undoCommand?) = some d) :
    ∃ i, e.At s i d := by
  cases forward with
  | true => exact ⟨s.applied, (mem_of_stack? hs).1, h⟩
  | false => exact ⟨s.applied - 1, (mem_of_stack? hs).1, (Stack.undoCommand?_eq_some h).2⟩

/-- **How a returned undo or redo acts.** Either the histories stay as they were, and then the
run failed or its command is in no history; or the run succeeded, its command is still in a
history, no clear came in between, and the cursor of its stack steps over it. -/
theorem Agrees.resume_cursor_cases {seen : List Nat} {e : Engine α} (h : e.Agrees seen)
    (hinv : e.Invariant) {b : Busy α} (hbusy : e.busy = some b) {S : String} (hS : b.sequel.stack = S)
    (hsettled : ∀ ok, e.settled b ok =
      if ok then (e.moveCursor b.generation S b.call.command (b.call.operation == .redo)).1.histories
      else e.histories)
    (reports : List ProgressEvent) (outcome : Outcome) :
    ((e.resume reports outcome).histories = e.histories ∧
        (outcome.isOk = true → ∀ s i, ¬ e.At s i b.call.command)) ∨
      (outcome.isOk = true ∧ ∃ s i, e.At s i b.call.command ∧ b.generation = e.generation ∧
        b.Crosses s i ∧ ∀ x, (e.resume reports outcome).stack? x =
          if x = S then
            some ((if b.call.operation == .redo then s.stepForward else s.stepBackward).1.touch
              (e.sequence + 1))
          else e.stack? x) := by
  have hh := histories_resume hbusy reports outcome
  rw [hsettled] at hh
  by_cases hA : ∃ s i, e.At s i b.call.command
  swap
  · -- the command left the histories, so the cursor cannot step over it
    refine .inl ⟨?_, fun _ s i hd => hA ⟨s, i, hd⟩⟩
    rw [hh]
    split_ifs
    · rcases moveCursor_cases e b.generation S b.call.command (b.call.operation == .redo) with
        ⟨hsame, -⟩ | ⟨-, s, hs, hneighbour, -⟩
      · exact hsame
      · obtain ⟨d, hd, hid⟩ := Option.map_eq_some_iff.mp hneighbour
        obtain ⟨i, hat⟩ := at_of_neighbour hs hd
        obtain ⟨rfl, -⟩ := h.in_flight b hbusy s i d hat hid
        exact absurd ⟨s, i, hat⟩ hA
    · rfl
  obtain ⟨s, i, hd⟩ := hA
  obtain ⟨-, hgen, hcross⟩ := h.in_flight b hbusy s i _ hd rfl
  cases hok : outcome.isOk
  · exact .inl ⟨by rw [hh, hok]; rfl, fun hfalse => by cases hfalse⟩
  refine .inr ⟨rfl, s, i, hd, hgen, hcross, fun x => ?_⟩
  rw [hok, if_pos rfl] at hh
  have hs : e.stack? S = some s := (hcross.1.trans hS) ▸ stack?_of_mem hinv.ids_nodup hd.1
  rw [stack?_congr hh]
  exact stack?_moveCursor_of_neighbour hgen.symm hs (hcross.neighbour hd.2) x

/-- An undo or a redo: a success moves its command, and it alone, to the other side of the
cursor, and a failure leaves every status in a history as it was. -/
theorem Agrees.resume_cursor {seen : List Nat} {e : Engine α} (h : e.Agrees seen) (hinv : e.Invariant)
    {b : Busy α} (hbusy : e.busy = some b) {S : String} (hS : b.sequel.stack = S)
    (hsettled : ∀ ok, e.settled b ok =
      if ok then (e.moveCursor b.generation S b.call.command (b.call.operation == .redo)).1.histories
      else e.histories)
    (reports : List ProgressEvent) (outcome : Outcome) : (e.resume reports outcome).Agrees seen := by
  have hresting : ∀ x, e.restingStatus x = if x = b.call.command.id then b.previous else e.statusOf x := by
    intro x
    simp [restingStatus, hbusy]
  -- statuses at rest of the commands other than the one that ran do not move
  have hother : ∀ x, x ≠ b.call.command.id →
      (e.resume reports outcome).restingStatus x = e.restingStatus x := by
    intro x hx
    rw [restingStatus_resume hbusy, hresting]
    simp [hx]
  rcases h.resume_cursor_cases hinv hbusy hS hsettled reports outcome with
    ⟨hh, hnot⟩ | ⟨hok, s, i, hd, -, hcross, hstack⟩
  · refine h.resume_still hbusy reports outcome hh fun t j d hd => ?_
    by_cases hid : d.id = b.call.command.id
    swap
    · exact hother d.id hid
    -- the command is still in a history, so its run failed and its status stays
    obtain ⟨rfl, -, -⟩ := h.in_flight b hbusy t j d hd hid
    have hfail : outcome.isOk = false := by
      cases hok : outcome.isOk
      · rfl
      · exact absurd hd (hnot hok t j)
    have hquery : b.call.command.isQuery = false :=
      (hinv.fits t hd.1).no_query _ (List.mem_of_getElem? hd.2)
    have hprev : b.previous = t.sideAt j := by
      have hst := h.status t j _ hd
      rwa [hresting, if_pos rfl] at hst
    rw [restingStatus_resume hbusy, hresting]
    simp [Command.skips, hquery, hfail, hprev, Stack.finish_sideAt]
  have hsS : s.id = S := hcross.1.trans hS
  have hquery : b.call.command.isQuery = false :=
    (hinv.fits s hd.1).no_query _ (List.mem_of_getElem? hd.2)
  set T := (if b.call.operation == .redo then s.stepForward else s.stepBackward).1.touch
    (e.sequence + 1) with hT
  have hcmds : T.commands = s.commands := by
    rw [hT, Stack.commands_touch]
    split
    · exact Stack.commands_stepForward s
    · exact Stack.commands_stepBackward s
  have hnodup' := (hinv.resume reports outcome).ids_nodup
  have hunique := unique_replace h.unique hnodup' hstack (U := s) (k := 0) (m := 0)
    (c := b.call.command) (fun j d hget => by rwa [hcmds] at hget)
    (fun i d hget => .inl ⟨s, ⟨hd.1, hget⟩, hsS⟩)
  refine h.of_resume hbusy reports outcome hunique ?_ ?_
  · intro t j d hd'
    rcases At.of_replace hnodup' hstack hd' with ⟨htS, ho⟩ | ⟨rfl, hget⟩
    · have hne : d.id ≠ b.call.command.id := fun hid =>
        htS ((h.unique _ _ _ _ _ _ ho hd hid).1 ▸ hsS)
      rw [hother d.id hne]
      exact h.status t j d ho
    · rw [hcmds] at hget
      have hside : T.sideAt j = if j = i then b.call.operation.direction.success else s.sideAt j :=
        hcross.sideAt_step hd.2 j
      by_cases hji : j = i
      · subst hji
        obtain rfl : d = b.call.command := Option.some.inj (hget.symm.trans hd.2)
        rw [hside, if_pos rfl, restingStatus_resume hbusy]
        simp [Command.skips, hquery, hok, Status.finish]
      · have hne : d.id ≠ b.call.command.id := fun hid =>
          hji (h.unique _ _ _ _ _ _ ⟨hd.1, hget⟩ hd hid).2
        rw [hside, if_neg hji, hother d.id hne]
        exact h.status s j d ⟨hd.1, hget⟩
  · intro t j d hd'
    rcases At.of_replace hnodup' hstack hd' with ⟨-, ho⟩ | ⟨rfl, hget⟩
    · exact .inl ⟨t, j, ho⟩
    · rw [hcmds] at hget
      exact .inl ⟨s, j, hd.1, hget⟩

theorem not_at_clear (e : Engine α) {t : Stack α} {j : Nat} {d : Command α} : ¬ e.clear.At t j d := by
  intro hd
  obtain ⟨s, -, rfl⟩ := List.mem_map.mp hd.1
  simp [At] at hd

theorem Agrees.resume {seen : List Nat} {e : Engine α} (h : e.Agrees seen) (hinv : e.Invariant)
    (reports : List ProgressEvent) (outcome : Outcome) : (e.resume reports outcome).Agrees seen := by
  cases hbusy : e.busy with
  | none =>
      rw [resume_idle hbusy]
      exact h
  | some b =>
      cases hseq : b.sequel with
      | record S => exact h.resume_record hinv hbusy hseq reports outcome
      | step S =>
          exact h.resume_cursor hinv hbusy (S := S) (by simp [Sequel.stack, hseq])
            (fun ok => by simp only [settled, hseq]) reports outcome
      | walk S wanted target =>
          exact h.resume_cursor hinv hbusy (S := S) (by simp [Sequel.stack, hseq])
            (fun ok => by simp only [settled, hseq]) reports outcome

/-- **Every input keeps the statuses agreeing**, when a command it enqueues is new. -/
theorem Agrees.apply {seen : List Nat} {e : Engine α} (h : e.Agrees seen) (hinv : e.Invariant)
    (x : Input α) (hnew : ∀ id, x.enqueuedId? = some id → id ∉ seen) :
    (e.apply x).Agrees (seen ++ x.enqueuedId?.toList) := by
  by_cases hx : x.isSubmission
  · exact h.submission hx hnew
  have hnone : x.enqueuedId? = none := by
    cases x <;> simp_all [Input.isSubmission, Input.enqueuedId?]
  rw [hnone, Option.toList_none, List.append_nil]
  have hnodup' := (hinv.apply x).ids_nodup
  cases x with
  | clear =>
      exact h.of_shrinks hnodup' (shrinks_clear e) (restingStatus_congr rfl rfl) rfl
        (fun t j d hd => absurd hd (not_at_clear e)) rfl
  | setUndoLimit limit =>
      have hlimit := setUndoLimit_eq e limit
      refine h.of_shrinks hnodup' (shrinks_setUndoLimit hinv limit) ?_ ?_ ?_ ?_
      · exact restingStatus_congr (by simp only [Engine.apply]; rw [hlimit])
          (by simp only [Engine.apply]; rw [hlimit])
      · simp only [Engine.apply]
        rw [hlimit]
      · intro t j d hd
        simp only [Engine.apply]
        rw [hlimit]
      · simp only [Engine.apply, queuedIds]
        rw [hlimit]
  | setActive stack =>
      have hactive := setActive_eq e stack
      refine h.of_shrinks hnodup' (shrinks_setActive e stack) ?_ ?_ ?_ ?_
      · exact restingStatus_congr (by simp only [Engine.apply]; rw [hactive])
          (by simp only [Engine.apply]; rw [hactive])
      · simp only [Engine.apply]
        rw [hactive]
      · intro t j d hd
        simp only [Engine.apply]
        rw [hactive]
      · simp only [Engine.apply, queuedIds]
        rw [hactive]
  | route scope stack =>
      simp only [Engine.apply]
      split
      · rename_i e' hroute
        obtain ⟨-, -, -, rfl⟩ := route_eq hroute
        exact { h with }
      · exact h
  | shutdown => exact { h with }
  | pickUp => exact h.pickUp hinv
  | resume reports outcome => exact h.resume hinv reports outcome
  | reporter serial act => exact h.handle serial act
  | halt => exact h.halt
  | enqueue c => exact absurd rfl hx
  | undo filter => exact absurd rfl hx
  | redo filter => exact absurd rfl hx
  | jump target => exact absurd rfl hx

theorem Agrees.run {seen : List Nat} {e : Engine α} (h : e.Agrees seen) (hinv : e.Invariant)
    {xs : List (Input α)} (hnodup : (seen ++ xs.filterMap Input.enqueuedId?).Nodup) :
    (e.run xs).Agrees (seen ++ xs.filterMap Input.enqueuedId?) := by
  induction xs generalizing e seen with
  | nil => simpa using h
  | cons x xs ih =>
      have hsplit : seen ++ (x :: xs).filterMap Input.enqueuedId? =
          (seen ++ x.enqueuedId?.toList) ++ xs.filterMap Input.enqueuedId? := by
        cases hx : x.enqueuedId? <;> simp [hx]
      rw [hsplit] at hnodup ⊢
      have hnew : ∀ id, x.enqueuedId? = some id → id ∉ seen := by
        intro id hid hmem
        have hleft := (List.nodup_append.mp hnodup).1
        rw [hid, Option.toList_some] at hleft
        exact (List.nodup_append.mp hleft).2.2 id hmem id (List.mem_singleton_self id) rfl
      exact ih (h.apply hinv x hnew) (hinv.apply x) hnodup

theorem agrees_create {c : Config} {e₀ : Engine α} (hcreate : Engine.create c = .ok e₀) :
    e₀.Agrees [] := by
  obtain ⟨r, f, routes, -, -, -, he₀⟩ := create_eq hcreate
  have hbusy : e₀.busy = none := by rw [he₀]
  have hqueue : e₀.queuedIds = [] := by rw [he₀]; rfl
  have hnone : ∀ s i d, ¬ e₀.At s i d := by
    intro s i d hd
    have hhist : e₀.histories = [Stack.empty c.defaultStack] := by rw [he₀]
    rw [At, hhist, List.mem_singleton] at hd
    obtain ⟨rfl, hget⟩ := hd
    simp at hget
  exact
    { unique := fun s i d _ _ _ hd => absurd hd (hnone s i d)
      status := fun s i d hd => absurd hd (hnone s i d)
      in_flight := fun b hb => by rw [hbusy] at hb; cases hb
      queued_nodup := hqueue ▸ List.nodup_nil
      queued_fresh := fun x hx => by rw [hqueue] at hx; cases hx
      executing_fresh := fun b hb => by rw [hbusy] at hb; cases hb
      seen_at := fun s i d hd => absurd hd (hnone s i d)
      seen_queued := fun x hx => by rw [hqueue] at hx; cases hx
      seen_busy := fun b hb => by rw [hbusy] at hb; cases hb }

/-! ### The cursor at the end of a step -/

/-- **Where the cursor goes at the end of an undo or a redo.** The stack keeps its commands, and
its cursor moves exactly when the run succeeded, no clear came in between and the command is still
in the stack's history; it then moves over that command. -/
theorem Agrees.cursor_resume {seen : List Nat} {e : Engine α} (h : e.Agrees seen) (hinv : e.Invariant)
    {b : Busy α} (hbusy : e.busy = some b) (hop : b.call.operation = .undo ∨ b.call.operation = .redo)
    (reports : List ProgressEvent) (outcome : Outcome) :
    ((e.resume reports outcome).stackOrEmpty b.sequel.stack).commands =
        (e.stackOrEmpty b.sequel.stack).commands ∧
      (((e.resume reports outcome).stackOrEmpty b.sequel.stack).applied ≠
          (e.stackOrEmpty b.sequel.stack).applied ↔
        outcome.isOk = true ∧ b.generation = e.generation ∧
          b.call.command ∈ (e.stackOrEmpty b.sequel.stack).commands) ∧
      (((e.resume reports outcome).stackOrEmpty b.sequel.stack).applied ≠
          (e.stackOrEmpty b.sequel.stack).applied →
        (b.call.operation = .undo ∧
            ((e.resume reports outcome).stackOrEmpty b.sequel.stack).applied + 1 =
              (e.stackOrEmpty b.sequel.stack).applied ∧
            (e.stackOrEmpty b.sequel.stack).commands[
              ((e.resume reports outcome).stackOrEmpty b.sequel.stack).applied]? = some b.call.command) ∨
          (b.call.operation = .redo ∧
            ((e.resume reports outcome).stackOrEmpty b.sequel.stack).applied =
              (e.stackOrEmpty b.sequel.stack).applied + 1 ∧
            (e.stackOrEmpty b.sequel.stack).commands[(e.stackOrEmpty b.sequel.stack).applied]? =
              some b.call.command)) := by
  -- an undo or a redo is a step or a walk, whose run returns to a cursor move
  have hsettled : ∀ ok, e.settled b ok =
      if ok then (e.moveCursor b.generation b.sequel.stack b.call.command (b.call.operation == .redo)).1.histories
      else e.histories := by
    intro ok
    unfold settled
    cases hseq : b.sequel with
    | record stack =>
        have hexec := (Busy.Shaped.execute_iff (hinv.busy_shaped b hbusy)).mpr ⟨stack, hseq⟩
        rcases hop with hop | hop <;> rw [hop] at hexec <;> cases hexec
    | step stack => rfl
    | walk stack wanted target => rfl
  rcases h.resume_cursor_cases hinv hbusy rfl hsettled reports outcome with
    ⟨hh, hnot⟩ | ⟨hok, s, i, hd, hgen, hcross, hstack⟩
  · -- nothing moved: the run failed or its command left the stack
    rw [stackOrEmpty_congr hh]
    refine ⟨rfl, ⟨fun hne => absurd rfl hne, fun hmoved => ?_⟩, fun hne => absurd rfl hne⟩
    obtain ⟨hok, -, hmem⟩ := hmoved
    obtain ⟨j, hj⟩ := List.mem_iff_getElem?.mp hmem
    obtain ⟨t, ht, -, -⟩ := at_of_stackOrEmpty hj
    exact (hnot hok t j ht).elim
  · have hs : e.stack? b.sequel.stack = some s := hcross.1 ▸ stack?_of_mem hinv.ids_nodup hd.1
    have hnew : (e.resume reports outcome).stackOrEmpty b.sequel.stack =
        (if b.call.operation == .redo then s.stepForward else s.stepBackward).1.touch (e.sequence + 1) := by
      simp [stackOrEmpty, hstack]
    have hold : e.stackOrEmpty b.sequel.stack = s := by
      simp [stackOrEmpty, hs]
    rw [hnew, hold]
    have hneighbour := hcross.neighbour hd.2
    obtain ⟨-, ⟨hundo, hi⟩ | ⟨hredo, rfl⟩⟩ := hcross
    · simp only [hundo, reduceCtorEq, beq_iff_eq, if_false] at hneighbour ⊢
      rw [Stack.stepBackward_of_undoCommand? hneighbour]
      refine ⟨rfl, ⟨fun _ => ⟨hok, hgen, List.mem_of_getElem? hd.2⟩, fun _ => ?_⟩,
        fun _ => .inl ⟨trivial, ?_, ?_⟩⟩
      · show s.applied - 1 ≠ s.applied
        omega
      · show s.applied - 1 + 1 = s.applied
        omega
      · show s.commands[s.applied - 1]? = some b.call.command
        rw [show s.applied - 1 = i by omega]
        exact hd.2
    · simp only [hredo, beq_self_eq_true, if_true] at hneighbour ⊢
      rw [Stack.stepForward_of_redoCommand? hneighbour]
      refine ⟨rfl, ⟨fun _ => ⟨hok, hgen, List.mem_of_getElem? hd.2⟩, fun _ => ?_⟩,
        fun _ => .inr ⟨trivial, rfl, hd.2⟩⟩
      show s.applied + 1 ≠ s.applied
      omega

/-! ### Statuses over every run -/

/-- **Statuses agree with the cursor.** Start from a valid configuration and let callers and the
worker act in any order, enqueueing each command once, with any outcome of every action run. Then
whenever no run is in flight, every command in a history is applied if it lies before the cursor and
reversed if after it. And whenever an undo or a redo is in flight, however limit changes, clears and
other calls interleaved with it, its stack keeps its commands when the run returns, and the cursor
moves exactly when the run succeeded, no clear came in between and the command is still in the
stack's history; it then moves over that command and no other. -/
theorem status_agrees_with_cursor {c : Config} {e₀ : Engine α} (hcreate : Engine.create c = .ok e₀)
    (xs : List (Input α)) (honce : (xs.filterMap Input.enqueuedId?).Nodup) :
    ((e₀.run xs).busy = none → ∀ s ∈ (e₀.run xs).histories, ∀ i cmd, s.commands[i]? = some cmd →
        (e₀.run xs).statusOf cmd.id = if i < s.applied then .applied else .reversed) ∧
      ∀ b, (e₀.run xs).busy = some b → (b.call.operation = .undo ∨ b.call.operation = .redo) →
        ∀ reports outcome,
          (((e₀.run xs).resume reports outcome).stackOrEmpty b.sequel.stack).commands =
              ((e₀.run xs).stackOrEmpty b.sequel.stack).commands ∧
            ((((e₀.run xs).resume reports outcome).stackOrEmpty b.sequel.stack).applied ≠
                ((e₀.run xs).stackOrEmpty b.sequel.stack).applied ↔
              outcome.isOk = true ∧ b.generation = (e₀.run xs).generation ∧
                b.call.command ∈ ((e₀.run xs).stackOrEmpty b.sequel.stack).commands) ∧
            ((((e₀.run xs).resume reports outcome).stackOrEmpty b.sequel.stack).applied ≠
                ((e₀.run xs).stackOrEmpty b.sequel.stack).applied →
              (b.call.operation = .undo ∧
                  (((e₀.run xs).resume reports outcome).stackOrEmpty b.sequel.stack).applied + 1 =
                    ((e₀.run xs).stackOrEmpty b.sequel.stack).applied ∧
                  ((e₀.run xs).stackOrEmpty b.sequel.stack).commands[
                    (((e₀.run xs).resume reports outcome).stackOrEmpty b.sequel.stack).applied]? =
                    some b.call.command) ∨
                (b.call.operation = .redo ∧
                  (((e₀.run xs).resume reports outcome).stackOrEmpty b.sequel.stack).applied =
                    ((e₀.run xs).stackOrEmpty b.sequel.stack).applied + 1 ∧
                  ((e₀.run xs).stackOrEmpty b.sequel.stack).commands[
                    ((e₀.run xs).stackOrEmpty b.sequel.stack).applied]? = some b.call.command)) := by
  have hinv₀ := invariant_create hcreate
  have hinv := hinv₀.run xs
  have hagrees := (agrees_create hcreate).run hinv₀ (by simpa using honce)
  refine ⟨fun hidle s hs i cmd hget => ?_, fun b hb hop reports outcome =>
    hagrees.cursor_resume hinv hb hop reports outcome⟩
  have hrest := hagrees.status s i cmd ⟨hs, hget⟩
  simpa [restingStatus, hidle, Stack.sideAt] using hrest

/-- The law holds along a run of the default configuration that executes a command and has its
undo in flight. -/
theorem status_agrees_with_cursor_default :
    let xs : List (Input Unit) := [.enqueue { id := 1, text := "add", action := () }, .pickUp,
      .resume [] (.ok .null), .undo none, .pickUp]
    ∃ e₀ : Engine Unit, Engine.create ({} : Config) = .ok e₀ ∧ (xs.filterMap Input.enqueuedId?).Nodup ∧
      ((e₀.run xs).busy = none → ∀ s ∈ (e₀.run xs).histories, ∀ i cmd, s.commands[i]? = some cmd →
          (e₀.run xs).statusOf cmd.id = if i < s.applied then .applied else .reversed) ∧
        ∀ b, (e₀.run xs).busy = some b → (b.call.operation = .undo ∨ b.call.operation = .redo) →
          ∀ reports outcome,
            (((e₀.run xs).resume reports outcome).stackOrEmpty b.sequel.stack).commands =
                ((e₀.run xs).stackOrEmpty b.sequel.stack).commands ∧
              ((((e₀.run xs).resume reports outcome).stackOrEmpty b.sequel.stack).applied ≠
                  ((e₀.run xs).stackOrEmpty b.sequel.stack).applied ↔
                outcome.isOk = true ∧ b.generation = (e₀.run xs).generation ∧
                  b.call.command ∈ ((e₀.run xs).stackOrEmpty b.sequel.stack).commands) ∧
              ((((e₀.run xs).resume reports outcome).stackOrEmpty b.sequel.stack).applied ≠
                  ((e₀.run xs).stackOrEmpty b.sequel.stack).applied →
                (b.call.operation = .undo ∧
                    (((e₀.run xs).resume reports outcome).stackOrEmpty b.sequel.stack).applied + 1 =
                      ((e₀.run xs).stackOrEmpty b.sequel.stack).applied ∧
                    ((e₀.run xs).stackOrEmpty b.sequel.stack).commands[
                      (((e₀.run xs).resume reports outcome).stackOrEmpty b.sequel.stack).applied]? =
                      some b.call.command) ∨
                  (b.call.operation = .redo ∧
                    (((e₀.run xs).resume reports outcome).stackOrEmpty b.sequel.stack).applied =
                      ((e₀.run xs).stackOrEmpty b.sequel.stack).applied + 1 ∧
                    ((e₀.run xs).stackOrEmpty b.sequel.stack).commands[
                      ((e₀.run xs).stackOrEmpty b.sequel.stack).applied]? = some b.call.command)) := by
  intro xs
  have hcreate : Engine.create ({} : Config) =
      .ok ({ registry := {}, defaultStack := "default", undoLimit := 0, capacity := 1024,
             histories := [Stack.empty "default"], active := "default", routes := [] } : Engine Unit) := rfl
  have honce : (xs.filterMap Input.enqueuedId?).Nodup := by
    simp [xs, List.filterMap, Input.enqueuedId?]
  exact ⟨_, hcreate, honce, status_agrees_with_cursor hcreate xs honce⟩

end Engine

end ScopedUndo