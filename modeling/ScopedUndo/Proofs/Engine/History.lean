import ScopedUndo.Proofs.Engine.Invariant
/-!
# The undo and redo law

Each stack has a log: the commands the worker ran successfully for it, where a forward run appends
its command (unless it is a query, which is never recorded) and a reverse run removes the last
entry. The law says that in a run where callers act only while no job is in flight, every stack's
log is at every point what left the stack's history from the front, cut off by trimming to the
limit or by a clear, followed by the stack's done part. So an undo always reverses the last entry
of its stack's log.

The proof reads each input through `Acts`: its deeds turn the log over a stack's done part into the
log over what was shed and the new done part. Callers other than a clear or a new limit leave every
done part alone; a clear and a new limit shed what they cut off (`acts_sheds`); a returned run acts
through `acts_record` and `acts_moveCursor`. These last two need the job in flight to be `OnTime`:
had a clear come in between, its run would be in the log but not in the history. Sequential runs
keep every job on time.
-/

namespace ScopedUndo

namespace Engine

variable {α : Type}

/-- A stack's log after a deed: a successful forward run of a command that is no query appends the
command, a successful reverse run removes the last entry, and nothing else changes the log. -/
def Deed.log (stack : String) (l : List (Command α)) : Deed α → List (Command α)
  | .ran _ s c .forward true => if s = stack ∧ c.isQuery = false then l ++ [c] else l
  | .ran _ s _ .reverse true => if s = stack then l.dropLast else l
  | _ => l

/-- The done commands a deed removed from the front of a stack's history. -/
def Deed.shedFrom (stack : String) : Deed α → List (Command α)
  | .shed s cs => if s = stack then cs else []
  | _ => []

/-- The log of a stack, built from nothing by the deeds of a run. -/
def logOf (stack : String) (ds : List (Deed α)) : List (Command α) :=
  ds.foldl (Deed.log stack) []

/-- The done commands that left a stack's history from its front during a run, in order. -/
def shedOf (stack : String) (ds : List (Deed α)) : List (Command α) :=
  ds.flatMap (Deed.shedFrom stack)

/-- A run in which callers act only while no job is in flight, so that each job runs to its end,
with whatever outcomes, before the next operation. -/
def Sequential : Engine α → List (Input α) → Prop
  | _, [] => True
  | e, x :: xs => (x.isCaller = true → e.busy = none) ∧ (e.apply x).Sequential xs

/-- The job in flight, if any, finds the engine as it left it: no clear came in between, and its
command is still where it was chosen. -/
def OnTime (e : Engine α) : Prop :=
  ∀ b, e.busy = some b → b.generation = e.generation ∧ b.Ready e

/-- A run's deeds act on every stack's log as the run acts on the stack's done part: what was the
log over the done part of `e` becomes the log over what left the front and the done part of `e'`. -/
def Acts (e e' : Engine α) (ds : List (Deed α)) : Prop :=
  ∀ stack l, ds.foldl (Deed.log stack) (l ++ (e.stackOrEmpty stack).done) =
    l ++ shedOf stack ds ++ (e'.stackOrEmpty stack).done

theorem logOf_append (stack : String) (ds ds' : List (Deed α)) :
    logOf stack (ds ++ ds') = ds'.foldl (Deed.log stack) (logOf stack ds) := by
  simp [logOf, List.foldl_append]

theorem shedOf_append (stack : String) (ds ds' : List (Deed α)) :
    shedOf stack (ds ++ ds') = shedOf stack ds ++ shedOf stack ds' := by
  simp [shedOf, List.flatMap_append]

theorem log_law_step {e e' : Engine α} {ds d : List (Deed α)}
    (hlaw : ∀ stack, logOf stack ds = shedOf stack ds ++ (e.stackOrEmpty stack).done)
    (hacts : Acts e e' d) (stack : String) :
    logOf stack (ds ++ d) = shedOf stack (ds ++ d) ++ (e'.stackOrEmpty stack).done := by
  rw [logOf_append, hlaw, hacts, shedOf_append, List.append_assoc]

/-! ### Reading deeds -/

@[simp] theorem log_shed (stack s : String) (l cs : List (Command α)) :
    Deed.log stack l (.shed s cs) = l := rfl

@[simp] theorem log_ran_false (stack s : String) (l : List (Command α)) (g : Nat) (c : Command α)
    (d : Direction) : Deed.log stack l (.ran g s c d false) = l := by
  cases d <;> rfl

theorem log_ran_other {stack s : String} (hs : s ≠ stack) (l : List (Command α)) (g : Nat)
    (c : Command α) (d : Direction) (ok : Bool) : Deed.log stack l (.ran g s c d ok) = l := by
  cases d <;> cases ok <;> simp [Deed.log, hs]

@[simp] theorem shedFrom_ran (stack s : String) (g : Nat) (c : Command α) (d : Direction) (ok : Bool) :
    Deed.shedFrom stack (.ran g s c d ok) = [] := rfl

theorem stackOrEmpty_congr {e e' : Engine α} (hh : e'.histories = e.histories) (x : String) :
    e'.stackOrEmpty x = e.stackOrEmpty x := by
  simp [stackOrEmpty, stack?, hh]

theorem shedOf_sheds_absent {l : List (Stack α)} (g : Stack α → List (Command α)) {stack : String}
    (habsent : ∀ s ∈ l, s.id ≠ stack) : shedOf stack (l.map fun s => Deed.shed s.id (g s)) = [] := by
  simp only [shedOf, List.flatMap_map, List.flatMap_eq_nil_iff]
  intro s hs
  simp [Deed.shedFrom, habsent s hs]

theorem shedOf_sheds {l : List (Stack α)} (hnodup : (l.map Stack.id).Nodup)
    (g : Stack α → List (Command α)) (stack : String) (hg : g (Stack.empty stack) = []) :
    shedOf stack (l.map fun s => Deed.shed s.id (g s)) =
      g ((l.find? (·.id == stack)).getD (Stack.empty stack)) := by
  induction l with
  | nil => simpa [shedOf] using hg.symm
  | cons t l ih =>
      simp only [List.map_cons, List.nodup_cons] at hnodup
      by_cases ht : t.id = stack
      · -- the stack is the first of its id, and no later one has it
        have habsent : ∀ s ∈ l, s.id ≠ stack := fun s hs hsid =>
          hnodup.1 (ht ▸ List.mem_map.mpr ⟨s, hs, hsid⟩)
        have hrest := shedOf_sheds_absent g habsent
        simp only [shedOf] at hrest
        simp [shedOf, Deed.shedFrom, ht, hrest]
      · have hrest := ih hnodup.2
        simp only [shedOf, List.map_cons, List.flatMap_cons, Deed.shedFrom, ht, if_false, List.nil_append]
        simp only [shedOf] at hrest
        rw [hrest, List.find?_cons_of_neg (by simpa using ht)]

/-! ### How each input acts on the logs -/

theorem Acts.of_histories {e e' e'' : Engine α} {d : List (Deed α)} (h : Acts e e' d)
    (hh : e''.histories = e'.histories) : Acts e e'' d := by
  intro stack l
  rw [h stack l, stackOrEmpty_congr hh]

theorem acts_inert {e e' : Engine α} {d : List (Deed α)}
    (hsame : ∀ x, e'.stackOrEmpty x = e.stackOrEmpty x)
    (hlog : ∀ stack l, d.foldl (Deed.log stack) l = l) (hshed : ∀ stack, shedOf stack d = []) :
    Acts e e' d := by
  intro stack l
  rw [hlog, hshed, hsame, List.append_nil]

theorem acts_nil {e e' : Engine α} (hh : e'.histories = e.histories) : Acts e e' [] :=
  acts_inert (stackOrEmpty_congr hh) (fun _ _ => rfl) (fun _ => rfl)

@[simp] theorem foldl_log_sheds (stack : String) (l : List (Command α)) (ss : List (Stack α))
    (g : Stack α → List (Command α)) :
    (ss.map fun s => Deed.shed s.id (g s)).foldl (Deed.log stack) l = l := by
  induction ss generalizing l with
  | nil => rfl
  | cons s ss ih => exact ih l

/-- Changing every stack at once by `f` sheds `g` of each, where `g` is what `f` cuts off the front
of the done part. -/
theorem acts_sheds {e e' : Engine α} (hnodup : (e.histories.map Stack.id).Nodup)
    (f : Stack α → Stack α) (hf : ∀ t, (f t).id = t.id) (g : Stack α → List (Command α))
    (hg : ∀ id, g (Stack.empty id) = []) (hdone : ∀ s ∈ e.histories, s.done = g s ++ (f s).done)
    (he' : e'.histories = e.histories.map f) :
    Acts e e' (e.histories.map fun s => .shed s.id (g s)) := by
  intro stack l
  have hstack : e'.stack? stack = (e.stack? stack).map f := by
    simp only [stack?, he']
    exact find?_map_id e.histories f hf stack
  have hfind : e.histories.find? (·.id == stack) = e.stack? stack := rfl
  rw [foldl_log_sheds, shedOf_sheds hnodup g stack (hg stack), hfind]
  simp only [stackOrEmpty, hstack]
  cases hs : e.stack? stack with
  | none => simp [hg, Stack.done]
  | some s =>
      simp only [Option.getD_some, Option.map_some]
      rw [hdone s (mem_of_stack? hs).1, List.append_assoc]

theorem stackOrEmpty_withStack_id (e : Engine α) (id x : String) :
    (e.withStack id fun s => s).stackOrEmpty x = e.stackOrEmpty x := by
  unfold stackOrEmpty
  rw [stack?_withStack e id _ (fun t => rfl)]
  split_ifs with hx
  · subst hx
    rfl
  · rfl

theorem Stack.mem_of_undoCommand? {s : Stack α} {c : Command α} (h : s.undoCommand? = some c) :
    c ∈ s.commands :=
  List.mem_of_getElem? (Stack.undoCommand?_eq_some h).2

theorem Stack.mem_of_redoCommand? {s : Stack α} {c : Command α} (h : s.redoCommand? = some c) :
    c ∈ s.commands :=
  List.mem_of_getElem? h

theorem Invariant.bounded_stackOrEmpty {e : Engine α} (h : e.Invariant) (x : String) :
    (e.stackOrEmpty x).Bounded := by
  unfold stackOrEmpty
  cases hs : e.stack? x with
  | none => exact Stack.Bounded.empty x
  | some s => exact (h.fits s (mem_of_stack? hs).1).bounded

theorem stack?_moveCursor_of_neighbour {e : Engine α} {g : Nat} {stack : String} {s : Stack α}
    {c : Command α} {forward : Bool} (hgen : e.generation = g) (hs : e.stack? stack = some s)
    (hc : (if forward then s.redoCommand? else s.undoCommand?) = some c) (x : String) :
    (e.moveCursor g stack c forward).1.stack? x =
      if x = stack then some ((if forward then s.stepForward else s.stepBackward).1.touch (e.sequence + 1))
      else e.stack? x := by
  rcases moveCursor_cases e g stack c forward with ⟨-, hstill⟩ | ⟨-, s', hs', -, -, -, hstack⟩
  · -- the move cannot fail: the neighbour is there
    subst hgen
    have hs₁ : ({ e with sequence := e.sequence + 1 } : Engine α).stack? stack = some s := hs
    cases forward with
    | true =>
        simp only [if_true] at hc
        simp [moveCursor, hs₁, hc, Stack.stepForward_of_redoCommand? hc] at hstill
    | false =>
        simp only [Bool.false_eq_true, if_false] at hc
        simp [moveCursor, hs₁, hc, Stack.stepBackward_of_undoCommand? hc] at hstill
  · rw [hs] at hs'
    cases hs'
    exact hstack x

/-- An undo or a redo whose run on the cursor's neighbour succeeded, with no clear in between, acts
on the log of its stack as the cursor step acts on the done part. -/
theorem acts_moveCursor {e : Engine α} (hinv : e.Invariant) {g : Nat} (hgen : e.generation = g)
    {stack : String} {s : Stack α} {c : Command α} {op : Operation} (hs : e.stack? stack = some s)
    (hop : (op = .undo ∧ s.undoCommand? = some c) ∨ (op = .redo ∧ s.redoCommand? = some c)) :
    Acts e (e.moveCursor g stack c (op == .redo)).1 [Deed.ran e.generation stack c op.direction true] := by
  have hfits := hinv.fits s (mem_of_stack? hs).1
  intro x l
  simp only [stackOrEmpty]
  by_cases hx : x = stack
  · subst hx
    rcases hop with ⟨rfl, hc⟩ | ⟨rfl, hc⟩
    · -- an undo takes the last done command off the log and the done part
      have hne : s.done ≠ [] := by
        intro hnil
        rw [Stack.undoCommand?_eq_getLast? s hfits.bounded, hnil] at hc
        cases hc
      rw [stack?_moveCursor_of_neighbour hgen hs (by simpa using hc), hs]
      simp [Deed.log, Operation.direction, shedOf, Stack.done_stepBackward s hfits.bounded,
        List.dropLast_append_of_ne_nil hne]
    · have hq : c.isQuery = false := hfits.no_query c (Stack.mem_of_redoCommand? hc)
      rw [stack?_moveCursor_of_neighbour hgen hs (by simpa using hc), hs]
      simp [Deed.log, Operation.direction, shedOf, Stack.done_stepForward hc, hq]
  · rw [stack?_moveCursor_of_neighbour hgen hs (by rcases hop with ⟨rfl, hc⟩ | ⟨rfl, hc⟩ <;> simpa using hc),
      if_neg hx]
    simp [log_ran_other (Ne.symm hx), shedOf]

/-- Recording a command that ran successfully and is no query appends it to the log of its stack;
what trimming then cuts off is shed. -/
theorem acts_record {e : Engine α} (hinv : e.Invariant) (stack : String) {c : Command α}
    (hq : c.isQuery = false) :
    Acts e (e.record stack c) [Deed.ran e.generation stack c .forward true,
      .shed stack (((e.stackOrEmpty stack).push c).trimmedFront e.undoLimit)] := by
  intro x l
  by_cases hx : x = stack
  · subst hx
    have hb := (hinv.bounded_stackOrEmpty x).push c
    have hnew : (e.record x c).stackOrEmpty x =
        (((e.stackOrEmpty x).push c).truncate e.undoLimit).1.touch (e.sequence + 1) := by
      simp [stackOrEmpty, stack?_record]
    rw [hnew, Stack.done_touch]
    simp only [List.foldl_cons, List.foldl_nil, Deed.log, shedOf, List.flatMap_cons, Deed.shedFrom,
      List.flatMap_nil, hq, and_self, if_true, List.append_nil, List.nil_append]
    rw [List.append_assoc, List.append_assoc, ← Stack.done_eq_trimmedFront_append _ _ hb,
      Stack.done_push _ _ (hinv.bounded_stackOrEmpty x)]
  · have hold : (e.record stack c).stackOrEmpty x = e.stackOrEmpty x := by
      simp [stackOrEmpty, stack?_record, hx]
    rw [hold]
    simp [log_ran_other (Ne.symm hx), shedOf, Deed.shedFrom, Ne.symm hx]

/-- Within the limits of the invariant, an undo or a redo in flight that is ready never skips its
run: its command sits in a history, so it is no query. -/
theorem Invariant.not_skips {e : Engine α} (hinv : e.Invariant) {stack : String} {s : Stack α}
    {c : Command α} {op : Operation} (hs : e.stack? stack = some s)
    (hop : (op = .undo ∧ s.undoCommand? = some c) ∨ (op = .redo ∧ s.redoCommand? = some c)) :
    c.skips op.direction = false := by
  have hfits := hinv.fits s (mem_of_stack? hs).1
  rcases hop with ⟨-, hc⟩ | ⟨-, hc⟩
  · simp [Command.skips, hfits.no_query c (Stack.mem_of_undoCommand? hc)]
  · simp [Command.skips, hfits.no_query c (Stack.mem_of_redoCommand? hc)]

theorem acts_settled_cursor {e : Engine α} (hinv : e.Invariant) {b : Busy α} {stack : String}
    (hgen : b.generation = e.generation) {s : Stack α} (hs : e.stack? stack = some s)
    (hop : (b.call.operation = .undo ∧ s.undoCommand? = some b.call.command) ∨
      (b.call.operation = .redo ∧ s.redoCommand? = some b.call.command)) (ok : Bool) :
    Acts e { e with histories := if ok then
        (e.moveCursor b.generation stack b.call.command (b.call.operation == .redo)).1.histories
        else e.histories }
      [Deed.ran e.generation stack b.call.command b.call.operation.direction ok] := by
  cases ok with
  | false =>
      exact acts_inert (fun x => rfl) (fun x l => log_ran_false x stack l _ _ _) (fun x => rfl)
  | true =>
      exact Acts.of_histories (acts_moveCursor hinv hgen.symm hs hop) rfl

/-- **A returned run.** When the job in flight is on time, what its returned run does to the
histories acts on the logs as its deeds say. -/
theorem acts_resume {e : Engine α} (hinv : e.Invariant) (hon : e.OnTime) (reports : List ProgressEvent)
    (outcome : Outcome) : Acts e (e.resume reports outcome) (e.deeds (.resume reports outcome)) := by
  cases hbusy : e.busy with
  | none =>
      have hr : e.resume reports outcome = e := resume_idle hbusy reports outcome
      have hd : e.deeds (.resume reports outcome) = [] := by simp [deeds, hbusy]
      rw [hr, hd]
      exact acts_nil rfl
  | some b =>
      obtain ⟨hgen, hready⟩ := hon b hbusy
      suffices hacts : Acts e { e with histories := e.settled b outcome.isOk }
          (e.deeds (.resume reports outcome)) from
        hacts.of_histories (histories_resume hbusy reports outcome)
      simp only [deeds, hbusy]
      unfold Busy.Ready at hready
      unfold settled
      cases hseq : b.sequel with
      | record stack =>
          rw [hseq] at hready
          have hskip : b.call.command.skips .forward = false := by simp [Command.skips]
          have hgen' : (e.generation == b.generation) = true := by simp [hgen]
          simp only [hgen', Sequel.stack, hready, Operation.direction, Bool.and_true, hskip,
            Bool.false_eq_true, if_false]
          by_cases hrec : outcome.isOk = true ∧ b.call.command.isQuery = false
          · -- the command is recorded
            obtain ⟨hok, hq⟩ := hrec
            simp only [hok, hq, Bool.not_false, Bool.and_self, if_true]
            exact Acts.of_histories (acts_record hinv stack hq) rfl
          · have hnot : (outcome.isOk && !b.call.command.isQuery) = false := by
              simpa using hrec
            simp only [hnot, Bool.false_eq_true, if_false]
            refine acts_inert (fun x => rfl) (fun x l => ?_) (fun x => rfl)
            cases hok : outcome.isOk
            · exact log_ran_false x stack l e.generation b.call.command .forward
            · have hq : b.call.command.isQuery = true := by simpa [hok] using hrec
              simp [Deed.log, hq]
      | step stack =>
          rw [hseq] at hready
          obtain ⟨s, hs, hop⟩ := hready
          simp only [Invariant.not_skips hinv hs hop, Sequel.stack]
          exact acts_settled_cursor hinv hgen hs hop outcome.isOk
      | walk stack wanted target =>
          rw [hseq] at hready
          obtain ⟨s, hs, hop⟩ := hready
          simp only [Invariant.not_skips hinv hs hop, Sequel.stack]
          exact acts_settled_cursor hinv hgen hs hop outcome.isOk

theorem histories_apply_submission (e : Engine α) {x : Input α} (hx : x.isSubmission) :
    (e.apply x).histories = e.histories := by
  obtain ⟨n, p, q, m, h, -⟩ := apply_submission e hx
  rw [h]

theorem histories_apply_route (e : Engine α) (scope : Scope) (stack : String) :
    (e.apply (.route scope stack)).histories = e.histories := by
  simp only [apply]
  split
  · rename_i e' hroute
    rw [(route_eq hroute).2.2.2]
  · rfl

/-- **Every input acts on the logs** as it acts on the done parts, provided the job in flight, if
any, is on time. -/
theorem acts_apply {e : Engine α} (hinv : e.Invariant) (hon : e.OnTime) (x : Input α) :
    Acts e (e.apply x) (e.deeds x) := by
  by_cases hx : x.isSubmission
  · have hd : e.deeds x = [] := by
      cases x <;> first | rfl | simp [Input.isSubmission] at hx
    rw [hd]
    exact acts_nil (histories_apply_submission e hx)
  cases x with
  | clear =>
      exact acts_sheds hinv.ids_nodup Stack.clear (fun t => rfl) Stack.done
        (fun id => by simp [Stack.done]) (fun s _ => by simp) rfl
  | setUndoLimit limit =>
      refine acts_sheds hinv.ids_nodup (fun s => (s.truncate limit).1) (fun t => Stack.id_truncate t limit)
        (fun s => s.trimmedFront limit) (fun id => by simp [Stack.trimmedFront])
        (fun s hs => Stack.done_eq_trimmedFront_append s limit (hinv.fits s hs).bounded) ?_
      simp only [apply]
      rw [setUndoLimit_eq]
  | setActive stack =>
      have hh : (e.apply (.setActive stack)).histories =
          (e.withStack (stack.getD e.defaultStack) fun s => s).histories := by
        simp only [apply]
        rw [setActive_eq]
      exact acts_inert (fun x => (stackOrEmpty_congr hh x).trans (stackOrEmpty_withStack_id e _ x))
        (fun _ _ => rfl) (fun _ => rfl)
  | route scope stack => exact acts_nil (histories_apply_route e scope stack)
  | shutdown => exact acts_nil rfl
  | pickUp => exact acts_nil (histories_pickUp e)
  | resume reports outcome => exact acts_resume hinv hon reports outcome
  | reporter serial act => exact acts_nil (histories_handle e serial act)
  | halt => exact acts_nil (histories_halt e)
  | enqueue c => exact absurd rfl hx
  | undo filter => exact absurd rfl hx
  | redo filter => exact absurd rfl hx
  | jump target => exact absurd rfl hx

/-! ### Jobs stay on time in sequential runs -/

theorem Busy.Ready.of_histories {e e' : Engine α} {b : Busy α} (h : b.Ready e)
    (hh : e'.histories = e.histories) : b.Ready e' := by
  have hstack : e'.stack? = e.stack? := by
    funext x
    simp [stack?, hh]
  unfold Busy.Ready at h ⊢
  rw [hstack]
  exact h

theorem OnTime.apply {e : Engine α} (hinv : e.Invariant) (hon : e.OnTime) {x : Input α}
    (hfree : x.isCaller = true → e.busy = none) : (e.apply x).OnTime := by
  intro b hb
  cases hcaller : x.isCaller
  · cases x with
    | pickUp =>
        have hgen := (SameSetup.pickUp e).generation
        rcases busy_pickUp hinv.ids_nodup hb with hold | ⟨-, job, rest, -, hfresh, -, hbgen, -⟩
        · obtain ⟨hbgen, hready⟩ := hon b hold
          exact ⟨hbgen.trans hgen.symm, Busy.Ready.of_histories hready (histories_pickUp e)⟩
        · exact ⟨hbgen.trans hgen.symm, Busy.Ready.of_histories hfresh.2 (histories_pickUp e)⟩
    | resume reports outcome =>
        cases hbusy : e.busy with
        | none =>
            have hr : e.apply (.resume reports outcome) = e := resume_idle hbusy reports outcome
            rw [hr, hbusy] at hb
            cases hb
        | some b₀ =>
            obtain ⟨e₁, -, hhist, -, hfresh, -, hbgen, -, -, hgen₀⟩ := busy_resume hbusy reports outcome hb
            have hgen := (SameSetup.resume e reports outcome).generation
            exact ⟨hbgen.trans (hgen₀.symm.trans hgen.symm),
              Busy.Ready.of_histories hfresh.2 ((histories_resume hbusy reports outcome).trans hhist.symm)⟩
    | reporter serial act =>
        obtain ⟨b₀, extra, hb₀, rfl⟩ := busy_handle e serial act hb
        obtain ⟨hbgen, hready⟩ := hon b₀ hb₀
        exact ⟨hbgen.trans (SameSetup.handle e serial act).generation.symm,
          Busy.Ready.of_histories hready (histories_handle e serial act)⟩
    | halt =>
        rw [Engine.apply, busy_halt] at hb
        obtain ⟨hbgen, hready⟩ := hon b hb
        exact ⟨hbgen.trans (SameSetup.halt e).generation.symm, Busy.Ready.of_histories hready (histories_halt e)⟩
    | _ => cases hcaller
  · rw [busy_apply_caller e hcaller, hfree hcaller] at hb
    cases hb

/-! ### The law over sequential runs -/

/-- **The log law over a run.** If the logs so far agree with the done parts and the job in flight
is on time, they still agree after any sequential run. -/
theorem log_law_run {e : Engine α} (hinv : e.Invariant) (hon : e.OnTime) {xs : List (Input α)}
    (hseq : e.Sequential xs) {ds : List (Deed α)}
    (hlaw : ∀ stack, logOf stack ds = shedOf stack ds ++ (e.stackOrEmpty stack).done) (stack : String) :
    logOf stack (ds ++ e.trace xs) =
      shedOf stack (ds ++ e.trace xs) ++ ((e.run xs).stackOrEmpty stack).done := by
  induction xs generalizing e ds with
  | nil => simpa [trace] using hlaw stack
  | cons x xs ih =>
      obtain ⟨hfree, hrest⟩ := hseq
      have hstep := log_law_step hlaw (acts_apply hinv hon x)
      simpa [trace, List.append_assoc] using ih (hinv.apply x) (hon.apply hinv hfree) hrest hstep

theorem OnTime.run {e : Engine α} (hinv : e.Invariant) (hon : e.OnTime) {xs : List (Input α)}
    (hseq : e.Sequential xs) : (e.run xs).OnTime := by
  induction xs generalizing e with
  | nil => exact hon
  | cons x xs ih =>
      obtain ⟨hfree, hrest⟩ := hseq
      exact ih (hinv.apply x) (hon.apply hinv hfree) hrest

/-- An undo in flight is of the last entry of its stack's log: the log ends with the done part,
and an on-time undo is of the last done command. -/
theorem getLast?_logOf_undo {e : Engine α} (hinv : e.Invariant) (hon : e.OnTime) {ds : List (Deed α)}
    (hlaw : ∀ stack, logOf stack ds = shedOf stack ds ++ (e.stackOrEmpty stack).done) {b : Busy α}
    (hb : e.busy = some b) (hundo : b.call.operation = .undo) :
    (logOf b.sequel.stack ds).getLast? = some b.call.command := by
  obtain ⟨-, hready⟩ := hon b hb
  -- the last entry of the log is the command the cursor would undo
  have hlast : ∀ stack s, e.stack? stack = some s → s.undoCommand? = some b.call.command →
      (logOf stack ds).getLast? = some b.call.command := by
    intro stack s hs hc
    have hbounded := (hinv.fits s (mem_of_stack? hs).1).bounded
    rw [hlaw, List.getLast?_append, stackOrEmpty, hs, Option.getD_some,
      ← Stack.undoCommand?_eq_getLast? s hbounded, hc, Option.some_or]
  unfold Busy.Ready at hready
  cases hseq : b.sequel with
  | record stack =>
      rw [hseq] at hready
      rw [hready] at hundo
      cases hundo
  | step stack =>
      rw [hseq] at hready
      obtain ⟨s, hs, ⟨-, hc⟩ | ⟨hredo, -⟩⟩ := hready
      · exact hlast stack s hs hc
      · rw [hredo] at hundo
        cases hundo
  | walk stack wanted target =>
      rw [hseq] at hready
      obtain ⟨s, hs, ⟨-, hc⟩ | ⟨hredo, -⟩⟩ := hready
      · exact hlast stack s hs hc
      · rw [hredo] at hundo
        cases hundo

/-- **The undo and redo law.** Start from a valid configuration and let callers act only while no
job is in flight, the worker going on whenever it likes, with any outcome of every action run.
Then at every point, the log of every stack, built from the successful runs the worker made for
it, is what left the stack's history from the front followed by the stack's done part; and a job
that undoes, undoes the last entry of its stack's log. -/
theorem log_eq_shed_append_done {c : Config} {e₀ : Engine α} (hcreate : Engine.create c = .ok e₀)
    (xs : List (Input α)) (hseq : e₀.Sequential xs) :
    (∀ stack, logOf stack (e₀.trace xs) =
        shedOf stack (e₀.trace xs) ++ ((e₀.run xs).stackOrEmpty stack).done) ∧
      ∀ b, (e₀.run xs).busy = some b → b.call.operation = .undo →
        (logOf b.sequel.stack (e₀.trace xs)).getLast? = some b.call.command := by
  have hinv₀ := invariant_create hcreate
  obtain ⟨r, f, routes, -, -, -, he₀⟩ := create_eq hcreate
  have hon₀ : e₀.OnTime := by
    intro b hb
    rw [he₀] at hb
    cases hb
  have hlaw₀ : ∀ stack, logOf stack [] = shedOf stack [] ++ (e₀.stackOrEmpty stack).done := by
    intro stack
    rw [he₀]
    simp only [stackOrEmpty, stack?, List.find?_cons, List.find?_nil]
    split <;> rfl
  have hlaw := log_law_run hinv₀ hon₀ hseq hlaw₀
  simp only [List.nil_append] at hlaw
  exact ⟨hlaw, fun b hb hundo =>
    getLast?_logOf_undo (hinv₀.run xs) (hon₀.run hinv₀ hseq) hlaw hb hundo⟩

/-- The law holds along a run of the default configuration that executes a command and then
undoes it, each job run to its end before the next operation. -/
theorem log_eq_shed_append_done_default :
    let xs : List (Input Unit) := [.enqueue { id := 1, text := "add", action := () }, .pickUp,
      .resume [] (.ok .null), .undo none, .pickUp, .resume [] (.ok .null)]
    ∃ e₀ : Engine Unit, Engine.create ({} : Config) = .ok e₀ ∧ e₀.Sequential xs ∧
      (∀ stack, logOf stack (e₀.trace xs) =
          shedOf stack (e₀.trace xs) ++ ((e₀.run xs).stackOrEmpty stack).done) ∧
        ∀ b, (e₀.run xs).busy = some b → b.call.operation = .undo →
          (logOf b.sequel.stack (e₀.trace xs)).getLast? = some b.call.command := by
  intro xs
  have hcreate : Engine.create ({} : Config) =
      .ok ({ registry := {}, defaultStack := "default", undoLimit := 0, capacity := 1024,
             histories := [Stack.empty "default"], active := "default", routes := [] } : Engine Unit) := rfl
  -- callers act at the start and after the first job ended, with no job in flight
  refine ⟨_, hcreate, ?hseq, log_eq_shed_append_done hcreate xs ?hseq⟩
  simp only [xs, Sequential, Input.isCaller]
  refine ⟨fun _ => trivial, ?_, ?_, fun _ => rfl, ?_, ?_, trivial⟩ <;> intro h <;> cases h

end Engine

end ScopedUndo