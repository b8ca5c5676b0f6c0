import ScopedUndo.Playback
import Mathlib.Data.List.Forall2
/-!
# Calling a command

A command can be called on its own, forward or in reverse, any number of times; each call is
handed a new reporter, runs the command's action in a world, turns the action's outcome into the
call's result, moves the command's status and closes its reporter. This module states what a
sequence of calls does, whatever the actions answer and whatever they report on.

A call's result follows from its outcome by four rules, `Command.Answers`: a value passes, a
command failure passes, any other fault becomes a failure of the command carrying the fault's
text, and a stop becomes an unknown failure carrying its payload. Of what the action reports, only
what goes on the call's own reporter gets through: a reporter kept from an earlier call was closed
when that call returned. The reverse of a query runs nothing, reports nothing and answers `null`.

The status after a sequence depends on the whole sequence, not on the last call alone, since a
failure keeps a success that came before it: it is the direction of the last call that succeeded,
failed if calls ran and none succeeded, and pending if none ran (`Status.after`). The reverse of a
query does not count. The proof reads `Status.finish` as a step and folds it (`foldl_finish`).
-/

namespace ScopedUndo

/-- The status a command's calls leave, from the direction of each call that ran its action and
whether it succeeded: the direction of the last success, else failed if any call ran, else
pending. -/
def Status.after (runs : List (Direction × Bool)) : Status :=
  match (runs.filter (·.2)).getLast? with
  | some last => last.1.success
  | none => if runs.isEmpty then .pending else .failed

namespace Command

variable {α σ : Type}

/-- A call's reports and result, as the rules give them from what its action produced when handed
the reporter with serial `k`: `none` when the call runs nothing. -/
inductive Answers (c : Command α) :
    Nat × Option (List (Nat × ProgressEvent) × Outcome) → List ProgressEvent × Except Fault Value →
      Prop
  | skipped (k : Nat) : Answers c (k, none) ([], .ok .null)
  | value (k : Nat) (made : List (Nat × ProgressEvent)) (v : Value) :
      Answers c (k, some (made, .ok v)) (forwarded (· == k) made, .ok v)
  | failure (k : Nat) (made : List (Nat × ProgressEvent)) (f : Fault) (hf : f.isCommandFailure = true) :
      Answers c (k, some (made, .fail f)) (forwarded (· == k) made, .error f)
  | foreign (k : Nat) (made : List (Nat × ProgressEvent)) (f : Fault) (hf : f.isCommandFailure = false) :
      Answers c (k, some (made, .fail f))
        (forwarded (· == k) made, .error (.executionFailed c.text f.message))
  | stop (k : Nat) (made : List (Nat × ProgressEvent)) (payload : Option String) :
      Answers c (k, some (made, .panic payload))
        (forwarded (· == k) made, .error (.unknownFailure c.text (payload.getD "unknown error")))

/-- Calls a command one direction after another, each call handed a new open reporter whose serial
follows the reporters so far: the world, the reporters and the status after the calls, and each
call's reports and result. -/
def calls (run : σ → Command α → Direction → Nat → σ × List (Nat × ProgressEvent) × Outcome)
    (c : Command α) : σ → List Bool → Status → List Direction →
      σ × List Bool × Status × List (List ProgressEvent × Except Fault Value)
  | w, rs, st, [] => (w, rs, st, [])
  | w, rs, st, d :: ds =>
    let now := c.call run w (rs ++ [true]) rs.length st d
    let later := calls run c now.world now.reporters now.status ds
    (later.1, later.2.1, later.2.2.1, (now.reports, now.result) :: later.2.2.2)

/-- What the action produced at each call of a sequence, with the serial the call was handed, the
world going from call to call: `none` for a call that runs nothing. -/
def produced (run : σ → Command α → Direction → Nat → σ × List (Nat × ProgressEvent) × Outcome)
    (c : Command α) : σ → Nat → List Direction → List (Nat × Option (List (Nat × ProgressEvent) × Outcome))
  | _, _, [] => []
  | w, k, d :: ds =>
    if c.skips d then (k, none) :: produced run c w (k + 1) ds
    else (k, some ((run w c d k).2.1, (run w c d k).2.2)) :: produced run c (run w c d k).1 (k + 1) ds

/-- The calls that ran the action, with their direction and whether they succeeded. -/
def ranCalls (ds : List Direction) (outcomes : List (Nat × Option (List (Nat × ProgressEvent) × Outcome))) :
    List (Direction × Bool) :=
  (ds.zip outcomes).filterMap fun p => p.2.2.map fun r => (p.1, r.2.isOk)

end Command

/-! ### One call -/

namespace Command

variable {α σ : Type} (run : σ → Command α → Direction → Nat → σ × List (Nat × ProgressEvent) × Outcome)
  (c : Command α)

theorem answers_settle (k : Nat) (made : List (Nat × ProgressEvent)) (o : Outcome) :
    c.Answers (k, some (made, o)) (forwarded (· == k) made, c.settle o) := by
  cases o with
  | ok v => exact .value k made v
  | fail f =>
      cases hf : f.isCommandFailure
      · simpa [settle, hf] using Answers.foreign k made f hf
      · simpa [settle, hf] using Answers.failure k made f hf
  | panic payload => exact .stop k made payload

theorem call_skips {w : σ} {rs : List Bool} {k : Nat} {st : Status} {d : Direction}
    (h : c.skips d = true) : c.call run w rs k st d = ⟨w, rs.set k false, st, [], .ok .null⟩ := by
  simp [call, h]

theorem call_runs {w : σ} {rs : List Bool} {k : Nat} {st : Status} {d : Direction}
    (h : c.skips d = false) :
    c.call run w rs k st d =
      ⟨(run w c d k).1, rs.set k false, st.finish (run w c d k).2.2.isOk d.success,
        forwarded (rs.getD · false) (run w c d k).2.1, c.settle (run w c d k).2.2⟩ := by
  unfold call
  rw [if_neg (by simp [h])]
  rcases run w c d k with ⟨w', made, o⟩
  -- the status reads success off the result, which is a value exactly when the outcome is one
  cases o with
  | ok v => rfl
  | fail f => cases hf : f.isCommandFailure <;> simp [settle, hf, Outcome.isOk]
  | panic payload => rfl

theorem getD_append_open {rs : List Bool} (hrs : ∀ b ∈ rs, b = false) (k : Nat) :
    (rs ++ [true]).getD k false = (k == rs.length) := by
  rcases Nat.lt_or_ge k rs.length with hk | hk
  · rw [List.getD_eq_getElem?_getD, List.getElem?_append_left hk, List.getElem?_eq_getElem hk,
      Option.getD_some, hrs _ (List.getElem_mem hk)]
    simp [Nat.ne_of_lt hk]
  · rcases Nat.eq_or_lt_of_le hk with rfl | hk'
    · simp [List.getD_eq_getElem?_getD]
    · simp [List.getD_eq_getElem?_getD, List.getElem?_append_right hk, Nat.ne_of_gt hk',
        Nat.sub_ne_zero_of_lt hk']

theorem set_append_length (rs : List Bool) (b : Bool) : (rs ++ [b]).set rs.length false = rs ++ [false] := by
  simp [List.set_append_right]

@[simp] theorem calls_nil (w : σ) (rs : List Bool) (st : Status) : c.calls run w rs st [] = (w, rs, st, []) :=
  rfl

theorem calls_cons (w : σ) (rs : List Bool) (st : Status) (d : Direction) (ds : List Direction) :
    c.calls run w rs st (d :: ds) =
      let now := c.call run w (rs ++ [true]) rs.length st d
      ((c.calls run now.world now.reporters now.status ds).1,
        (c.calls run now.world now.reporters now.status ds).2.1,
        (c.calls run now.world now.reporters now.status ds).2.2.1,
        (now.reports, now.result) :: (c.calls run now.world now.reporters now.status ds).2.2.2) :=
  rfl

end Command

/-! ### The status law -/

namespace Status

theorem finish_true (previous onSuccess : Status) : previous.finish true onSuccess = onSuccess := rfl

theorem finish_false_irrel (s a b : Status) : s.finish false a = s.finish false b := rfl

theorem finish_false_finish_false (s a b : Status) :
    (s.finish false a).finish false b = s.finish false a := by
  cases s <;> rfl

theorem finish_false_success (d : Direction) (b : Status) :
    d.success.finish false b = d.success := by
  cases d <;> rfl

theorem success_ne_running (d : Direction) : d.success ≠ .running := by
  cases d <;> decide

/-- **Folding the status.** Starting from any status, the calls that ran leave the direction of the
last success, or, without a success, the start after one failure, or the start itself if nothing
ran. -/
theorem foldl_finish (start : Status) (runs : List (Direction × Bool)) :
    runs.foldl (fun s r => s.finish r.2 r.1.success) start =
      match (runs.filter (·.2)).getLast? with
      | some last => last.1.success
      | none => if runs.isEmpty then start else start.finish false start := by
  induction runs generalizing start with
  | nil => rfl
  | cons r rest ih =>
      rw [List.foldl_cons, ih]
      obtain ⟨d, ok⟩ := r
      cases hlast : (rest.filter (·.2)).getLast? with
      | some last =>
          -- a later success decides, whatever this call did
          have hsome : ((((d, ok) :: rest).filter (·.2)).getLast?) = some last := by
            cases ok <;> simp [hlast, List.getLast?_cons]
          rw [hsome]
      | none =>
          have hnone : rest.filter (·.2) = [] := List.getLast?_eq_none_iff.mp hlast
          cases ok with
          | true =>
              have hwhole : ((((d, true) :: rest).filter (·.2)).getLast?) = some (d, true) := by
                simp [hnone]
              rw [hwhole]
              cases hrest : rest.isEmpty
              · simp [finish_true, finish_false_success]
              · rfl
          | false =>
              have hwhole : ((((d, false) :: rest).filter (·.2)).getLast?) = none := by
                simp [hnone]
              rw [hwhole]
              cases rest.isEmpty
              · simp [finish_false_finish_false, finish_false_irrel _ d.success start]
              · simp [finish_false_irrel _ d.success start]

theorem after_eq_foldl (runs : List (Direction × Bool)) :
    after runs = runs.foldl (fun s r => s.finish r.2 r.1.success) .pending := by
  rw [foldl_finish]
  unfold after
  cases (runs.filter (·.2)).getLast? with
  | some last => rfl
  | none => rfl

theorem after_ne_running (runs : List (Direction × Bool)) : after runs ≠ .running := by
  unfold after
  split
  · exact success_ne_running _
  · split <;> decide

end Status

/-! ### A sequence of calls -/

namespace Command

variable {α σ : Type} (run : σ → Command α → Direction → Nat → σ × List (Nat × ProgressEvent) × Outcome)
  (c : Command α)

/-- Every call adds its reporter and closes it on return; the reporters before the calls are left
as they were. -/
theorem reporters_calls (w : σ) (rs : List Bool) (st : Status) (ds : List Direction) :
    (c.calls run w rs st ds).2.1 = rs ++ List.replicate ds.length false := by
  induction ds generalizing w rs st with
  | nil => simp
  | cons d ds ih =>
      have hclosed : (c.call run w (rs ++ [true]) rs.length st d).reporters = rs ++ [false] := by
        cases hskip : c.skips d
        · rw [call_runs run c hskip, set_append_length]
        · rw [call_skips run c hskip, set_append_length]
      rw [calls_cons]
      dsimp only
      rw [ih, hclosed, List.length_cons, List.replicate_succ, List.append_assoc, List.singleton_append]

/-- With every reporter closed before the calls, each call answers as the rules say of what its
action produced. -/
theorem forall₂_answers (w : σ) (rs : List Bool) (st : Status) (ds : List Direction)
    (hrs : ∀ b ∈ rs, b = false) :
    List.Forall₂ c.Answers (c.produced run w rs.length ds) (c.calls run w rs st ds).2.2.2 := by
  induction ds generalizing w rs st with
  | nil => exact .nil
  | cons d ds ih =>
      have hnext : ∀ b ∈ rs ++ [false], b = false := by
        intro b hb
        rcases List.mem_append.mp hb with hb | hb
        · exact hrs b hb
        · exact List.mem_singleton.mp hb
      have hlen : (rs ++ [false]).length = rs.length + 1 := List.length_append
      rw [calls_cons]
      dsimp only
      cases hskip : c.skips d
      · rw [produced, if_neg (by simp [hskip]), call_runs run c hskip]
        dsimp only
        rw [set_append_length, funext (getD_append_open hrs)]
        exact .cons (answers_settle c _ _ _) (hlen ▸ ih _ _ _ hnext)
      · rw [produced, if_pos hskip, call_skips run c hskip]
        dsimp only
        rw [set_append_length]
        exact .cons (.skipped _) (hlen ▸ ih _ _ _ hnext)

/-- The world goes through the action's runs of the calls that ran it, in order and each with its
own reporter, and nothing else. -/
theorem world_calls (w : σ) (rs : List Bool) (st : Status) (ds : List Direction) :
    (c.calls run w rs st ds).1 =
      ((ds.zipIdx rs.length).filter fun p => !c.skips p.1).foldl (fun w p => (run w c p.1 p.2).1) w := by
  induction ds generalizing w rs st with
  | nil => rfl
  | cons d ds ih =>
      rw [calls_cons]
      dsimp only
      rw [ih, List.zipIdx_cons]
      cases hskip : c.skips d
      · rw [call_runs run c hskip]
        simp [hskip]
      · rw [call_skips run c hskip]
        simp [hskip]

theorem status_calls (w : σ) (rs : List Bool) (st : Status) (ds : List Direction) :
    (c.calls run w rs st ds).2.2.1 =
      (ranCalls ds (c.produced run w rs.length ds)).foldl (fun s r => s.finish r.2 r.1.success) st := by
  induction ds generalizing w rs st with
  | nil => rfl
  | cons d ds ih =>
      rw [calls_cons]
      dsimp only
      cases hskip : c.skips d
      · rw [produced, if_neg (by simp [hskip]), call_runs run c hskip]
        simp [ranCalls, ih]
      · rw [produced, if_pos hskip, call_skips run c hskip]
        simpa [ranCalls, set_append_length] using ih w (rs ++ [false]) st

/-- **The law of call sequences.** Call a command forward and in reverse in any order, each call
handed a new reporter while those handed out before are closed, its action answering anything and
reporting on any reporter. The action runs once for each call but the reverse of a query, in order;
each call answers as the rules say of what the action produced, and of its reports only those on
its own reporter get through; the status is the direction of the last call that succeeded, failed
if calls ran and none succeeded, pending if none ran, and never running, the reverse of a query not
counting; and every call's reporter is closed once the call returns. -/
theorem call_sequence_law (w : σ) (rs : List Bool) (ds : List Direction) (hrs : ∀ b ∈ rs, b = false) :
    (c.calls run w rs .pending ds).1 =
        ((ds.zipIdx rs.length).filter fun p => !c.skips p.1).foldl (fun w p => (run w c p.1 p.2).1) w ∧
      List.Forall₂ c.Answers (c.produced run w rs.length ds) (c.calls run w rs .pending ds).2.2.2 ∧
      (c.calls run w rs .pending ds).2.2.1 = Status.after (ranCalls ds (c.produced run w rs.length ds)) ∧
      (c.calls run w rs .pending ds).2.2.1 ≠ .running ∧
      (c.calls run w rs .pending ds).2.1 = rs ++ List.replicate ds.length false := by
  have hstatus : (c.calls run w rs .pending ds).2.2.1 =
      Status.after (ranCalls ds (c.produced run w rs.length ds)) := by
    rw [status_calls, Status.after_eq_foldl]
  exact ⟨world_calls run c w rs .pending ds, forall₂_answers run c w rs .pending ds hrs, hstatus,
    hstatus ▸ Status.after_ne_running _, reporters_calls run c w rs .pending ds⟩

/-- Two calls of a played-back command after one whose reporter is already closed: both reporters
are closed at the end. -/
theorem call_sequence_law_after_closed :
    (∀ b ∈ [false], b = false) ∧
      (({ id := 0, text := "Slow", action := { forward := some [.ok .null] } } : Command Playback).calls
        Stage.act {} [false] .pending [.forward, .reverse]).2.1 = [false, false, false] :=
  ⟨by simp, (call_sequence_law Stage.act _ {} [false] [.forward, .reverse] (by simp)).2.2.2.2⟩

/-- A reverse that fails after a successful execution keeps the command applied; a report the
reverse makes on the reporter the execution kept is dropped, and its own report gets through. -/
example :
    (({ id := 0, text := "Stubborn",
        action := { forward := some [.ok .null],
                    reverse := some [.fail (.executionFailed "Stubborn" "locked")],
                    forwardCues := [.report (.text "a"), .keep],
                    reverseCues := [.late (.text "b"), .report (.text "c")] } } :
        Command Playback).calls Stage.act {} [] .pending [.forward, .reverse]) |>.2.2 |>
      fun r => r.1 = .applied ∧ r.2.map (·.1) = [[.text "a"], [.text "c"]] := by
  decide

end Command

end ScopedUndo
