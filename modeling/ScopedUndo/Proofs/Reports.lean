import ScopedUndo.Proofs.Ledger.Scripts
/-!
# Every statement of a script is reported

A session writes what it does as lines. Read back, they are `Note`s: the report of a job, `ok` with
its label and value or `error:` with the engine's message; a failure; a command put aside in the
background; or what a statement says about the engine or the ledger. `Tells` says which notes a
statement may write, given the labels of the jobs put aside and not reported yet, and `Says` strings
the statements of a script together, the jobs still put aside reported at the end.

A session settles every job as soon as it is submitted, so between statements its engine is
`Settled`, and every job it put aside has its reply. From that each statement writes what `Tells`
allows (`runLine_handled`), and a run of a script writes what `Says` allows, counting one statement a
line and one failure a failure note (`run_says`). A fatal failure stops the run at its statement,
whatever follows (`run_fatal`). On a fresh session nothing is put aside to begin with, so a script
writes at most one failure a statement (`Says.failures_le`), and `session_reports_every_statement`
gathers the whole account.
-/

namespace ScopedUndo

namespace Engine

variable {α σ : Type}

/-- An engine with nothing outstanding: no job in flight or queued, its invariant, and books of the
tickets it handed out. -/
structure Settled (e : Engine α) : Prop where
  idle : e.busy = none
  drained : e.queue = []
  invariant : e.Invariant
  books : ∃ acc ran, e.Books acc ran

theorem Books.replies_eq {acc ran : List Nat} {e : Engine α} (h : e.Books acc ran)
    (hidle : e.busy = none) (hdrained : e.queue = []) : e.replies.map (·.ticket) = acc := by
  simpa [Engine.tickets, hidle, hdrained] using h.tickets

theorem reply?_of_mem {e : Engine α} {t : Nat} (h : t ∈ e.replies.map (·.ticket)) :
    ∃ r, e.reply? t = some r := by
  obtain ⟨r, hr, rfl⟩ := List.mem_map.mp h
  exact Option.isSome_iff_exists.mp (List.find?_isSome.mpr ⟨r, hr, by simp⟩)

namespace Settled

variable {e : Engine α}

theorem books_replies (h : e.Settled) : ∃ ran, e.Books (e.replies.map (·.ticket)) ran := by
  obtain ⟨acc, ran, hb⟩ := h.books
  rw [hb.replies_eq h.idle h.drained]
  exact ⟨ran, hb⟩

theorem control (h : e.Settled) {x : Input α} (hx : x.isCaller) (hsub : x.isSubmission = false) :
    (e.apply x).Settled ∧ (e.apply x).replies.map (·.ticket) = e.replies.map (·.ticket) := by
  obtain ⟨hjobs, -, -⟩ := apply_control e hx hsub
  obtain ⟨ran, hb⟩ := h.books_replies
  have hb' := hb.control h.invariant hx hsub
  have hidle : (e.apply x).busy = none := hjobs.busy.trans h.idle
  have hdrained : (e.apply x).queue = [] := hjobs.queue.trans h.drained
  exact ⟨⟨hidle, hdrained, h.invariant.apply x, _, _, hb'⟩, hb'.replies_eq hidle hdrained⟩

theorem refused (h : e.Settled) {x : Input α} (hx : x.isSubmission) (hnone : e.ticketOf x = none) :
    (e.apply x).Settled ∧ (e.apply x).replies = e.replies := by
  rcases submission_cases e hx with ⟨-, n, p, -, happly, -⟩ | ⟨job, hsome, -⟩
  · obtain ⟨ran, hb⟩ := h.books_replies
    have hb' := hb.submission hx
    rw [happly] at hb' ⊢
    exact ⟨⟨h.idle, h.drained, by simpa [happly] using h.invariant.apply x, _, _, hb'⟩, rfl⟩
  · rw [hnone] at hsome
    cases hsome

/-- A submission, with the worker then run to its end, leaves a settled engine settled: the replies it
had stay, and the submission's ticket, when it was taken, has its reply after them. -/
theorem submission (h : e.Settled) {x : Input α} (hx : x.isSubmission)
    (run : σ → Command α → Direction → σ × List ProgressEvent × Outcome) (w : σ) :
    ((e.apply x).work run (fun _ => false) w).2.Settled ∧
      e.replies.map (·.ticket) ++ (e.ticketOf x).toList <+:
        ((e.apply x).work run (fun _ => false) w).2.replies.map (·.ticket) := by
  obtain ⟨hidle, hdrained⟩ := work_submission run w h.invariant h.idle h.drained hx
  obtain ⟨ran, hb⟩ := h.books_replies
  have hinv := h.invariant.apply x
  -- the worker's steps are a run of inputs, which keeps the books
  have hb' := (hb.submission hx).run hinv
    (workInputs run (fun _ => false) (e.apply x).workBound w (e.apply x))
  rw [← workFor_eq_run] at hb'
  refine ⟨⟨hidle, hdrained, hinv.workFor _ _, _, _, hb'⟩, ?_⟩
  rw [work, hb'.replies_eq hidle hdrained]
  exact List.prefix_append _ _

end Settled

end Engine

open Cli

/-! ### What a session writes -/

inductive Note where
  /-- How a job ended, under its label. -/
  | answered (label : String) (result : Except Fault Value)
  /-- A statement that failed at once: refused, or a job the engine did not take. -/
  | failed (e : CliError)
  /-- A command put aside to run in the background. -/
  | queued (text : String)
  /-- What a statement says about the engine or the ledger. -/
  | said (text : String)

namespace Note

def line : Note → String
  | answered _ (.error f) => "error: " ++ (CliError.engine f).userMessage
  | answered label (.ok .null) => "ok " ++ label
  | answered label (.ok v) => "ok " ++ label ++ " -> " ++ v.compact
  | failed e => "error: " ++ e.userMessage
  | queued text => "queued " ++ text
  | said text => text

def isFailure : Note → Bool
  | answered _ (.error _) | failed _ => true
  | _ => false

end Note

/-- The label a job statement is reported under: the text of its ledger entry, or the name of the
step or walk. Other statements run no job. -/
def Statement.label? : Statement → Option String
  | .set scope account value => some (Entry.set (scope, account) value).text
  | .add scope account delta => some (Entry.add (scope, account) delta).text
  | .get scope account => some (Entry.get (scope, account)).text
  | .undo _ => some "undo"
  | .redo _ => some "redo"
  | .jump (some i) => some ("jump " ++ toString i)
  | .jump none => some "jump none"
  | _ => none

theorem Statement.ne_wait_of_label? {st : Statement} {label : String} (h : st.label? = some label) :
    st ≠ .wait := by
  rintro rfl
  cases h

/-- Whether a statement submits a ledger command, which says so when it is put aside. -/
def Statement.isCommand : Statement → Bool
  | .set .. | .add .. | .get .. => true
  | _ => false

namespace Session

/-- The notes reporting the jobs of labels `pending`, one each, in order: its value or its failure. -/
def Reports (pending : List String) (notes : List Note) : Prop :=
  List.Forall₂ (fun label note => ∃ r, note = .answered label r) pending notes

/-- What one statement may write, `pending` being the labels of the jobs put aside and not reported
yet before it, and `pending'` after it. A job waited for is reported at once; a job put aside is
reported later, a command after saying it is queued; a failure is written at once; a `wait` reports
every job put aside, in order; any other statement only says things. -/
inductive Tells : List String → ScriptLine → List Note → List String → Prop
  | answered {pending : List String} {line : ScriptLine} {label : String} (r : Except Fault Value) :
      line.statement.label? = some label → line.background = false →
      Tells pending line [.answered label r] pending
  | deferred {pending : List String} {line : ScriptLine} {label : String} :
      line.statement.label? = some label → line.background = true →
      Tells pending line (if line.statement.isCommand then [.queued label] else []) (pending ++ [label])
  | failed {pending : List String} {line : ScriptLine} {e : CliError} :
      e.isFatal = false → line.statement ≠ .wait → Tells pending line [.failed e] pending
  | wait {pending : List String} {line : ScriptLine} {notes : List Note} :
      line.statement = .wait → Reports pending notes → Tells pending line notes []
  | said {pending : List String} {line : ScriptLine} (texts : List String) :
      line.statement.label? = none → line.statement ≠ .wait →
      Tells pending line (texts.map .said) pending

/-- What a script may write: each statement what it tells, and at the end the reports of the jobs
still put aside. -/
inductive Says : List String → List ScriptLine → List Note → Prop
  | finish {pending : List String} {notes : List Note} : Reports pending notes → Says pending [] notes
  | next {pending pending' : List String} {line : ScriptLine} {rest : List ScriptLine}
      {notes notes' : List Note} :
      Tells pending line notes pending' → Says pending' rest notes' →
      Says pending (line :: rest) (notes ++ notes')

theorem Reports.failures_le {pending : List String} {notes : List Note} (h : Reports pending notes) :
    notes.countP Note.isFailure ≤ pending.length := by
  rw [h.length_eq]
  exact List.countP_le_length

/-- A statement writes at most one failure of its own: a job it puts aside is reported, and may
fail, only later, so it is counted with the jobs put aside. -/
theorem Tells.failures_le {pending pending' : List String} {line : ScriptLine} {notes : List Note}
    (h : Tells pending line notes pending') :
    notes.countP Note.isFailure + pending'.length ≤ pending.length + 1 := by
  have hle : notes.countP Note.isFailure ≤ notes.length := List.countP_le_length
  cases h with
  | answered =>
      simp only [List.length_singleton] at hle
      omega
  | deferred =>
      split <;> simp [Note.isFailure]
  | failed =>
      simp only [List.length_singleton] at hle
      omega
  | wait _ hrep =>
      have hjobs := hrep.failures_le
      simp only [List.length_nil]
      omega
  | said texts =>
      simp [List.countP_map, Function.comp_def, Note.isFailure]

theorem Says.failures_le {pending : List String} {script : List ScriptLine} {notes : List Note}
    (h : Says pending script notes) : notes.countP Note.isFailure ≤ script.length + pending.length := by
  induction h with
  | finish hrep => simpa using hrep.failures_le
  | next htells _ ih =>
      have hline := htells.failures_le
      rw [List.countP_append, List.length_cons]
      omega

/-- From `s` to `s'` the session wrote the lines of `notes` and counted their failures. -/
structure Wrote (s s' : Session) (notes : List Note) : Prop where
  output : s'.output = s.output ++ notes.map Note.line
  failures : s'.summary.failures = s.summary.failures + notes.countP Note.isFailure
  statements : s'.summary.statements = s.summary.statements

def pendingOf (s : Session) : List String :=
  s.background.map (·.label)

@[simp] theorem pendingOf_say (s : Session) (text : String) : (s.say text).pendingOf = s.pendingOf :=
  rfl

@[simp] theorem pendingOf_fail (s : Session) (e : CliError) : (s.fail e).pendingOf = s.pendingOf :=
  rfl

@[simp] theorem pendingOf_settle (s : Session) : s.settle.pendingOf = s.pendingOf :=
  rfl

theorem pendingOf_defer (s : Session) (d : Deferred) :
    pendingOf { s with background := s.background ++ [d] } = s.pendingOf ++ [d.label] := by
  simp [pendingOf]

/-- A session between statements: its engine settled, and a reply for every job it put aside. -/
structure Quiet (s : Session) : Prop where
  settled : s.engine.Settled
  answered : ∀ d ∈ s.background, d.ticket ∈ s.engine.replies.map (·.ticket)

namespace Wrote

variable {s s₁ s₂ : Session} {notes notes' : List Note}

theorem self (s : Session) : Wrote s s [] :=
  ⟨by simp, by simp, rfl⟩

theorem trans (h₁ : Wrote s s₁ notes) (h₂ : Wrote s₁ s₂ notes') : Wrote s s₂ (notes ++ notes') where
  output := by rw [h₂.output, h₁.output, List.map_append, List.append_assoc]
  failures := by
    rw [h₂.failures, h₁.failures, List.countP_append]
    omega
  statements := h₂.statements.trans h₁.statements

theorem of_eq (hout : s₁.output = s.output) (hsummary : s₁.summary = s.summary) : Wrote s s₁ [] :=
  ⟨by simp [hout], by simp [hsummary], by rw [hsummary]⟩

theorem say (s : Session) {n : Note} (hn : n.isFailure = false) : Wrote s (s.say n.line) [n] :=
  ⟨rfl, by simp [Session.say, hn], rfl⟩

theorem fail (s : Session) {e : CliError} {n : Note} (hline : n.line = "error: " ++ e.userMessage)
    (hn : n.isFailure = true) : Wrote s (s.fail e) [n] :=
  ⟨by simp [Session.fail, Session.say, hline], by simp [Session.fail, hn], rfl⟩

theorem said (hout : s₁.output = s.output) (hsummary : s₁.summary = s.summary) (text : String) :
    Wrote s (s₁.say text) [.said text] :=
  (of_eq hout hsummary).trans (say s₁ (n := .said text) rfl)

end Wrote

theorem Quiet.of_eq {s s' : Session} (h : s.Quiet) (he : s'.engine = s.engine)
    (hb : s'.background = s.background) : s'.Quiet :=
  ⟨he ▸ h.settled, fun d hd => he ▸ h.answered d (hb ▸ hd)⟩

theorem settle_of_settled {s : Session} (h : s.engine.Settled) : s.settle = s := by
  rw [settle_eq, Engine.work, Engine.workFor_idle h.idle h.drained]

theorem report_error (s : Session) (label : String) (f : Fault) :
    s.report label (.error f) = (s, some (.engine f)) := rfl

theorem report_ok (s : Session) (label : String) (v : Value) :
    s.report label (.ok v) = (s.say (Note.answered label (.ok v)).line, none) := by
  cases v <;> rfl

/-- What running one statement on a session `s` did, given its result: it went through, leaving the
session quiet, having written what it tells; or it failed, leaving the session quiet with nothing
written yet, the line of its failure being a note it tells; or it failed fatally. -/
inductive Handled (s : Session) (line : ScriptLine) : Session × Option CliError → Prop
  | went {s' : Session} {notes : List Note} : s'.Quiet → Tells s.pendingOf line notes s'.pendingOf →
      Wrote s s' notes → Handled s line (s', none)
  | failed {s' : Session} {e : CliError} (n : Note) : e.isFatal = false → s'.Quiet → Wrote s s' [] →
      Tells s.pendingOf line [n] s'.pendingOf → n.line = "error: " ++ e.userMessage →
      n.isFailure = true → Handled s line (s', some e)
  | fatal {s' : Session} {e : CliError} : e.isFatal = true →
      s'.summary.statements = s.summary.statements → Handled s line (s', some e)

theorem Handled.refused {s s' : Session} {line : ScriptLine} (hq : s'.Quiet) (hw : Wrote s s' [])
    (hpending : s'.pendingOf = s.pendingOf) (hwait : line.statement ≠ .wait) (e : CliError) :
    Handled s line (s', some e) := by
  cases hfatal : e.isFatal
  · refine .failed (.failed e) hfatal hq hw ?_ rfl rfl
    rw [hpending]
    exact .failed hfatal hwait
  · exact .fatal hfatal hw.statements

theorem Handled.said {s s' : Session} {line : ScriptLine} (hq : s'.Quiet) (texts : List String)
    (hw : Wrote s s' (texts.map .said)) (hpending : s'.pendingOf = s.pendingOf)
    (hlabel : line.statement.label? = none) (hwait : line.statement ≠ .wait) :
    Handled s line (s', none) := by
  refine .went hq ?_ hw
  rw [hpending]
  exact .said texts hlabel hwait

/-- A job put aside, once the engine has its reply, joins the jobs pending; a command says first
that it is queued. -/
theorem Handled.deferred {s s₁ : Session} {line : ScriptLine} {label : String} {t : Nat}
    (hq : s₁.Quiet) (hmem : t ∈ s₁.engine.replies.map (·.ticket))
    (hlabel : line.statement.label? = some label) (hbg : line.background = true)
    (hpending : s₁.pendingOf = s.pendingOf)
    (hw : Wrote s s₁ (if line.statement.isCommand then [.queued label] else [])) :
    Handled s line ({ s₁ with background := s₁.background ++ [⟨line.line, label, t⟩] }, none) := by
  refine .went ⟨hq.settled, fun d hd => ?_⟩ ?_ ⟨hw.output, hw.failures, hw.statements⟩
  · rcases List.mem_append.mp hd with hd | hd
    · exact hq.answered d hd
    · rw [List.mem_singleton.mp hd]
      exact hmem
  · rw [pendingOf_defer, hpending]
    exact .deferred hlabel hbg

theorem Quiet.refused {s s₁ : Session} (h : s.Quiet) {x : Engine.Input Entry} (hx : x.isSubmission)
    (hnone : s.engine.ticketOf x = none) (he : s₁.engine = s.engine.apply x)
    (hb : s₁.background = s.background) : s₁.Quiet := by
  obtain ⟨hsettled, hreplies⟩ := h.settled.refused hx hnone
  refine ⟨he ▸ hsettled, fun d hd => ?_⟩
  rw [he, hreplies]
  exact h.answered d (hb ▸ hd)

/-- A submission the engine took, settled: the session is quiet again and has the reply of its
ticket. -/
theorem settle_submission {s s₁ : Session} (h : s.Quiet) {x : Engine.Input Entry}
    (hx : x.isSubmission) {t : Nat} (ht : s.engine.ticketOf x = some t)
    (he : s₁.engine = s.engine.apply x) (hb : s₁.background = s.background) :
    s₁.settle.Quiet ∧ t ∈ s₁.settle.engine.replies.map (·.ticket) := by
  obtain ⟨hsettled, hprefix⟩ := h.settled.submission hx Ledger.run s₁.ledger
  rw [ht, Option.toList_some] at hprefix
  rw [settle_eq, he]
  refine ⟨⟨hsettled, fun d hd => hprefix.subset (List.mem_append_left _ (h.answered d (hb ▸ hd)))⟩,
    hprefix.subset (List.mem_append_right _ List.mem_cons_self)⟩

/-- **A job taken by the engine is reported.** Waited for, it is reported at once by its reply; put
aside, it joins the jobs pending. -/
theorem finish_handled {s s₁ : Session} (h : s.Quiet) {x : Engine.Input Entry} (hx : x.isSubmission)
    {t : Nat} (ht : s.engine.ticketOf x = some t) (he : s₁.engine = s.engine.apply x)
    (hw : Wrote s s₁ []) (hb : s₁.background = s.background) {line : ScriptLine} {label : String}
    (hlabel : line.statement.label? = some label)
    (hcmd : line.background = true → line.statement.isCommand = false) :
    Handled s line (s₁.finish line label t) := by
  obtain ⟨hquiet, hmem⟩ := settle_submission h hx ht he hb
  have hw₂ : Wrote s s₁.settle [] := hw.trans (Wrote.of_eq rfl rfl)
  have hpending : s₁.settle.pendingOf = s.pendingOf := by
    rw [pendingOf, pendingOf, ← hb]
    rfl
  unfold finish
  cases hbg : line.background
  · -- waited for: the reply is there, and is reported
    obtain ⟨r, hr⟩ := Engine.reply?_of_mem hmem
    simp only [Bool.false_eq_true, if_false, hr]
    cases hres : r.result with
    | error f =>
        rw [report_error]
        refine .failed (.answered label (.error f)) rfl hquiet hw₂ ?_ rfl rfl
        rw [hpending]
        exact .answered _ hlabel hbg
    | ok v =>
        rw [report_ok]
        refine .went (hquiet.of_eq rfl rfl) ?_ (hw₂.trans (Wrote.say _ rfl))
        rw [pendingOf_say, hpending]
        exact .answered _ hlabel hbg
  · -- put aside: it joins the pending jobs, and says nothing
    simp only [if_true]
    refine Handled.deferred hquiet hmem hlabel hbg hpending ?_
    rw [hcmd hbg, if_neg Bool.false_ne_true]
    exact hw₂

theorem job_handled {s : Session} (h : s.Quiet) {x : Engine.Input Entry} (hx : x.isSubmission)
    {line : ScriptLine} {label : String} (hlabel : line.statement.label? = some label)
    (hcmd : line.statement.isCommand = false) (wrap : Fault → CliError)
    {submitted : Engine Entry × Except Fault Nat} (he : submitted.1 = s.engine.apply x)
    (hticket : submitted.2.toOption = s.engine.ticketOf x) :
    Handled s line (s.job line label wrap submitted) := by
  have hwait := Statement.ne_wait_of_label? hlabel
  have he₁ : ({ s with engine := submitted.1 } : Session).engine = s.engine.apply x := he
  unfold job
  dsimp only
  cases hr : submitted.2 with
  | error f =>
      rw [hr] at hticket
      dsimp only
      have hquiet : ({ s with engine := submitted.1 } : Session).Quiet :=
        h.refused hx hticket.symm he₁ rfl
      have hw : Wrote s { s with engine := submitted.1 } [] := Wrote.of_eq rfl rfl
      exact Handled.refused hquiet hw rfl hwait (wrap f)
  | ok t =>
      rw [hr] at hticket
      dsimp only
      exact finish_handled h hx hticket.symm he₁ (Wrote.of_eq rfl rfl) rfl hlabel fun _ => hcmd

/-- **A ledger statement** fails when its scope is unknown or the engine refuses its command, and
its command is reported otherwise: at once, or, put aside, after saying it is queued. -/
theorem submit_handled {s : Session} (h : s.Quiet) (line : ScriptLine) (entry : Entry)
    (hlabel : line.statement.label? = some entry.text) (hcmd : line.statement.isCommand = true) :
    Handled s line (s.submit line entry) := by
  have hwait := Statement.ne_wait_of_label? hlabel
  unfold Session.submit
  cases hscope : s.engine.registry.scopeOf entry.account.1 with
  | error f => exact Handled.refused h (Wrote.self s) rfl hwait _
  | ok scope =>
      dsimp only
      obtain ⟨e₁, r, hq⟩ : ∃ e₁ r, s.engine.enqueue (s.command scope entry) = (e₁, r) := ⟨_, _, rfl⟩
      have happly : e₁ = s.engine.apply (.enqueue (s.command scope entry)) := by
        rw [Engine.apply, hq]
      have hticket : r.toOption = s.engine.ticketOf (.enqueue (s.command scope entry)) := by
        rw [Engine.ticketOf, hq]
      rw [command] at hq
      rw [hq]
      cases r with
      | error f =>
          dsimp only
          have hquiet : ({ s with built := s.built + 1, engine := e₁ } : Session).Quiet :=
            h.refused rfl hticket.symm happly rfl
          have hw : Wrote s { s with built := s.built + 1, engine := e₁ } [] := Wrote.of_eq rfl rfl
          exact Handled.refused hquiet hw rfl hwait _
      | ok t =>
          dsimp only
          cases hbg : line.background
          · have he₁ : ({ s with built := s.built + 1, engine := e₁ } : Session).engine =
                s.engine.apply (.enqueue (s.command scope entry)) := happly
            exact finish_handled h rfl hticket.symm he₁ (Wrote.of_eq rfl rfl) rfl hlabel
              (fun hbg' => absurd hbg' (by simp [hbg]))
          · -- put aside: it says it is queued, and joins the pending jobs
            simp only [if_true]
            have he₂ : (({ s with built := s.built + 1, engine := e₁ } : Session).say
                ("queued " ++ entry.text)).engine = s.engine.apply (.enqueue (s.command scope entry)) :=
              happly
            obtain ⟨hquiet, hmem⟩ := settle_submission h rfl hticket.symm he₂ rfl
            have hw : Wrote s (({ s with built := s.built + 1, engine := e₁ } : Session).say
                (Note.queued entry.text).line).settle [.queued entry.text] :=
              ((Wrote.of_eq rfl rfl).trans (Wrote.say _ rfl)).trans (Wrote.of_eq rfl rfl)
            refine Handled.deferred hquiet hmem hlabel hbg rfl ?_
            rw [hcmd, if_pos rfl]
            exact hw

/-- An undo or a redo fails when the scope names it filters by are unknown, and is a job
otherwise. -/
theorem step_handled {s : Session} (h : s.Quiet) (line : ScriptLine) (label : String)
    (submit : Engine Entry → Option Scope → Engine Entry × Except Fault Nat)
    (input : Option Scope → Engine.Input Entry)
    (hinput : ∀ f, (input f).isSubmission ∧ (submit s.engine f).1 = s.engine.apply (input f) ∧
      (submit s.engine f).2.toOption = s.engine.ticketOf (input f))
    (hlabel : line.statement.label? = some label) (hcmd : line.statement.isCommand = false)
    (scopes : Option String) : Handled s line (s.step line label submit scopes) := by
  unfold Session.step
  cases scopes with
  | none =>
      obtain ⟨hx, he, ht⟩ := hinput none
      exact job_handled h hx hlabel hcmd .engine he ht
  | some text =>
      dsimp only
      cases s.engine.registry.scopeOfText text with
      | error f => exact Handled.refused h (Wrote.self s) rfl (Statement.ne_wait_of_label? hlabel) _
      | ok filter =>
          obtain ⟨hx, he, ht⟩ := hinput (some filter)
          exact job_handled h hx hlabel hcmd .ofScopeLookup he ht

/-! ### Waiting for the jobs put aside -/

/-- One job reported by a wait: its report written and its failure counted. -/
def reportJob (s : Session) (job : Deferred) : Session :=
  match s.engine.reply? job.ticket with
  | some r =>
    match s.report job.label r.result with
    | (s, some e) => s.fail e
    | (s, none) => s
  | none => s

theorem waitBackground_eq (s : Session) :
    s.waitBackground = s.settle.background.foldl reportJob { s.settle with background := [] } :=
  rfl

/-- Reporting jobs that have their replies writes one report each, in order, and changes neither
the engine nor the jobs put aside. -/
theorem foldl_reportJob (jobs : List Deferred) (s : Session)
    (hjobs : ∀ d ∈ jobs, d.ticket ∈ s.engine.replies.map (·.ticket)) :
    ∃ notes, Reports (jobs.map (·.label)) notes ∧ Wrote s (jobs.foldl reportJob s) notes ∧
      (jobs.foldl reportJob s).engine = s.engine ∧ (jobs.foldl reportJob s).background = s.background := by
  induction jobs generalizing s with
  | nil => exact ⟨[], List.Forall₂.nil, Wrote.self s, rfl, rfl⟩
  | cons d jobs ih =>
      obtain ⟨r, hr⟩ := Engine.reply?_of_mem (hjobs d List.mem_cons_self)
      have hfirst : Wrote s (reportJob s d) [.answered d.label r.result] ∧
          (reportJob s d).engine = s.engine ∧ (reportJob s d).background = s.background := by
        unfold reportJob
        rw [hr]
        dsimp only
        cases r.result with
        | error f => exact ⟨Wrote.fail s rfl rfl, rfl, rfl⟩
        | ok v =>
            rw [report_ok]
            exact ⟨Wrote.say s rfl, rfl, rfl⟩
      obtain ⟨hw, he, hb⟩ := hfirst
      obtain ⟨notes, hrep, hw', he', hb'⟩ :=
        ih (reportJob s d) fun d' hd' => he ▸ hjobs d' (List.mem_cons_of_mem _ hd')
      exact ⟨_ :: notes, List.Forall₂.cons ⟨_, rfl⟩ hrep, hw.trans hw', he'.trans he, hb'.trans hb⟩

/-- **A wait reports every job put aside**, in order, and leaves none. -/
theorem waitBackground_reports {s : Session} (h : s.Quiet) :
    s.waitBackground.Quiet ∧ s.waitBackground.background = [] ∧
      ∃ notes, Reports s.pendingOf notes ∧ Wrote s s.waitBackground notes := by
  rw [waitBackground_eq, settle_of_settled h.settled]
  obtain ⟨notes, hrep, hw, he, hb⟩ := foldl_reportJob s.background { s with background := [] } h.answered
  have hw₀ : Wrote s { s with background := [] } [] := Wrote.of_eq rfl rfl
  exact ⟨⟨he ▸ h.settled, fun d hd => by simp [hb] at hd⟩, hb, notes, hrep, hw₀.trans hw⟩

/-! ### Every statement -/

theorem foldl_said {β : Type} (g : Session → β → Session) (f : β → String)
    (hg : ∀ s b, g s b = s.say (f b)) (l : List β) (s : Session) :
    l.foldl g s = { s with output := s.output ++ l.map f } := by
  induction l generalizing s with
  | nil => simp
  | cons b l ih =>
      rw [List.foldl_cons, ih, hg]
      simp [Session.say]

theorem wrote_said (s : Session) (texts : List String) :
    Wrote s { s with output := s.output ++ texts } (texts.map .said) :=
  ⟨by simp [Function.comp_def, Note.line], by simp [Note.isFailure], rfl⟩

theorem Quiet.control {s : Session} (h : s.Quiet) {x : Engine.Input Entry} (hx : x.isCaller)
    (hsub : x.isSubmission = false) : ({ s with engine := s.engine.apply x } : Session).Quiet := by
  obtain ⟨hsettled, hreplies⟩ := h.settled.control hx hsub
  exact ⟨hsettled, fun d hd => hreplies ▸ h.answered d hd⟩

/-- **Each statement writes what it tells, or fails.** On a quiet session a statement goes through,
leaving the session quiet, or fails, and its failure is then a note it tells; or it fails fatally. -/
theorem runLine_handled {s : Session} (h : s.Quiet) (line : ScriptLine) :
    Handled s line (s.runLine line) := by
  unfold runLine
  -- one case per statement, the goal reduced to what the statement runs
  cases hst : line.statement <;> dsimp only
  case set scope account value =>
      exact submit_handled h line (.set (scope, account) value) (by rw [hst]; rfl) (by rw [hst]; rfl)
  case add scope account delta =>
      exact submit_handled h line (.add (scope, account) delta) (by rw [hst]; rfl) (by rw [hst]; rfl)
  case get scope account =>
      exact submit_handled h line (.get (scope, account)) (by rw [hst]; rfl) (by rw [hst]; rfl)
  case undo scopes =>
      exact step_handled h line "undo" Engine.undo Engine.Input.undo (fun _ => ⟨rfl, rfl, rfl⟩)
        (by rw [hst]; rfl) (by rw [hst]; rfl) scopes
  case redo scopes =>
      exact step_handled h line "redo" Engine.redo Engine.Input.redo (fun _ => ⟨rfl, rfl, rfl⟩)
        (by rw [hst]; rfl) (by rw [hst]; rfl) scopes
  case jump index =>
      refine job_handled h (x := .jump index) rfl ?_ (by rw [hst]; rfl) .engine rfl rfl
      rw [hst]
      cases index <;> rfl
  case stack id =>
      have hq := h.control (x := .setActive id) rfl rfl
      exact Handled.said (hq.of_eq rfl rfl) [_] (Wrote.said (by rfl) (by rfl) _) rfl (by rw [hst]; rfl)
        (by rw [hst]; simp)
  case limit n =>
      have hq := h.control (x := .setUndoLimit n) rfl rfl
      exact Handled.said (hq.of_eq rfl rfl) [_] (Wrote.said (by rfl) (by rfl) _) rfl (by rw [hst]; rfl)
        (by rw [hst]; simp)
  case history =>
      rw [foldl_said say id (fun _ _ => rfl)]
      exact Handled.said (h.of_eq rfl rfl) _ (wrote_said s _) rfl (by rw [hst]; rfl) (by rw [hst]; simp)
  case queued scopes =>
      cases s.engine.registry.scopeOfText (scopes.getD Scope.allName) with
      | error f => exact Handled.refused h (Wrote.self s) rfl (by rw [hst]; simp) _
      | ok filter =>
          exact Handled.said (h.of_eq rfl rfl) [_] (Wrote.said (by rfl) (by rfl) _) rfl (by rw [hst]; rfl)
            (by rw [hst]; simp)
  case wait =>
      obtain ⟨hq, hempty, notes, hrep, hw⟩ := waitBackground_reports h
      have hnone : s.waitBackground.pendingOf = [] := by
        rw [pendingOf, hempty, List.map_nil]
      refine .went hq ?_ hw
      rw [hnone]
      exact .wait hst hrep
  case balances =>
      rw [foldl_said _ (fun x : Account × Int => x.1.1 ++ " " ++ x.1.2 ++ " = " ++ toString x.2)
        (fun _ x => by cases x; rfl)]
      exact Handled.said (h.of_eq rfl rfl) _ (wrote_said s _) rfl (by rw [hst]; rfl) (by rw [hst]; simp)
  case clear =>
      have hq := h.control (x := .clear) rfl rfl
      exact Handled.said (hq.of_eq rfl rfl) [_] (Wrote.said (by rfl) (by rfl) _) rfl (by rw [hst]; rfl)
        (by rw [hst]; simp)
  case scopes =>
      exact Handled.said (h.of_eq rfl rfl) [_] (Wrote.said (by rfl) (by rfl) _) rfl (by rw [hst]; rfl)
        (by rw [hst]; simp)

/-! ### Running a script -/

def counted (s : Session) : Session :=
  { s with summary := { s.summary with statements := s.summary.statements + 1 } }

/-- One statement of a run, counted: a fatal failure stops the run with the session as it stands,
and any other failure is written and counted. -/
def runStatement (s : Session) (line : ScriptLine) : Except (CliError × Session) Session :=
  match s.counted.runLine line with
  | (s, none) => .ok s
  | (s, some e) => if e.isFatal then .error (e, s) else .ok (s.fail e)

theorem run_cons (s : Session) (line : ScriptLine) (rest : List ScriptLine) :
    s.run (line :: rest) =
      match s.runStatement line with
      | .ok s' => s'.run rest
      | .error x => .error x := by
  change (match s.counted.runLine line with
    | (s, none) => s.run rest
    | (s, some e) => if e.isFatal then .error (e, s) else (s.fail e).run rest) = _
  rw [runStatement]
  rcases s.counted.runLine line with ⟨s', _ | e⟩
  · rfl
  · dsimp only
    split <;> rfl

/-- **One statement, run on a quiet session**: the session is quiet again, one more statement is
counted, and what was written is what the statement tells. -/
theorem runStatement_ok {s s' : Session} (h : s.Quiet) {line : ScriptLine}
    (hrun : s.runStatement line = .ok s') :
    s'.Quiet ∧ ∃ notes, Tells s.pendingOf line notes s'.pendingOf ∧ Wrote s.counted s' notes := by
  have hcounted : s.counted.Quiet := h.of_eq rfl rfl
  have hhandled := runLine_handled hcounted line
  unfold runStatement at hrun
  generalize s.counted.runLine line = r at hhandled hrun
  cases hhandled with
  | went hq htells hw =>
      cases hrun
      exact ⟨hq, _, htells, hw⟩
  | failed n hfatal hq hw htells hline hn =>
      dsimp only at hrun
      rw [if_neg (by simp [hfatal])] at hrun
      cases hrun
      exact ⟨hq.of_eq rfl rfl, [n], htells, hw.trans (Wrote.fail _ hline hn)⟩
  | fatal hfatal _ =>
      dsimp only at hrun
      rw [if_pos hfatal] at hrun
      cases hrun

theorem runStatement_error {s s' : Session} (h : s.Quiet) {line : ScriptLine} {e : CliError}
    (hrun : s.runStatement line = .error (e, s')) :
    e.isFatal = true ∧ s'.summary.statements = s.summary.statements + 1 := by
  have hcounted : s.counted.Quiet := h.of_eq rfl rfl
  have hhandled := runLine_handled hcounted line
  unfold runStatement at hrun
  generalize s.counted.runLine line = r at hhandled hrun
  cases hhandled with
  | went => cases hrun
  | failed n hfatal =>
      dsimp only at hrun
      rw [if_neg (by simp [hfatal])] at hrun
      cases hrun
  | fatal hfatal hcount =>
      dsimp only at hrun
      rw [if_pos hfatal] at hrun
      cases hrun
      exact ⟨hfatal, hcount⟩

/-- **A run of a script on a quiet session writes what the script says**: one statement counted a
line, and one failure a failure note. -/
theorem run_says {s : Session} (h : s.Quiet) (script : List ScriptLine) {s' : Session}
    (hrun : s.run script = .ok s') :
    ∃ notes, Says s.pendingOf script notes ∧ s'.output = s.output ++ notes.map Note.line ∧
      s'.summary.failures = s.summary.failures + notes.countP Note.isFailure ∧
      s'.summary.statements = s.summary.statements + script.length := by
  induction script generalizing s with
  | nil =>
      -- the end of the script waits for the jobs put aside
      cases hrun
      obtain ⟨-, -, notes, hrep, hw⟩ := waitBackground_reports h
      exact ⟨notes, .finish hrep, hw.output, hw.failures, hw.statements⟩
  | cons line rest ih =>
      rw [run_cons] at hrun
      cases hstep : s.runStatement line with
      | error x =>
          rw [hstep] at hrun
          cases hrun
      | ok s₁ =>
          rw [hstep] at hrun
          obtain ⟨hq, notes, htells, hw⟩ := runStatement_ok h hstep
          obtain ⟨notes', hsays, hout, hfail, hcount⟩ := ih hq hrun
          refine ⟨notes ++ notes', .next htells hsays, ?_, ?_, ?_⟩
          · rw [hout, hw.output, List.map_append, List.append_assoc]
            rfl
          · rw [hfail, hw.failures, List.countP_append]
            simp only [counted]
            omega
          · rw [hcount, hw.statements, List.length_cons]
            simp only [counted]
            omega

/-- **A fatal failure stops the run at its statement**: the run ends the same whatever follows, with
every statement up to it counted. -/
theorem run_fatal {s : Session} (h : s.Quiet) (script : List ScriptLine) {e : CliError} {s' : Session}
    (hrun : s.run script = .error (e, s')) :
    e.isFatal = true ∧ ∃ pre line post, script = pre ++ line :: post ∧
      s'.summary.statements = s.summary.statements + pre.length + 1 ∧
      ∀ post', s.run (pre ++ line :: post') = .error (e, s') := by
  induction script generalizing s with
  | nil => cases hrun
  | cons line rest ih =>
      rw [run_cons] at hrun
      cases hstep : s.runStatement line with
      | error x =>
          rw [hstep] at hrun
          cases hrun
          obtain ⟨hfatal, hcount⟩ := runStatement_error h hstep
          refine ⟨hfatal, [], line, rest, rfl, by simpa using hcount, fun post' => ?_⟩
          rw [List.nil_append, run_cons, hstep]
      | ok s₁ =>
          rw [hstep] at hrun
          obtain ⟨hq, _, -, hw⟩ := runStatement_ok h hstep
          obtain ⟨hfatal, pre, line', post, rfl, hcount, hrest⟩ := ih hq hrun
          refine ⟨hfatal, line :: pre, line', post, rfl, ?_, fun post' => ?_⟩
          · rw [hcount, hw.statements, List.length_cons]
            simp only [counted]
            omega
          · rw [List.cons_append, run_cons, hstep]
            exact hrest post'

/-! ### A fresh session -/

theorem start_eq {config : Config} {s₀ : Session} (hstart : Session.start config = .ok s₀) :
    ∃ e₀, Engine.create config = .ok e₀ ∧ s₀ = { engine := e₀ } := by
  unfold Session.start at hstart
  cases hcreate : Engine.create config with
  | error f =>
      rw [hcreate] at hstart
      cases hstart
  | ok e₀ =>
      rw [hcreate] at hstart
      cases hstart
      exact ⟨e₀, rfl, rfl⟩

theorem Quiet.start {config : Config} {s₀ : Session} (hstart : Session.start config = .ok s₀) :
    s₀.Quiet := by
  obtain ⟨e₀, hcreate, rfl⟩ := start_eq hstart
  obtain ⟨r, f, routes, -, -, -, he₀⟩ := Engine.create_eq hcreate
  have hidle : e₀.busy = none := by rw [he₀]
  have hdrained : e₀.queue = [] := by rw [he₀]
  exact ⟨⟨hidle, hdrained, Engine.invariant_create hcreate, ⟨[], [], Engine.books_create hcreate⟩⟩,
    fun d hd => by cases hd⟩

/-- **A session reports every statement once.** Run on a fresh session, a script that meets no
fatal failure counts each of its lines as a statement and writes exactly the notes its statements
tell: a job waited for is reported at once, a job put aside (a command after a `queued` line) at
the next `wait` or at the end, in the order of submission, and the failures counted are the failure
notes, at most one a statement. A fatal failure stops the run at its statement: what follows it is
never run. -/
theorem session_reports_every_statement {config : Config} {s₀ : Session}
    (hstart : Session.start config = .ok s₀) (script : List ScriptLine) :
    (∀ s, s₀.run script = .ok s →
      s.summary.statements = script.length ∧ s.summary.failures ≤ script.length ∧
      ∃ notes, Says [] script notes ∧ s.output = notes.map Note.line ∧
        s.summary.failures = notes.countP Note.isFailure) ∧
    (∀ e s, s₀.run script = .error (e, s) → e.isFatal = true ∧
      ∃ pre line post, script = pre ++ line :: post ∧ s.summary.statements = pre.length + 1 ∧
        ∀ post', s₀.run (pre ++ line :: post') = .error (e, s)) := by
  have hq := Quiet.start hstart
  obtain ⟨e₀, -, rfl⟩ := start_eq hstart
  refine ⟨fun s hrun => ?_, fun e s hrun => ?_⟩
  · obtain ⟨notes, hsays, hout, hfail, hcount⟩ := run_says hq script hrun
    have hsays' : Says [] script notes := hsays
    have hbound := hsays'.failures_le
    simp only [List.length_nil, Nat.add_zero] at hbound
    refine ⟨by simpa using hcount, ?_, notes, hsays', by simpa using hout, by simpa using hfail⟩
    simp only [hfail]
    simpa using hbound
  · obtain ⟨hfatal, pre, line, post, hsplit, hcount, hrest⟩ := run_fatal hq script hrun
    exact ⟨hfatal, pre, line, post, hsplit, by simpa using hcount, hrest⟩

/-- The law for a script that puts an add and a get aside, waits for them and undoes twice, in the
default configuration: the second undo has nothing left to undo and is the one failure. -/
theorem session_reports_every_statement_background :
    let script : List ScriptLine :=
      [⟨1, .add "all" "cash" 5, true⟩, ⟨2, .get "all" "cash", true⟩, ⟨3, .wait, false⟩,
        ⟨4, .undo none, false⟩, ⟨5, .undo none, false⟩]
    ∃ s₀ : Session, Session.start {} = .ok s₀ ∧ ∃ s, s₀.run script = .ok s ∧
      s.output = ["queued add all cash +5", "queued get all cash", "ok add all cash +5 -> 5",
        "ok get all cash -> 5", "ok undo", "error: No more undos available"] ∧
      s.summary.statements = script.length ∧ s.summary.failures = 1 ∧
      ∃ notes, Says [] script notes ∧ s.output = notes.map Note.line ∧
        s.summary.failures = notes.countP Note.isFailure := by
  intro script
  obtain ⟨s₀, hstart⟩ : ∃ s₀, Session.start ({} : Config) = .ok s₀ := ⟨_, rfl⟩
  obtain ⟨s, hrun, hout, hfail⟩ : ∃ s, s₀.run script = .ok s ∧
      s.output = ["queued add all cash +5", "queued get all cash", "ok add all cash +5 -> 5",
        "ok get all cash -> 5", "ok undo", "error: No more undos available"] ∧
      s.summary.failures = 1 := by
    cases hstart
    exact ⟨_, rfl, by decide +kernel⟩
  obtain ⟨hcount, -, hsays⟩ := (session_reports_every_statement hstart script).1 s hrun
  exact ⟨s₀, hstart, s, hrun, hout, hcount, hfail, hsays⟩

end Session

end ScopedUndo
