import ScopedUndo.Proofs.Engine.Events
import ScopedUndo.Proofs.Engine.Status
/-!
# Which stack was touched last

A filtered undo or redo acts on the stack touched last among those whose next command the filter
selects, and `target` finds that stack by a running maximum over the histories that takes the
later stack on a tie. The choice would hang on the order the histories are kept in if two such
stacks could carry one number. They cannot: recording into a stack and moving its cursor are the
only steps that touch, each with a number above every number handed out before, and only
recording gives a stack commands.

`Retouched` says once what a step does to these numbers, and `retouched_apply` proves it of every
input; `Touches` (stacks with commands carry distinct positive numbers) and `TouchedLast` (the
stack touched last carries the greatest) follow from it alone. `target_some_iff` then reads the
running maximum as its specification `Picks`, in any order of the histories.
-/

namespace ScopedUndo

namespace Stack

variable {α : Type}

theorem commands_truncate_ne_nil {s : Stack α} {limit : Nat}
    (h : (s.truncate limit).1.commands ≠ []) : s.commands ≠ [] := by
  intro hnil
  have hfits : limit = 0 ∨ s.count ≤ limit := .inr (by simp [count, hnil])
  simp [truncate, hfits, hnil] at h

theorem commands_ne_nil_of_pick {s : Stack α} {pick : Stack α → Option (Command α)}
    (hpick : pick = undoCommand? ∨ pick = redoCommand?) {c : Command α} (h : pick s = some c) :
    s.commands ≠ [] := by
  intro hnil
  rcases hpick with rfl | rfl
  · obtain ⟨-, hc⟩ := undoCommand?_eq_some h
    simp [hnil] at hc
  · simp [redoCommand?, hnil] at h

end Stack

/-- Whether a returned run touches its stack: an executed command is recorded, or an undo or a
redo moves the cursor. -/
def Busy.changes {α : Type} (e : Engine α) (b : Busy α) (ok : Bool) : Bool :=
  match b.sequel with
  | .record _ => ok && !b.call.command.isQuery && e.generation == b.generation
  | .step stack | .walk stack _ _ =>
      ok && (e.moveCursor b.generation stack b.call.command (b.call.operation == .redo)).2

namespace Engine

variable {α : Type}

/-! ### A running maximum -/

section Latest

variable {β : Type} {key : β → Nat} {step : Option β → β → Option β}

/-- A step of a running maximum by `key` that takes the current element on a tie. -/
def KeepsLatest (key : β → Nat) (step : Option β → β → Option β) : Prop :=
  (∀ o, step none o = some o) ∧ ∀ b o, step (some b) o = if key b ≤ key o then some o else some b

theorem KeepsLatest.step_eq (h : KeepsLatest key step) (init : Option β) (o : β) :
    ∃ m, step init o = some m ∧ (m = o ∨ init = some m) ∧ key o ≤ key m ∧
      ∀ b, init = some b → key b ≤ key m := by
  cases init with
  | none => exact ⟨o, h.1 o, .inl rfl, le_refl _, fun b hb => by cases hb⟩
  | some b =>
      rw [h.2]
      by_cases hle : key b ≤ key o
      · rw [if_pos hle]
        exact ⟨o, rfl, .inl rfl, le_refl _, fun b' hb' => by cases hb'; exact hle⟩
      · rw [if_neg hle]
        exact ⟨b, rfl, .inr rfl, by omega, fun b' hb' => by cases hb'; exact le_refl _⟩

/-- The running maximum ends at its start or at an element, with a key no smaller than the
start's or any element's. -/
theorem foldl_latest (h : KeepsLatest key step) (l : List β) (init : Option β) (r : β)
    (hr : l.foldl step init = some r) :
    (init = some r ∨ r ∈ l) ∧ (∀ b, init = some b → key b ≤ key r) ∧ ∀ o ∈ l, key o ≤ key r := by
  induction l generalizing init with
  | nil =>
      rw [List.foldl_nil] at hr
      exact ⟨.inl hr, fun b hb => by rw [hr] at hb; cases hb; exact le_refl _, by simp⟩
  | cons o l ih =>
      obtain ⟨m, hm, hmo, hom, hinit⟩ := h.step_eq init o
      rw [List.foldl_cons, hm] at hr
      obtain ⟨hfrom, hle, hall⟩ := ih (some m) hr
      have hmr : key m ≤ key r := hle m rfl
      refine ⟨?_, fun b hb => (hinit b hb).trans hmr, ?_⟩
      · rcases hfrom with hrm | hrl
        · cases hrm
          rcases hmo with rfl | hfound
          · exact .inr List.mem_cons_self
          · exact .inl hfound
        · exact .inr (List.mem_cons_of_mem o hrl)
      · intro o' ho'
        rcases List.mem_cons.mp ho' with rfl | ho'
        · exact hom.trans hmr
        · exact hall o' ho'

theorem foldl_latest_some (h : KeepsLatest key step) (l : List β) (b : β) :
    ∃ r, l.foldl step (some b) = some r := by
  induction l generalizing b with
  | nil => exact ⟨b, rfl⟩
  | cons o l ih =>
      obtain ⟨m, hm, -⟩ := h.step_eq (some b) o
      rw [List.foldl_cons, hm]
      exact ih m

variable (key) in
theorem foldl_latest_eq_none (h : KeepsLatest key step) (l : List β) :
    l.foldl step none = none ↔ l = [] := by
  cases l with
  | nil => simp
  | cons o l =>
      obtain ⟨m, hm, -⟩ := h.step_eq none o
      obtain ⟨r, hr⟩ := foldl_latest_some h l m
      simp [List.foldl_cons, hm, hr]

variable (key) in
theorem map_foldl_latest_eq_some {γ : Type} (h : KeepsLatest key step) (g : β → γ) (l : List β)
    (hinj : ∀ a ∈ l, ∀ b ∈ l, key a = key b → a = b) (y : γ) :
    (l.foldl step none).map g = some y ↔ ∃ r ∈ l, g r = y ∧ ∀ o ∈ l, key o ≤ key r := by
  constructor
  · intro hy
    obtain ⟨r, hr, rfl⟩ := Option.map_eq_some_iff.mp hy
    obtain ⟨hmem, -, hall⟩ := foldl_latest h l none r hr
    exact ⟨r, hmem.resolve_left (by simp), rfl, hall⟩
  · rintro ⟨r, hr, rfl, hall⟩
    cases hfold : l.foldl step none with
    | none => exact absurd ((foldl_latest_eq_none key h l).mp hfold ▸ hr) (List.not_mem_nil)
    | some r' =>
        obtain ⟨hmem, -, hall'⟩ := foldl_latest h l none r' hfold
        have hr' : r' ∈ l := hmem.resolve_left (by simp)
        rw [hinj r' hr' r hr (Nat.le_antisymm (hall r' hr') (hall' r hr))]
        rfl

end Latest

/-! ### The stack a filter picks -/

/-- What a filtered undo (with `pick := Stack.undoCommand?`) or redo picks: a stack whose
candidate the filter selects, touched after every other stack whose candidate it selects. -/
def Picks (e : Engine α) (f : Scope) (pick : Stack α → Option (Command α)) (x : String)
    (c : Command α) : Prop :=
  ∃ s ∈ e.histories, s.id = x ∧ pick s = some c ∧ f.meets c.scope = true ∧
    ∀ t ∈ e.histories, t.id ≠ x → ∀ c', pick t = some c' → f.meets c'.scope = true →
      t.touched < s.touched

section Target

variable {e : Engine α} {f : Scope} {pick : Stack α → Option (Command α)}

theorem mem_candidates {l : List (Stack α)} {s : Stack α} {c : Command α} :
    (s, c) ∈ l.filterMap (fun t => (pick t).bind fun c =>
        if f.meets c.scope then some (t, c) else none) ↔
      s ∈ l ∧ pick s = some c ∧ f.meets c.scope = true := by
  simp only [List.mem_filterMap, Option.bind_eq_some_iff]
  constructor
  · rintro ⟨t, ht, c', hc', hsel⟩
    split_ifs at hsel with hmeets
    cases hsel
    exact ⟨ht, hc', hmeets⟩
  · rintro ⟨hs, hc, hmeets⟩
    exact ⟨s, hs, c, hc, by simp [hmeets]⟩

/-- **A filtered target is the stack its filter picks**, whatever the order of the histories,
once stacks with candidates are told apart by when they were touched. -/
theorem target_some_iff (hnodup : (e.histories.map Stack.id).Nodup)
    (hapart : ∀ s ∈ e.histories, ∀ t ∈ e.histories, s.id ≠ t.id → pick s ≠ none →
      pick t ≠ none → s.touched ≠ t.touched)
    {l : List (Stack α)} (hperm : l.Perm e.histories) (x : String) (c : Command α) :
    { e with histories := l }.target (some f) pick = some (x, c) ↔ e.Picks f pick x c := by
  unfold target
  dsimp only
  refine (map_foldl_latest_eq_some (fun o => o.1.touched) ?keep _ _ ?inj _).trans ?_
  case keep => exact ⟨fun o => rfl, fun b o => rfl⟩
  case inj =>
    -- stacks with candidates carry different numbers, so the options do
    rintro ⟨s, c₁⟩ ho₁ ⟨t, c₂⟩ ho₂ heq
    obtain ⟨hs, hc₁, -⟩ := mem_candidates.mp ho₁
    obtain ⟨ht, hc₂, -⟩ := mem_candidates.mp ho₂
    have hs' := hperm.mem_iff.mp hs
    have ht' := hperm.mem_iff.mp ht
    by_cases hid : s.id = t.id
    · obtain rfl := List.inj_on_of_nodup_map hnodup hs' ht' hid
      rw [hc₁, Option.some.injEq] at hc₂
      rw [hc₂]
    · exact absurd heq (hapart s hs' t ht' hid (by simp [hc₁]) (by simp [hc₂]))
  constructor
  · rintro ⟨⟨s, c'⟩, ho, hsel, hall⟩
    simp only [Prod.mk.injEq] at hsel
    obtain ⟨rfl, rfl⟩ := hsel
    obtain ⟨hs, hc, hmeets⟩ := mem_candidates.mp ho
    refine ⟨s, hperm.mem_iff.mp hs, rfl, hc, hmeets, fun t ht hid c'' hc'' hmeets'' => ?_⟩
    have hle : t.touched ≤ s.touched :=
      hall (t, c'') (mem_candidates.mpr ⟨hperm.mem_iff.mpr ht, hc'', hmeets''⟩)
    have hne := hapart t ht s (hperm.mem_iff.mp hs) hid (by simp [hc'']) (by simp [hc])
    omega
  · rintro ⟨s, hs, rfl, hc, hmeets, hlater⟩
    refine ⟨(s, c), mem_candidates.mpr ⟨hperm.mem_iff.mpr hs, hc, hmeets⟩, rfl, ?_⟩
    rintro ⟨t, c'⟩ ho
    obtain ⟨ht, hc', hmeets'⟩ := mem_candidates.mp ho
    by_cases hid : t.id = s.id
    · obtain rfl := List.inj_on_of_nodup_map hnodup (hperm.mem_iff.mp ht) hs hid
      exact le_refl _
    · exact (hlater t (hperm.mem_iff.mp ht) hid c' hc' hmeets').le

theorem target_eq_none_iff {l : List (Stack α)} (hperm : l.Perm e.histories) :
    { e with histories := l }.target (some f) pick = none ↔
      ∀ s ∈ e.histories, ∀ c, pick s = some c → f.meets c.scope = false := by
  unfold target
  dsimp only
  rw [Option.map_eq_none_iff, foldl_latest_eq_none (fun o => o.1.touched) ⟨fun o => rfl, fun b o => rfl⟩,
    List.eq_nil_iff_forall_not_mem]
  constructor
  · intro hnone s hs c hc
    cases hm : f.meets c.scope with
    | false => rfl
    | true => exact absurd (mem_candidates.mpr ⟨hperm.mem_iff.mpr hs, hc, hm⟩) (hnone (s, c))
  · rintro hnone ⟨s, c⟩ ho
    obtain ⟨hs, hc, hmeets⟩ := mem_candidates.mp ho
    rw [hnone s (hperm.mem_iff.mp hs) c hc] at hmeets
    cases hmeets

end Target

/-! ### What a step does to when stacks were touched -/

/-- The stack an input records into or moves the cursor of, if it does. -/
def changedBy (e : Engine α) : Input α → Option String
  | .resume _ outcome =>
      e.busy.bind fun b => if b.changes e outcome.isOk then some b.sequel.stack else none
  | _ => none

/-- The stacks a run records into or moves the cursor of, in order. -/
def changed (e : Engine α) : List (Input α) → List String
  | [] => []
  | x :: xs => (e.changedBy x).toList ++ (e.apply x).changed xs

/-- Stacks that hold commands were touched, and stacks touched at a positive number were touched
at different ones. -/
structure Touches (e : Engine α) : Prop where
  holding : ∀ x s, e.stack? x = some s → s.commands ≠ [] → 0 < s.touched
  apart : ∀ x y s t, x ≠ y → e.stack? x = some s → e.stack? y = some t → 0 < s.touched →
    s.touched ≠ t.touched

/-- Stack `x` was touched last: at a positive number, after every other stack. -/
def TouchedLast (e : Engine α) (x : String) : Prop :=
  ∃ s, e.stack? x = some s ∧ 0 < s.touched ∧
    ∀ y t, y ≠ x → e.stack? y = some t → t.touched < s.touched

/-- What a step does to when stacks were touched: every stack stays; a stack other than `fresh`
keeps its number and gains no commands, or is new, empty and untouched; and `fresh`, when the
step touches a stack, is touched after every number handed out before. -/
structure Retouched (e e' : Engine α) (fresh : Option String) : Prop where
  stays : ∀ x t, e.stack? x = some t → ∃ t', e'.stack? x = some t'
  kept : ∀ x t', fresh ≠ some x → e'.stack? x = some t' →
    (∃ t, e.stack? x = some t ∧ t'.touched = t.touched ∧ (t'.commands ≠ [] → t.commands ≠ [])) ∨
      (e.stack? x = none ∧ t'.touched = 0 ∧ t'.commands = [])
  touched : ∀ x, fresh = some x → ∃ t', e'.stack? x = some t' ∧ e.sequence < t'.touched

section Retouched

variable {e e' e₁ : Engine α} {fresh : Option String}

theorem Retouched.congr (h : Retouched e e₁ fresh) (hh : e'.histories = e₁.histories) :
    Retouched e e' fresh where
  stays x t ht := by
    rw [stack?_congr hh]
    exact h.stays x t ht
  kept x t' hx ht' := h.kept x t' hx (by rwa [stack?_congr hh] at ht')
  touched x hx := by
    rw [stack?_congr hh]
    exact h.touched x hx

theorem Retouched.of_same (hh : e'.histories = e.histories) : Retouched e e' none where
  stays x t ht := ⟨t, by rw [stack?_congr hh]; exact ht⟩
  kept x t' _ ht' := .inl ⟨t', by rwa [stack?_congr hh] at ht', rfl, id⟩
  touched x hx := by cases hx

/-- Changing every stack in a way that keeps its id and number and gives no empty stack commands
touches nothing. -/
theorem Retouched.map (f : Stack α → Stack α) (hid : ∀ t, (f t).id = t.id)
    (htouched : ∀ t, (f t).touched = t.touched) (hcommands : ∀ t, (f t).commands ≠ [] → t.commands ≠ [])
    (hh : e'.histories = e.histories.map f) : Retouched e e' none := by
  have hlook : ∀ x, e'.stack? x = (e.stack? x).map f := fun x => by
    simp only [stack?, hh, find?_map_id _ f hid]
  exact
    { stays := fun x t ht => ⟨f t, by rw [hlook, ht]; rfl⟩
      kept := fun x t' _ ht' => by
        rw [hlook] at ht'
        obtain ⟨t, ht, rfl⟩ := Option.map_eq_some_iff.mp ht'
        exact .inl ⟨t, ht, htouched t, hcommands t⟩
      touched := fun x hx => by cases hx }

theorem Retouched.withStack_self (name : String)
    (hh : e'.histories = (e.withStack name fun s => s).histories) : Retouched e e' none := by
  have hlook : ∀ x, e'.stack? x = if x = name then some (e.stackOrEmpty name) else e.stack? x :=
    fun x => by
      rw [stack?_congr hh]
      exact stack?_withStack e name _ (fun t => rfl) x
  refine ⟨fun x t ht => ?_, fun x t' _ ht' => ?_, fun x hx => by cases hx⟩
  · rw [hlook]
    split_ifs
    · exact ⟨_, rfl⟩
    · exact ⟨t, ht⟩
  · rw [hlook] at ht'
    split_ifs at ht' with hx
    · subst hx
      cases hfound : e.stack? x with
      | some t =>
          simp only [stackOrEmpty, hfound, Option.getD_some, Option.some.injEq] at ht'
          exact .inl ⟨t, rfl, by rw [ht'], by rw [ht']; exact id⟩
      | none =>
          simp only [stackOrEmpty, hfound, Option.getD_none, Option.some.injEq] at ht'
          exact .inr ⟨rfl, by rw [← ht']; rfl, by rw [← ht']; rfl⟩
    · exact .inl ⟨t', ht', rfl, id⟩

theorem Retouched.touch {x : String} {s' : Stack α}
    (hlook : ∀ y, e'.stack? y = if y = x then some s' else e.stack? y)
    (hnew : e.sequence < s'.touched) : Retouched e e' (some x) where
  stays y t ht := by
    rw [hlook]
    split_ifs
    · exact ⟨s', rfl⟩
    · exact ⟨t, ht⟩
  kept y t' hy ht' := by
    rw [hlook, if_neg (fun h => hy (by rw [h]))] at ht'
    exact .inl ⟨t', ht', rfl, id⟩
  touched y hy := by
    cases hy
    exact ⟨s', by rw [hlook, if_pos rfl], hnew⟩

theorem Retouched.le_sequence (h : Retouched e e' fresh) (hfresh : e.Fresh) {x : String}
    {t' : Stack α} (hx : fresh ≠ some x) (ht' : e'.stack? x = some t') : t'.touched ≤ e.sequence := by
  rcases h.kept x t' hx ht' with ⟨t, ht, htouched, -⟩ | ⟨-, hzero, -⟩
  · rw [htouched]
    exact Nat.not_lt.mp (hfresh.not_touched_after ht)
  · rw [hzero]
    exact Nat.zero_le _

theorem retouched_record (e : Engine α) (stack : String) (c : Command α)
    (hh : e'.histories = (e.record stack c).histories) : Retouched e e' (some stack) :=
  (Retouched.touch (stack?_record e stack c) (Nat.lt_succ_self _)).congr hh

theorem retouched_moveCursor (e : Engine α) (g : Nat) (stack : String) (c : Command α)
    (forward : Bool) (hh : e'.histories = (e.moveCursor g stack c forward).1.histories) :
    Retouched e e' (if (e.moveCursor g stack c forward).2 then some stack else none) := by
  rcases moveCursor_cases e g stack c forward with ⟨hsame, hstill⟩ | ⟨-, s, -, -, hmoved, -, hlook⟩
  · rw [hstill]
    exact Retouched.of_same (hh.trans hsame)
  · rw [hmoved, if_pos rfl]
    exact (Retouched.touch hlook (Nat.lt_succ_self _)).congr hh

theorem retouched_settled (b : Busy α) (ok : Bool) (hh : e'.histories = e.settled b ok) :
    Retouched e e' (if b.changes e ok then some b.sequel.stack else none) := by
  unfold settled at hh
  unfold Busy.changes
  cases hseq : b.sequel with
  | record stack =>
      simp only [hseq] at hh ⊢
      split_ifs at hh ⊢
      · exact retouched_record e stack _ hh
      · exact Retouched.of_same hh
  | step stack =>
      simp only [hseq] at hh ⊢
      cases ok
      · exact Retouched.of_same hh
      · exact retouched_moveCursor e _ stack _ _ hh
  | walk stack wanted target =>
      simp only [hseq] at hh ⊢
      cases ok
      · exact Retouched.of_same hh
      · exact retouched_moveCursor e _ stack _ _ hh

end Retouched

/-! ### Every step, every run -/

section Run

variable {e e' : Engine α}

/-- **What a step does to when stacks were touched.** Only a returned run touches, the stack it
records into or moves the cursor of. -/
theorem retouched_apply (x : Input α) :
    Retouched e (e.apply x) (e.changedBy x) := by
  by_cases hsub : x.isSubmission = true
  · obtain ⟨n, p, q, m, h, -⟩ := apply_submission e hsub
    have hnone : e.changedBy x = none := by
      cases x <;> first | rfl | cases hsub
    rw [hnone]
    exact Retouched.of_same (by rw [h])
  cases x with
  | pickUp => exact Retouched.of_same (histories_pickUp e)
  | resume reports outcome =>
      cases hbusy : e.busy with
      | none =>
          simp only [changedBy, hbusy, Option.bind_none]
          exact Retouched.of_same (by rw [Engine.apply, resume_idle hbusy])
      | some b =>
          simp only [changedBy, hbusy, Option.bind_some]
          exact retouched_settled b outcome.isOk (histories_resume hbusy reports outcome)
  | clear => exact Retouched.map Stack.clear (fun t => rfl) (fun t => rfl) (fun t h => absurd rfl h) rfl
  | setUndoLimit limit =>
      exact Retouched.map (fun s => (s.truncate limit).1) (fun t => Stack.id_truncate t limit)
        (fun t => Stack.touched_truncate t limit) (fun t => Stack.commands_truncate_ne_nil)
        (by rw [Engine.apply, setUndoLimit_eq])
  | setActive stack => exact Retouched.withStack_self _ (by rw [Engine.apply, setActive_eq])
  | route scope stack =>
      simp only [Engine.apply]
      split
      · rename_i e' hroute
        rw [(route_eq hroute).2.2.2]
        exact Retouched.of_same rfl
      · exact Retouched.of_same rfl
  | shutdown => exact Retouched.of_same rfl
  | reporter k act => exact Retouched.of_same (histories_handle ..)
  | halt => exact Retouched.of_same (histories_halt ..)
  | _ => exact absurd rfl hsub

theorem Touches.retouched (hT : e.Touches) (hfresh : e.Fresh) {fresh : Option String}
    (h : Retouched e e' fresh) : e'.Touches where
  holding x s' hs' hcommands := by
    by_cases hx : fresh = some x
    · obtain ⟨t', ht', hnew⟩ := h.touched x hx
      rw [hs', Option.some.injEq] at ht'
      rw [ht']
      omega
    · rcases h.kept x s' hx hs' with ⟨t, ht, htouched, hheld⟩ | ⟨-, -, hnil⟩
      · rw [htouched]
        exact hT.holding x t ht (hheld hcommands)
      · exact absurd hnil hcommands
  apart x y s' t' hxy hs' ht' hpos := by
    by_cases hx : fresh = some x
    · -- `x` was touched now, after every number `y` carries
      obtain ⟨u, hu, hnew⟩ := h.touched x hx
      rw [hs', Option.some.injEq] at hu
      subst hu
      have hle := h.le_sequence hfresh (by rw [hx]; exact fun h => hxy (Option.some.inj h)) ht'
      omega
    by_cases hy : fresh = some y
    · obtain ⟨u, hu, hnew⟩ := h.touched y hy
      rw [ht', Option.some.injEq] at hu
      subst hu
      have hle := h.le_sequence hfresh hx hs'
      omega
    rcases h.kept x s' hx hs' with ⟨s, hs, hss, -⟩ | ⟨-, hzero, -⟩
    · rcases h.kept y t' hy ht' with ⟨t, ht, htt, -⟩ | ⟨-, hzero', -⟩
      · rw [hss, htt]
        exact hT.apart x y s t hxy hs ht (hss ▸ hpos)
      · omega
    · omega

theorem TouchedLast.retouched {x : String} (hlast : e.TouchedLast x) (h : Retouched e e' none) :
    e'.TouchedLast x := by
  obtain ⟨s, hs, hpos, hafter⟩ := hlast
  obtain ⟨s', hs'⟩ := h.stays x s hs
  have hkeep : s'.touched = s.touched := by
    rcases h.kept x s' (by simp) hs' with ⟨t, ht, htouched, -⟩ | ⟨hnone, -, -⟩
    · rw [hs, Option.some.injEq] at ht
      rw [htouched, ht]
    · rw [hs] at hnone
      cases hnone
  refine ⟨s', hs', hkeep ▸ hpos, fun y t' hy ht' => ?_⟩
  rw [hkeep]
  rcases h.kept y t' (by simp) ht' with ⟨t, ht, htouched, -⟩ | ⟨-, hzero, -⟩
  · rw [htouched]
    exact hafter y t hy ht
  · rw [hzero]
    exact hpos

theorem touchedLast_retouched (hfresh : e.Fresh) {x : String} (h : Retouched e e' (some x)) :
    e'.TouchedLast x := by
  obtain ⟨s', hs', hnew⟩ := h.touched x rfl
  refine ⟨s', hs', by omega, fun y t' hy ht' => ?_⟩
  have hle := h.le_sequence hfresh (fun h => hy (Option.some.inj h).symm) ht'
  omega

theorem Retouched.touchedLast {fresh : Option String} (h : Retouched e e' fresh) (hfresh : e.Fresh)
    {last : Option String} (hlast : ∀ x, last = some x → e.TouchedLast x) :
    ∀ x, fresh.or last = some x → e'.TouchedLast x := by
  intro x hx
  cases fresh with
  | none => exact (hlast x hx).retouched h
  | some y =>
      rw [Option.some_or, Option.some.injEq] at hx
      subst hx
      exact touchedLast_retouched hfresh h

theorem touches_run (hinv : e.Invariant) (hfresh : e.Fresh) (hT : e.Touches) (xs : List (Input α)) :
    (e.run xs).Touches := by
  induction xs generalizing e with
  | nil => exact hT
  | cons x xs ih =>
      exact ih (hinv.apply x) (hfresh.apply hinv x) (hT.retouched hfresh (retouched_apply x))

/-- Over a run, the stack last recorded into or moved, or else `last`, stays the stack touched
last. -/
theorem touchedLast_run (hinv : e.Invariant) (hfresh : e.Fresh) {last : Option String}
    (hlast : ∀ x, last = some x → e.TouchedLast x) (xs : List (Input α)) :
    ∀ x, (e.changed xs).getLast?.or last = some x → (e.run xs).TouchedLast x := by
  induction xs generalizing e last with
  | nil => simpa [changed] using hlast
  | cons x xs ih =>
      intro y hy
      have hchanged : (e.changedBy x).toList.getLast? = e.changedBy x := by
        cases e.changedBy x <;> rfl
      rw [changed, List.getLast?_append, hchanged, Option.or_assoc] at hy
      exact ih (hinv.apply x) (hfresh.apply hinv x)
        ((retouched_apply x).touchedLast hfresh hlast) y hy

theorem touches_create {c : Config} {e₀ : Engine α} (hcreate : Engine.create c = .ok e₀) :
    e₀.Touches := by
  obtain ⟨r, f, routes, -, -, -, rfl⟩ := create_eq hcreate
  refine ⟨fun x s hs hcommands => ?_, fun x y s t hxy hs ht _ => ?_⟩
  · rw [List.mem_singleton.mp (mem_of_stack? hs).1] at hcommands
    exact absurd rfl hcommands
  · have hx := (mem_of_stack? hs).2
    have hy := (mem_of_stack? ht).2
    rw [List.mem_singleton.mp (mem_of_stack? hs).1] at hx
    rw [List.mem_singleton.mp (mem_of_stack? ht).1] at hy
    exact absurd (hx.symm.trans hy) hxy

end Run

theorem Touches.candidates_apart {e : Engine α} (hT : e.Touches)
    (hnodup : (e.histories.map Stack.id).Nodup) {pick : Stack α → Option (Command α)}
    (hpick : pick = Stack.undoCommand? ∨ pick = Stack.redoCommand?) :
    ∀ s ∈ e.histories, ∀ t ∈ e.histories, s.id ≠ t.id → pick s ≠ none → pick t ≠ none →
      s.touched ≠ t.touched := by
  intro s hs t ht hid hps _
  obtain ⟨cmd, hcmd⟩ := Option.ne_none_iff_exists'.mp hps
  have hlook := stack?_of_mem hnodup hs
  exact hT.apart s.id t.id s t hid hlook (stack?_of_mem hnodup ht)
    (hT.holding s.id s hlook (Stack.commands_ne_nil_of_pick hpick hcmd))

theorem TouchedLast.picks {e : Engine α} {x : String} (hlast : e.TouchedLast x)
    (hnodup : (e.histories.map Stack.id).Nodup) {s : Stack α} (hs : e.stack? x = some s)
    {pick : Stack α → Option (Command α)} {c : Command α} (hc : pick s = some c) {f : Scope}
    (hmeets : f.meets c.scope = true) : e.Picks f pick x c := by
  obtain ⟨s', hs', -, hafter⟩ := hlast
  rw [hs, Option.some.injEq] at hs'
  subst hs'
  obtain ⟨hmem, hid⟩ := mem_of_stack? hs
  exact ⟨s, hmem, hid, hc, hmeets, fun t ht htid c' _ _ =>
    hafter t.id t htid (stack?_of_mem hnodup ht)⟩

/-- **Filtered targets do not hang on the order of the stacks.** In every state that a valid
configuration reaches through any interleaving of callers and worker, stacks that hold commands
carry distinct positive numbers, the stack the run last recorded into or moved the cursor of
carries the greatest, and a filtered undo or redo finds, in every order of the histories, the
stack its filter picks with that stack's candidate, and nothing exactly when the filter selects
no stack's candidate. -/
theorem filtered_target_order_free {c : Config} {e₀ : Engine α} (hcreate : Engine.create c = .ok e₀)
    (xs : List (Input α)) :
    (∀ x s, (e₀.run xs).stack? x = some s → s.commands ≠ [] → 0 < s.touched) ∧
    (∀ x y s t, x ≠ y → (e₀.run xs).stack? x = some s → (e₀.run xs).stack? y = some t →
      s.commands ≠ [] → t.commands ≠ [] → s.touched ≠ t.touched) ∧
    (∀ x, (e₀.changed xs).getLast? = some x → (e₀.run xs).TouchedLast x) ∧
    ∀ (f : Scope) (pick : Stack α → Option (Command α)),
      (pick = Stack.undoCommand? ∨ pick = Stack.redoCommand?) →
      ∀ l, l.Perm (e₀.run xs).histories →
        (∀ x cmd, { e₀.run xs with histories := l }.target (some f) pick = some (x, cmd) ↔
          (e₀.run xs).Picks f pick x cmd) ∧
        ({ e₀.run xs with histories := l }.target (some f) pick = none ↔
          ∀ s ∈ (e₀.run xs).histories, ∀ cmd, pick s = some cmd → f.meets cmd.scope = false) := by
  have hinv₀ := invariant_create hcreate
  have hfresh₀ := fresh_create hcreate
  have hinv := hinv₀.run xs
  have hT := touches_run hinv₀ hfresh₀ (touches_create hcreate) xs
  have hnone : ∀ x, (none : Option String) = some x → e₀.TouchedLast x := fun _ h => by cases h
  refine ⟨hT.holding, fun x y s t hxy hs ht hcs _ => hT.apart x y s t hxy hs ht (hT.holding x s hs hcs),
    fun x hx => touchedLast_run hinv₀ hfresh₀ hnone xs x (by rwa [Option.or_none]),
    fun f pick hpick l hperm => ⟨target_some_iff hinv.ids_nodup
      (hT.candidates_apart hinv.ids_nodup hpick) hperm, target_eq_none_iff hperm⟩⟩

/-- Once a command is recorded on a fresh engine, its stack is the one touched last. -/
theorem recorded_stack_touched_last :
    ∃ e₀ : Engine Unit, Engine.create ({} : Config) = .ok e₀ ∧
      (e₀.run [.enqueue { id := 1, text := "add", action := () }, .pickUp,
        .resume [] (.ok .null)]).TouchedLast "default" := by
  have hcreate : Engine.create ({} : Config) =
      .ok ({ registry := {}, defaultStack := "default", undoLimit := 0, capacity := 1024,
             histories := [Stack.empty "default"], active := "default", routes := [] } : Engine Unit) := rfl
  exact ⟨_, hcreate, (filtered_target_order_free hcreate _).2.2.1 "default" rfl⟩

end Engine

end ScopedUndo
