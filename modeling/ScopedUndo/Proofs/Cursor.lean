import ScopedUndo.Stack
import Mathlib.Tactic.Linarith
/-!
# The cursor of a stack

A stack's history splits at its cursor into a done part and an undone part. This module reads every
stack operation through the done part, `Stack.done`: a push appends to it, a step forward appends
the next undone command, a step back drops its last command, and trimming to a limit cuts commands
off its front, the ones `Stack.trimmedFront` names. The engine's history laws are built from these
equations and never unfold the operations again.

The one fact with an argument in it is `truncate_eq`: whichever of its three cases applies,
trimming keeps a contiguous block of the history, starting at most at the cursor, with the cursor
moved back by as many commands as left from the front. So a kept command stays on the side of the
cursor it was on, at the same distance from it.
-/

namespace ScopedUndo

namespace Stack

variable {α : Type}

def done (s : Stack α) : List (Command α) :=
  s.commands.take s.applied

def Bounded (s : Stack α) : Prop :=
  s.applied ≤ s.count

/-- The done commands that trimming to `limit` removes. They leave from the front of the history,
as many as the cursor moves back. -/
def trimmedFront (s : Stack α) (limit : Nat) : List (Command α) :=
  s.commands.take (s.applied - (s.truncate limit).1.applied)

/-! ### The trimming rule -/

/-- **Trimming keeps a block.** Trimming drops some `k ≤ applied` commands from the front and keeps
the next `m`, at most `limit` of them, and the cursor moves back by `k`; the kept block still
reaches the cursor. -/
theorem truncate_eq (s : Stack α) (limit : Nat) (hb : s.Bounded) :
    ∃ k m, k ≤ s.applied ∧ s.applied - k ≤ m ∧ k + m ≤ s.count ∧ (0 < limit → m ≤ limit) ∧
      (s.truncate limit).1
        = { s with commands := (s.commands.drop k).take m, applied := s.applied - k } := by
  simp only [Bounded, count] at hb ⊢
  by_cases hkeep : limit = 0 ∨ s.commands.length ≤ limit
  · refine ⟨0, s.commands.length, by omega, by omega, by omega, by omega, ?_⟩
    simp [truncate, count, hkeep]
  have hover : limit < s.commands.length := by omega
  have hmin : min s.applied s.commands.length = s.applied := Nat.min_eq_left hb
  by_cases htail : s.applied < s.commands.length - limit
  · -- the undone tail goes first; the done part may still be too long
    by_cases hfront : limit < s.applied
    · refine ⟨s.applied - limit, limit, by omega, by omega, by omega, by omega, ?_⟩
      simp [truncate, count, hkeep, htail, hfront, hmin, List.drop_take]
      omega
    · refine ⟨0, s.applied, by omega, by omega, by omega, by omega, ?_⟩
      simp [truncate, count, hkeep, htail, hfront]
  · -- the cut stays within the done part
    have hcut : s.applied - (s.commands.length - limit) ≤ limit := by omega
    refine ⟨s.commands.length - limit, limit, by omega, hcut, by omega, by omega, ?_⟩
    have hlen : (s.commands.drop (s.commands.length - limit)).length ≤ limit := by
      simp only [List.length_drop]
      omega
    simp [truncate, count, hkeep, htail, hover, List.take_of_length_le hlen]

@[simp] theorem id_truncate (s : Stack α) (limit : Nat) : (s.truncate limit).1.id = s.id := by
  unfold truncate
  split_ifs <;> dsimp only <;> split_ifs <;> rfl

theorem count_truncate_le (s : Stack α) {limit : Nat} (hlimit : 0 < limit) (hb : s.Bounded) :
    (s.truncate limit).1.count ≤ limit := by
  obtain ⟨k, m, -, -, -, hm, htrunc⟩ := s.truncate_eq limit hb
  rw [htrunc]
  simp only [count, List.length_take]
  exact Nat.le_trans (Nat.min_le_left _ _) (hm hlimit)

/-! ### The operations through the done part -/

@[simp] theorem id_push (s : Stack α) (c : Command α) : (s.push c).id = s.id := rfl

@[simp] theorem id_stepForward (s : Stack α) : s.stepForward.1.id = s.id := by
  unfold stepForward
  split_ifs <;> rfl

@[simp] theorem id_stepBackward (s : Stack α) : s.stepBackward.1.id = s.id := by
  unfold stepBackward
  split_ifs <;> rfl

@[simp] theorem id_clear (s : Stack α) : s.clear.id = s.id := rfl

@[simp] theorem id_touch (s : Stack α) (n : Nat) : (s.touch n).id = s.id := rfl

@[simp] theorem commands_touch (s : Stack α) (n : Nat) : (s.touch n).commands = s.commands := rfl

@[simp] theorem applied_touch (s : Stack α) (n : Nat) : (s.touch n).applied = s.applied := rfl

@[simp] theorem done_touch (s : Stack α) (n : Nat) : (s.touch n).done = s.done := rfl

@[simp] theorem commands_empty (id : String) : (empty id : Stack α).commands = [] := rfl

@[simp] theorem applied_empty (id : String) : (empty id : Stack α).applied = 0 := rfl

@[simp] theorem id_empty (id : String) : (empty id : Stack α).id = id := rfl

@[simp] theorem commands_clear (s : Stack α) : s.clear.commands = [] := rfl

@[simp] theorem applied_clear (s : Stack α) : s.clear.applied = 0 := rfl

@[simp] theorem done_clear (s : Stack α) : s.clear.done = [] := by
  simp [done]

theorem length_done (s : Stack α) (hb : s.Bounded) : s.done.length = s.applied := by
  simp only [done, List.length_take]
  exact Nat.min_eq_left hb

theorem commands_push (s : Stack α) (c : Command α) :
    (s.push c).commands = s.commands.take s.applied ++ [c] := rfl

theorem applied_push (s : Stack α) (c : Command α) : (s.push c).applied = s.applied + 1 := rfl

theorem done_push (s : Stack α) (c : Command α) (hb : s.Bounded) :
    (s.push c).done = s.done ++ [c] := by
  have hlen : (s.commands.take s.applied).length = s.applied := s.length_done hb
  simp only [done, commands_push, applied_push]
  exact List.take_of_length_le (by simp [hlen])

theorem undoCommand?_eq_some {s : Stack α} {c : Command α} (h : s.undoCommand? = some c) :
    0 < s.applied ∧ s.commands[s.applied - 1]? = some c := by
  unfold undoCommand? at h
  split_ifs at h with hzero
  exact ⟨Nat.pos_of_ne_zero hzero, h⟩

theorem undoCommand?_eq_getLast? (s : Stack α) (hb : s.Bounded) : s.undoCommand? = s.done.getLast? := by
  rw [List.getLast?_eq_getElem?, s.length_done hb]
  unfold undoCommand?
  split_ifs with hzero
  · simp [done, hzero]
  · simp only [done]
    rw [List.getElem?_take_of_lt (by omega)]

theorem commands_stepBackward (s : Stack α) : s.stepBackward.1.commands = s.commands := by
  unfold stepBackward
  split_ifs <;> rfl

theorem commands_stepForward (s : Stack α) : s.stepForward.1.commands = s.commands := by
  unfold stepForward
  split_ifs <;> rfl

theorem stepBackward_of_undoCommand? {s : Stack α} {c : Command α} (h : s.undoCommand? = some c) :
    s.stepBackward = ({ s with applied := s.applied - 1 }, true) := by
  have hpos := (undoCommand?_eq_some h).1
  simp [stepBackward, hpos]

theorem done_stepBackward (s : Stack α) (hb : s.Bounded) :
    s.stepBackward.1.done = s.done.dropLast := by
  rw [List.dropLast_eq_take, s.length_done hb]
  unfold stepBackward
  split_ifs with hpos
  · simp [done, List.take_take]
  · simp [done, show s.applied = 0 by omega]

theorem stepForward_of_redoCommand? {s : Stack α} {c : Command α} (h : s.redoCommand? = some c) :
    s.stepForward = ({ s with applied := s.applied + 1 }, true) := by
  have hlt : s.applied < s.count := by
    simp only [redoCommand?, List.getElem?_eq_some_iff] at h
    exact h.1
  simp [stepForward, hlt]

theorem done_stepForward {s : Stack α} {c : Command α} (h : s.redoCommand? = some c) :
    s.stepForward.1.done = s.done ++ [c] := by
  rw [stepForward_of_redoCommand? h]
  simp only [done, List.take_add_one]
  rw [show s.commands[s.applied]? = some c from h]
  rfl

theorem done_eq_trimmedFront_append (s : Stack α) (limit : Nat) (hb : s.Bounded) :
    s.done = s.trimmedFront limit ++ (s.truncate limit).1.done := by
  obtain ⟨k, m, hk, hm, -, -, htrunc⟩ := s.truncate_eq limit hb
  have hcut : s.applied - (s.applied - k) = k := by omega
  simp only [done, trimmedFront, htrunc, hcut, List.take_take, Nat.min_eq_left hm]
  rw [← List.take_add, Nat.add_sub_cancel' hk]

/-! ### The cursor stays within the history -/

theorem Bounded.push {s : Stack α} (c : Command α) (hb : s.Bounded) : (s.push c).Bounded := by
  have hlen : (s.commands.take s.applied).length = s.applied := s.length_done hb
  simp [Bounded, count, commands_push, applied_push, hlen]

theorem Bounded.stepForward {s : Stack α} (hb : s.Bounded) : s.stepForward.1.Bounded := by
  unfold Stack.stepForward
  split_ifs with hlt
  · exact Nat.succ_le_of_lt hlt
  · exact hb

theorem Bounded.stepBackward {s : Stack α} (hb : s.Bounded) : s.stepBackward.1.Bounded := by
  unfold Stack.stepBackward
  split_ifs
  · exact Nat.le_trans (Nat.sub_le _ _) hb
  · exact hb

theorem Bounded.truncate {s : Stack α} (limit : Nat) (hb : s.Bounded) : (s.truncate limit).1.Bounded := by
  obtain ⟨k, m, hk, hm, hkm, -, htrunc⟩ := s.truncate_eq limit hb
  simp only [Bounded, count] at hkm ⊢
  rw [htrunc]
  simp only [List.length_take, List.length_drop]
  omega

theorem Bounded.clear (s : Stack α) : s.clear.Bounded := Nat.zero_le _

theorem Bounded.touch {s : Stack α} (n : Nat) (hb : s.Bounded) : (s.touch n).Bounded := hb

theorem Bounded.empty (id : String) : (empty id : Stack α).Bounded := Nat.zero_le _

/-- The operations of a bare stack that change its history or move its cursor. -/
inductive Op (α : Type) where
  | push (c : Command α)
  | stepForward
  | stepBackward
  | truncate (limit : Nat)
  | clear

def Op.apply : Op α → Stack α → Stack α
  | .push c, s => s.push c
  | .stepForward, s => s.stepForward.1
  | .stepBackward, s => s.stepBackward.1
  | .truncate limit, s => (s.truncate limit).1
  | .clear, s => s.clear

theorem Bounded.apply {s : Stack α} (op : Op α) (hb : s.Bounded) : (op.apply s).Bounded := by
  cases op with
  | push c => exact hb.push c
  | stepForward => exact hb.stepForward
  | stepBackward => exact hb.stepBackward
  | truncate limit => exact hb.truncate limit
  | clear => exact Bounded.clear s

theorem Bounded.foldl {s : Stack α} (ops : List (Op α)) (hb : s.Bounded) :
    (ops.foldl (fun t op => op.apply t) s).Bounded := by
  induction ops generalizing s with
  | nil => exact hb
  | cons op ops ih => exact ih (hb.apply op)

end Stack

end ScopedUndo
