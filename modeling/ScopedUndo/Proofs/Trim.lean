import ScopedUndo.Proofs.Cursor
/-!
# Trimming by its reference rule

`Stack.truncate` follows its rule step by step: the undone tail first, then the oldest commands.
Here its result is given in one piece, as the block `Stack.window` of the history that survives,
and the reference rule is read off it: under no limit, or when the history fits, nothing changes;
when the cut stays within the done part the newest `limit` commands stay; otherwise the undone tail
goes and the newest done commands that fit stay. Either way the block holds the cursor, so only done
commands leave from the front and only undone ones from the back.

Under a limit of 0 nothing is cut, so a trimmed history fits its limit only when the limit is
positive (`truncate_zero_keeps_history`).
-/

namespace ScopedUndo

namespace Stack

variable {α : Type}

/-- The positions `[start, stop)` of the block of the history that trimming to `limit` keeps. -/
def window (s : Stack α) (limit : Nat) : Nat × Nat :=
  if limit = 0 ∨ s.count ≤ limit then (0, s.count)
  else if s.count - limit ≤ s.applied then (s.count - limit, s.count)
  else (s.applied - limit, s.applied)

/-- The stack cut down to the block `[start, stop)` of its history, the cursor on the same
command. -/
def keep (s : Stack α) (start stop : Nat) : Stack α :=
  { s with commands := s.commands.extract start stop, applied := s.applied - start }

theorem window_fits {s : Stack α} {limit : Nat} (h : limit = 0 ∨ s.count ≤ limit) :
    s.window limit = (0, s.count) := by
  simp [window, h]

theorem window_cut_done {s : Stack α} {limit : Nat} (h : ¬ (limit = 0 ∨ s.count ≤ limit))
    (hcut : s.count - limit ≤ s.applied) : s.window limit = (s.count - limit, s.count) := by
  simp only [window, if_neg h, if_pos hcut]

theorem window_cut_tail {s : Stack α} {limit : Nat} (h : ¬ (limit = 0 ∨ s.count ≤ limit))
    (hcut : s.applied < s.count - limit) : s.window limit = (s.applied - limit, s.applied) := by
  simp only [window, if_neg h, if_neg (Nat.not_le_of_lt hcut)]

theorem window_le (s : Stack α) (limit : Nat) (hb : s.Bounded) :
    (s.window limit).1 ≤ s.applied ∧ s.applied ≤ (s.window limit).2 ∧
      (s.window limit).2 ≤ s.count := by
  unfold Bounded at hb
  unfold window
  split_ifs <;> dsimp only <;> omega

theorem width_window_le (s : Stack α) {limit : Nat} (hlimit : 0 < limit) :
    (s.window limit).2 - (s.window limit).1 ≤ limit := by
  unfold window
  split_ifs <;> dsimp only <;> omega

theorem keep_zero_count (s : Stack α) : s.keep 0 s.count = s := by
  simp [keep, count]

theorem count_keep (s : Stack α) {start stop : Nat} (hstop : stop ≤ s.count) :
    (s.keep start stop).count = stop - start := by
  simp only [keep, count, List.extract_eq_take_drop, List.length_take, List.length_drop]
  unfold count at hstop
  omega

theorem commands_keep_count (s : Stack α) (start : Nat) :
    (s.keep start s.count).commands = s.commands.drop start := by
  rw [keep, count, List.extract_eq_take_drop]
  exact List.take_of_length_le (by simp)

/-- **Trimming keeps the window.** Trimming cuts the history down to `window` and says how many
commands it dropped. -/
theorem truncate_eq_keep (s : Stack α) (limit : Nat) (hb : s.Bounded) :
    s.truncate limit =
      (s.keep (s.window limit).1 (s.window limit).2,
        s.count - ((s.window limit).2 - (s.window limit).1)) := by
  unfold Bounded count at hb
  by_cases hfits : limit = 0 ∨ s.commands.length ≤ limit
  · rw [window_fits hfits, keep_zero_count]
    simp [truncate, count, hfits]
  have hover : limit < s.commands.length := by omega
  by_cases hcut : s.commands.length - limit ≤ s.applied
  · -- the cut stays within the done part: the oldest `count - limit` commands go
    rw [window_cut_done hfits hcut]
    have hlen : (s.commands.drop (s.commands.length - limit)).length ≤
        s.commands.length - (s.commands.length - limit) := by
      simp only [List.length_drop]
      omega
    simp [truncate, keep, count, hfits, Nat.not_lt_of_le hcut, hover, List.take_of_length_le hlen]
    omega
  · -- the undone tail goes first, then the oldest done commands beyond the limit
    have htail : s.applied < s.commands.length - limit := by omega
    rw [window_cut_tail hfits htail]
    have hmin : min s.applied s.commands.length = s.applied := Nat.min_eq_left hb
    by_cases hfront : limit < s.applied
    · simp [truncate, keep, count, hfits, htail, hfront, hmin, List.extract_eq_take_drop,
        List.drop_take]
      omega
    · have hzero : s.applied - limit = 0 := by omega
      simp [truncate, keep, count, hfits, htail, hfront, hmin, hzero, List.extract_eq_take_drop]

theorem touched_truncate (s : Stack α) (limit : Nat) : (s.truncate limit).1.touched = s.touched := by
  unfold truncate
  dsimp only
  split_ifs <;> rfl

/-- **The reference rule of trimming.** For a stack of `L` commands with cursor `a ≤ L` and a limit
`n`: under no limit or when `L ≤ n` nothing changes and nothing is dropped; else, when `L - n ≤ a`,
the commands `[L - n, L)` stay with the cursor at `a - (L - n)`; else the commands
`[a - n, a)` stay (from 0 when `a < n`) with the cursor at `min a n`. In every case the kept
commands are a block `[s, e)` with `s ≤ a ≤ e`, the cursor moves to `a - s`, the stack fits a
positive limit, and the number dropped is what left. Recording, a push and a trim under a limit
`n ≥ 1`, keeps the newest `min n (a + 1)` of the done commands and the pushed one, the cursor right
after it. -/
theorem truncate_reference (s : Stack α) (n : Nat) (hb : s.applied ≤ s.count) :
    ((n = 0 ∨ s.count ≤ n) → s.truncate n = (s, 0)) ∧
      (¬ (n = 0 ∨ s.count ≤ n) → s.count - n ≤ s.applied →
        (s.truncate n).1 = { s with commands := s.commands.extract (s.count - n) s.count,
                                    applied := s.applied - (s.count - n) }) ∧
      (¬ (n = 0 ∨ s.count ≤ n) → s.applied < s.count - n →
        (s.truncate n).1 = { s with commands := s.commands.extract (s.applied - n) s.applied,
                                    applied := min s.applied n }) ∧
      (∃ start stop, start ≤ s.applied ∧ s.applied ≤ stop ∧ stop ≤ s.count ∧
        (s.truncate n).1 = { s with commands := s.commands.extract start stop,
                                    applied := s.applied - start }) ∧
      (0 < n → (s.truncate n).1.count ≤ n) ∧
      (s.truncate n).2 = s.count - (s.truncate n).1.count ∧
      ∀ c : Command α, 1 ≤ n →
        ((s.push c).truncate n).1.commands =
            (s.commands.take s.applied ++ [c]).drop (s.applied + 1 - n) ∧
          ((s.push c).truncate n).1.count = min n (s.applied + 1) ∧
          ((s.push c).truncate n).1.applied = ((s.push c).truncate n).1.count := by
  have htrunc := truncate_eq_keep s n hb
  obtain ⟨hstart, hstop, hcount⟩ := window_le s n hb
  have hkept : (s.truncate n).1.count = (s.window n).2 - (s.window n).1 := by
    rw [htrunc, count_keep s hcount]
  refine ⟨fun hfits => ?_, fun hfits hcut => ?_, fun hfits hcut => ?_,
    ⟨_, _, hstart, hstop, hcount, by rw [htrunc]; rfl⟩,
    fun hpos => hkept ▸ width_window_le s hpos, by rw [hkept, htrunc], fun c hn => ?_⟩
  · rw [htrunc, window_fits hfits, keep_zero_count]
    simp
  · rw [htrunc, window_cut_done hfits hcut]
    rfl
  · rw [htrunc, window_cut_tail hfits hcut]
    simp only [keep]
    congr 2
    omega
  · -- a push leaves the cursor at the end, so the cut stays within the done part
    have hpb : (s.push c).Bounded := Bounded.push c hb
    have hlen : (s.push c).count = s.applied + 1 := by
      have hmin : min s.applied s.count = s.applied := Nat.min_eq_left hb
      simp only [count, commands_push, List.length_append, List.length_take,
        List.length_singleton] at hmin ⊢
      omega
    have hpush := truncate_eq_keep (s.push c) n hpb
    by_cases hfits : (s.push c).count ≤ n
    · rw [window_fits (Or.inr hfits), keep_zero_count] at hpush
      have hdrop : s.applied + 1 - n = 0 := by omega
      rw [hpush, hdrop, List.drop_zero, ← commands_push, hlen, applied_push]
      exact ⟨rfl, by omega, rfl⟩
    · have hnot : ¬ (n = 0 ∨ (s.push c).count ≤ n) := by omega
      have hcut : (s.push c).count - n ≤ (s.push c).applied := by
        rw [hlen, applied_push]
        omega
      rw [window_cut_done hnot hcut] at hpush
      rw [hpush]
      refine ⟨?_, ?_, ?_⟩
      · rw [commands_keep_count, hlen, commands_push]
      · rw [count_keep _ (le_refl _)]
        omega
      · rw [count_keep _ (le_refl _)]
        simp only [keep, applied_push, hlen]

/-- The rule at a stack of four commands with one done, trimmed to two: the undone tail goes and
the done command stays. -/
theorem truncate_reference_four :
    let s : Stack Unit :=
      { id := "s", applied := 1,
        commands := [0, 1, 2, 3].map fun i => { id := i, text := "cmd", action := () } }
    s.applied ≤ s.count ∧
      ((2 = 0 ∨ s.count ≤ 2) → s.truncate 2 = (s, 0)) ∧
      (¬ (2 = 0 ∨ s.count ≤ 2) → s.count - 2 ≤ s.applied →
        (s.truncate 2).1 = { s with commands := s.commands.extract (s.count - 2) s.count,
                                    applied := s.applied - (s.count - 2) }) ∧
      (¬ (2 = 0 ∨ s.count ≤ 2) → s.applied < s.count - 2 →
        (s.truncate 2).1 = { s with commands := s.commands.extract (s.applied - 2) s.applied,
                                    applied := min s.applied 2 }) ∧
      (∃ start stop, start ≤ s.applied ∧ s.applied ≤ stop ∧ stop ≤ s.count ∧
        (s.truncate 2).1 = { s with commands := s.commands.extract start stop,
                                    applied := s.applied - start }) ∧
      (0 < 2 → (s.truncate 2).1.count ≤ 2) ∧
      (s.truncate 2).2 = s.count - (s.truncate 2).1.count ∧
      ∀ c : Command Unit, 1 ≤ 2 →
        ((s.push c).truncate 2).1.commands =
            (s.commands.take s.applied ++ [c]).drop (s.applied + 1 - 2) ∧
          ((s.push c).truncate 2).1.count = min 2 (s.applied + 1) ∧
          ((s.push c).truncate 2).1.applied = ((s.push c).truncate 2).1.count := by
  intro s
  have hb : s.applied ≤ s.count := by decide
  exact ⟨hb, truncate_reference s 2 hb⟩

/-- A limit of 0 means no limit: trimming a stack of one command to it keeps the command, so the
kept count is above the limit. -/
theorem truncate_zero_keeps_history :
    let s : Stack Unit := { id := "s", applied := 1, commands := [{ id := 0, text := "cmd 0", action := () }] }
    s.truncate 0 = (s, 0) ∧ ¬ (s.truncate 0).1.count ≤ 0 := by
  intro s
  have h : s.truncate 0 = (s, 0) := by simp [truncate]
  refine ⟨h, ?_⟩
  rw [h]
  decide

end Stack

end ScopedUndo
