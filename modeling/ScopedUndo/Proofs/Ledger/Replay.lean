import ScopedUndo.Ledger
import ScopedUndo.Proofs.Cursor
/-!
# Replaying ledger commands

A ledger's balances are meant to be what its commands did, run forward one after the other on an
empty ledger: `replay k cs` is that balance of the account `k`. Each command run forward overwrites
the balance of its own account (a set with its value, an add with the old balance, or zero, plus its
delta) and leaves every other account alone.

The ledger's own runs are read here as equations on `balance?` and `snapshotOf?`: a successful
forward run of a set or an add puts the new balance and remembers the one it overwrote, a reverse
puts the remembered balance back, and a run that fails leaves the ledger as it was (`run_fail`).

A stack's commands are replayed along its timeline: the commands that left the stack from its
front, then its history. `Stack.Along Q shed s` says that each command of the history satisfies `Q`
with what comes before it on that timeline. The history operations keep it: a push needs `Q` of the
new command only (`Along.push`), and trimming moves what it cuts off the front onto the shed part,
so that everything that stays keeps what came before it (`Along.truncate`).
-/

namespace ScopedUndo

namespace Entry

/-- The balance of the account `k` once the entry ran forward on a ledger where it was `v`. -/
def after (k : Account) (v : Option Int) : Entry → Option Int
  | set a x => if a = k then some x else v
  | add a d => if a = k then some (v.getD 0 + d) else v
  | get _ => v

theorem after_of_ne {x : Entry} {k : Account} (h : x.account ≠ k) (v : Option Int) :
    x.after k v = v := by
  cases x <;> simp_all [after, account]

@[simp] theorem after_get (a k : Account) (v : Option Int) : (get a).after k v = v := rfl

end Entry

/-- The balance of an account after commands ran forward in order on an empty ledger. -/
def replay (k : Account) (cs : List (Command Entry)) : Option Int :=
  cs.foldl (fun v c => c.action.after k v) none

@[simp] theorem replay_nil (k : Account) : replay k [] = none := rfl

theorem replay_append_singleton (k : Account) (cs : List (Command Entry)) (c : Command Entry) :
    replay k (cs ++ [c]) = c.action.after k (replay k cs) := by
  simp [replay]

theorem replay_append_other {k : Account} (cs : List (Command Entry)) {c : Command Entry}
    (hc : c.action.account ≠ k) : replay k (cs ++ [c]) = replay k cs := by
  rw [replay_append_singleton, Entry.after_of_ne hc]

namespace Ledger

/-! ### Balances and snapshots -/

private theorem find?_map_keyed {f : Account × Int → Account × Int} (hf : ∀ x, (f x).1 = x.1)
    (l : List (Account × Int)) (k : Account) :
    (l.map f).find? (·.1 == k) = (l.find? (·.1 == k)).map f := by
  rw [List.find?_map]
  congr 2
  funext x
  simp [hf]

theorem balance?_put (l : Ledger) (a : Account) (v : Option Int) (k : Account) :
    (l.put a v).balance? k = if k = a then v else l.balance? k := by
  cases v with
  | some v =>
      unfold put
      split_ifs with hany hk hk
      · -- the account is there: its entry is overwritten in place
        subst hk
        simp only [balance?]
        rw [find?_map_keyed (fun x => by obtain ⟨k', w⟩ := x; dsimp only; split <;> rfl)]
        obtain ⟨x, hx, hxk⟩ := List.any_eq_true.mp hany
        cases hfind : l.balances.find? (·.1 == k) with
        | none => exact absurd hxk (by simpa using List.find?_eq_none.mp hfind x hx)
        | some y =>
            obtain ⟨yk, yw⟩ := y
            have hyk : yk = k := by simpa using List.find?_some hfind
            subst hyk
            simp
      · simp only [balance?]
        rw [find?_map_keyed (fun x => by obtain ⟨k', w⟩ := x; dsimp only; split <;> rfl)]
        cases hfind : l.balances.find? (·.1 == k) with
        | none => rfl
        | some y =>
            obtain ⟨yk, yw⟩ := y
            have hyk : yk = k := by simpa using List.find?_some hfind
            subst hyk
            simp [hk]
      · -- a new account is added at the end
        subst hk
        have hnone : l.balances.find? (·.1 == k) = none := by
          rw [List.find?_eq_none]
          intro x hx hxk
          exact absurd (List.any_eq_true.mpr ⟨x, hx, hxk⟩) hany
        simp [balance?, List.find?_append, hnone]
      · simp [balance?, List.find?_append, Ne.symm hk]
  | none =>
      simp only [put, balance?, List.find?_filter]
      split_ifs with hk
      · subst hk
        simp [List.find?_eq_none]
      · congr 2
        funext x
        by_cases hx : x.1 = k
        · simp [hx, hk]
        · simp [hx]

@[simp] theorem snapshotOf?_put (l : Ledger) (a : Account) (v : Option Int) (command : Nat) :
    (l.put a v).snapshotOf? command = l.snapshotOf? command := by
  cases v with
  | some v =>
      unfold put
      split_ifs <;> rfl
  | none => rfl

@[simp] theorem balance?_remember (l : Ledger) (command : Nat) (previous : Option Int) (k : Account) :
    (l.remember command previous).balance? k = l.balance? k := rfl

theorem snapshotOf?_remember (l : Ledger) (command : Nat) (previous : Option Int) (other : Nat) :
    (l.remember command previous).snapshotOf? other =
      if other = command then some previous else l.snapshotOf? other := by
  unfold remember snapshotOf?
  by_cases h : other = command
  · subst h
    simp
  · rw [List.find?_cons_of_neg (by simpa using Ne.symm h), List.find?_filter, if_neg h]
    congr 2
    funext x
    by_cases hx : x.1 = other
    · simp [hx, h]
    · simp [hx]

/-! ### Runs -/

/-- **A failed run changes nothing**: an add that would overflow, a get of a missing account, and
a reverse with nothing remembered all leave the ledger as it was. -/
theorem run_fail (l : Ledger) (c : Command Entry) (d : Direction)
    (h : (l.run c d).2.2.isOk = false) : (l.run c d).1 = l := by
  cases hc : c.action with
  | set a v =>
      cases d with
      | forward => simp [run, hc, Outcome.isOk] at h
      | reverse =>
          simp only [run, hc, restore] at h ⊢
          split at h
          · simp [Outcome.isOk] at h
          · rfl
  | add a delta =>
      cases d with
      | forward =>
          simp only [run, hc] at h ⊢
          split_ifs at h ⊢
          · simp [Outcome.isOk] at h
          · rfl
      | reverse =>
          simp only [run, hc, restore] at h ⊢
          split at h
          · simp [Outcome.isOk] at h
          · rfl
  | get a =>
      cases d with
      | forward =>
          simp only [run, hc]
          split <;> rfl
      | reverse => simp [run, hc]

theorem run_get (l : Ledger) {c : Command Entry} {a : Account} (hc : c.action = .get a) (d : Direction) :
    (l.run c d).1 = l := by
  cases d with
  | forward =>
      simp only [run, hc]
      split <;> rfl
  | reverse => simp [run, hc]

/-- A set run forward succeeds; an add succeeds exactly when its sum fits in a signed 64-bit word.
Either puts the new balance of its account and remembers the one it overwrote. -/
theorem run_forward {l : Ledger} {c : Command Entry} (hq : c.action.kind = .mutating) :
    ((l.run c .forward).2.2.isOk = true ↔
        ∀ a δ, c.action = .add a δ → Text.fitsInt64 ((l.balance? a).getD 0 + δ) = true) ∧
      ((l.run c .forward).2.2.isOk = true →
        (l.run c .forward).1 = (l.put c.action.account
          (c.action.after c.action.account (l.balance? c.action.account))).remember c.id
            (l.balance? c.action.account)) := by
  cases hc : c.action with
  | set a v => simp [run, hc, Outcome.isOk, Entry.after, Entry.account]
  | add a delta =>
      simp only [run, hc]
      split_ifs with hfit
      · simp [Outcome.isOk, Entry.after, Entry.account, hfit]
      · simp [Outcome.isOk, hfit]
  | get a => simp [hc, Entry.kind] at hq

theorem run_reverse {l : Ledger} {c : Command Entry} (hq : c.action.kind = .mutating)
    {previous : Option Int} (hp : l.snapshotOf? c.id = some previous) :
    (l.run c .reverse).2.2.isOk = true ∧ (l.run c .reverse).1 = l.put c.action.account previous := by
  cases hc : c.action with
  | set a v => simp [run, hc, restore, hp, Outcome.isOk, Entry.account]
  | add a delta => simp [run, hc, restore, hp, Outcome.isOk, Entry.account]
  | get a => simp [hc, Entry.kind] at hq

end Ledger

namespace Stack

variable {α : Type}

/-! ### Along the timeline of a stack -/

/-- Each command of the history satisfies `Q` with what comes before it on the stack's timeline:
`shed`, the commands that left from the front, then the history up to it. -/
def Along (Q : List (Command α) → Command α → Prop) (shed : List (Command α)) (s : Stack α) : Prop :=
  ∀ i c, s.commands[i]? = some c → Q (shed ++ s.commands.take i) c

variable {Q Q' : List (Command α) → Command α → Prop} {shed : List (Command α)}

theorem Along.of_commands {s s' : Stack α} (h : s.Along Q shed) (hc : s'.commands = s.commands) :
    s'.Along Q shed := by
  intro i c hi
  rw [hc] at hi ⊢
  exact h i c hi

theorem Along.mono {s : Stack α} (h : s.Along Q shed)
    (hQ : ∀ before c, c ∈ s.commands → Q before c → Q' before c) : s.Along Q' shed :=
  fun i c hi => hQ _ c (List.mem_of_getElem? hi) (h i c hi)

theorem along_of_commands_nil {s : Stack α} (hs : s.commands = []) : s.Along Q shed := by
  intro i c hi
  simp [hs] at hi

theorem Along.push {s : Stack α} (h : s.Along Q shed) (hb : s.Bounded) {c : Command α}
    (hc : Q (shed ++ s.done) c) : (s.push c).Along Q shed := by
  have hlen : (s.commands.take s.applied).length = s.applied := s.length_done hb
  intro i d hi
  rw [commands_push] at hi ⊢
  by_cases hlt : i < s.applied
  · -- a done command keeps its place and what came before it
    rw [List.getElem?_append_left (by omega), List.getElem?_take_of_lt hlt] at hi
    rw [List.take_append_of_le_length (by omega), List.take_take, Nat.min_eq_left hlt.le]
    exact h i d hi
  · -- past the done part there is only the pushed command
    rw [List.getElem?_append_right (by omega), hlen] at hi
    obtain ⟨hi', rfl⟩ : i = s.applied ∧ c = d := by
      rcases hn : i - s.applied with _ | n
      · rw [hn, List.getElem?_cons_zero, Option.some.injEq] at hi
        exact ⟨by omega, hi⟩
      · rw [hn] at hi
        simp at hi
    subst hi'
    rw [List.take_append_of_le_length (by omega), List.take_of_length_le (by omega)]
    exact hc

/-- Trimming moves what it cuts off the front onto the shed part: every command that stays keeps
what came before it. -/
theorem Along.truncate {s : Stack α} (h : s.Along Q shed) (hb : s.Bounded) (limit : Nat) :
    (s.truncate limit).1.Along Q (shed ++ s.trimmedFront limit) := by
  obtain ⟨k, m, hk, hm, -, -, htrunc⟩ := s.truncate_eq limit hb
  have hfront : s.trimmedFront limit = s.commands.take k := by
    simp only [trimmedFront, htrunc]
    congr 1
    omega
  intro i c hi
  rw [htrunc] at hi ⊢
  dsimp only at hi ⊢
  have him : i < m := by
    by_contra hge
    simp [hge] at hi
  rw [List.getElem?_take_of_lt him, List.getElem?_drop] at hi
  rw [hfront, List.take_take, Nat.min_eq_left him.le, List.append_assoc, ← List.take_add]
  exact h (k + i) c hi

end Stack

end ScopedUndo
