import ScopedUndo.Scope
import Mathlib
/-!
# The algebra of scopes

Union makes scopes a commutative, idempotent monoid whose identity is the empty set and in which
the wildcard absorbs every scope. Meeting is symmetric, and a filter meets a union exactly when it
meets one of its parts.

The wildcard is a constructor of its own. Its bits are those of the set of all 28 nameable
positions, yet it meets the empty set, which that set does not; and a set may carry bits above the
nameable ones, which `ofBits` drops. So the bits of a union are the union of the bits only for
scopes within the nameable bits, and reading a scope back from its bits gives it back exactly for
the wildcard and the sets strictly inside the nameable bits: the full set comes back as the
wildcard.
-/

namespace ScopedUndo

namespace Scope

/-! ### Words -/

theorem or_ne_zero {w : Nat} (x y : BitVec w) : (x ||| y != 0) = (x != 0 || y != 0) := by
  have hzero : x ||| y = 0 ↔ x = 0 ∧ y = 0 := BitVec.or_eq_zero_iff
  rw [Bool.eq_iff_iff]
  simp only [bne_iff_ne, ne_eq, Bool.or_eq_true, hzero, not_and_or]

theorem or_and_absorb {w : Nat} (x y : BitVec w) : x ||| (y &&& x) = x := by
  ext i hi
  simp only [BitVec.getElem_or, BitVec.getElem_and]
  cases x[i] <;> simp

/-! ### Union -/

theorem or_eq_union (a b : Scope) : a ||| b = a.union b :=
  rfl

@[simp] theorem all_or (a : Scope) : all ||| a = all := by
  cases a <;> rfl

@[simp] theorem or_all (a : Scope) : a ||| all = all := by
  cases a <;> rfl

@[simp] theorem set_or_set (x y : BitVec 32) : set x ||| set y = set (x ||| y) :=
  rfl

theorem union_comm (a b : Scope) : a ||| b = b ||| a := by
  cases a with
  | all => simp
  | set x => cases b <;> simp [BitVec.or_comm]

theorem union_assoc (a b c : Scope) : a ||| b ||| c = a ||| (b ||| c) := by
  cases a with
  | all => simp
  | set x =>
      cases b with
      | all => simp
      | set y => cases c <;> simp [BitVec.or_assoc]

theorem union_self (a : Scope) : a ||| a = a := by
  cases a <;> simp

theorem empty_union (a : Scope) : set 0 ||| a = a := by
  cases a <;> simp

theorem union_empty (a : Scope) : a ||| set 0 = a := by
  rw [union_comm, empty_union]

instance : Std.Commutative (α := Scope) (· ||| ·) := ⟨union_comm⟩

instance : Std.Associative (α := Scope) (· ||| ·) := ⟨union_assoc⟩

instance : Std.IdempotentOp (α := Scope) (· ||| ·) := ⟨union_self⟩

instance : Std.LawfulIdentity (α := Scope) (· ||| ·) (set 0) where
  left_id := empty_union
  right_id := union_empty

/-! ### Meeting -/

theorem meets_comm (a b : Scope) : meets a b = meets b a := by
  cases a with
  | all => cases b <;> rfl
  | set x =>
      cases b with
      | all => rfl
      | set y => simp only [meets, BitVec.and_comm]

/-- A filter meets a union exactly when it meets one of the parts: the wildcard on either side
meets everything, and the bits of a set meet a union of bits when they meet one of them. -/
theorem meets_union (f a b : Scope) : meets f (a ||| b) = (meets f a || meets f b) := by
  cases f with
  | all => rfl
  | set x =>
      cases a with
      | all => simp [meets]
      | set y =>
          cases b with
          | all => simp [meets]
          | set z => simp only [set_or_set, meets, BitVec.and_or_distrib_left, or_ne_zero]

/-! ### Bits -/

/-- The bits of a union are the union of the bits, for scopes within the nameable bits: the
wildcard's bits absorb those of any such set. -/
theorem bits_union {a b : Scope} (ha : a.bits &&& allFlags = a.bits)
    (hb : b.bits &&& allFlags = b.bits) : (a ||| b).bits = a.bits ||| b.bits := by
  cases a with
  | all =>
      -- `allFlags ||| b.bits = allFlags`, as `b.bits` lies within `allFlags`
      rw [all_or, bits, ← hb, or_and_absorb]
  | set x =>
      cases b with
      | all =>
          rw [or_all, bits, ← ha, BitVec.or_comm, or_and_absorb]
      | set y => rfl

/-- Reading a word keeps its nameable bits; the full set is read as the wildcard, whose bits are
the same. -/
theorem bits_ofBits (x : BitVec 32) : (ofBits x).bits = x &&& allFlags := by
  unfold ofBits
  split_ifs with hfull
  · exact hfull.symm
  · rfl

/-- A scope is read back from its bits exactly when it is the wildcard or a set strictly inside
the nameable bits. -/
theorem ofBits_bits_eq_iff (s : Scope) :
    ofBits s.bits = s ↔ s = all ∨ ∃ x, s = set x ∧ x &&& allFlags = x ∧ x ≠ allFlags := by
  cases s with
  | all => simp [bits, ofBits, BitVec.and_self]
  | set x =>
      show ofBits x = set x ↔ _
      simp only [reduceCtorEq, false_or, set.injEq, exists_eq_left']
      unfold ofBits
      split_ifs with hfull
      · -- the full set of nameable bits comes back as the wildcard
        simp only [false_iff, not_and]
        intro hwithin hne
        exact hne (hwithin.symm.trans hfull)
      · rw [set.injEq]
        constructor
        · intro hx
          refine ⟨hx, fun heq => hfull ?_⟩
          rw [heq, BitVec.and_self]
        · exact fun h => h.1

/-- **The laws of scopes.** Union is commutative, associative and idempotent, with the empty set
as its identity and the wildcard absorbing, and it is the scopes' `|||`; meeting is symmetric, is
what a filter selects by, and meets a union when it meets a part; bits unite for scopes within the
nameable bits; reading a word keeps its nameable bits; and a scope is read back from its bits
exactly when it is the wildcard or a set strictly inside the nameable bits. -/
theorem scope_algebra (a b c f : Scope) (x : BitVec 32) :
    a ||| b = b ||| a ∧ a ||| b ||| c = a ||| (b ||| c) ∧ a ||| a = a ∧
    set 0 ||| a = a ∧ a ||| set 0 = a ∧ all ||| a = all ∧ a ||| all = all ∧
    a ||| b = a.union b ∧
    meets a b = meets b a ∧ f.selects a = meets f a ∧
    meets f (a.union b) = (meets f a || meets f b) ∧
    (a.bits &&& allFlags = a.bits → b.bits &&& allFlags = b.bits →
      (a.union b).bits = a.bits ||| b.bits) ∧
    (ofBits x).bits = x &&& allFlags ∧
    (ofBits a.bits = a ↔ a = all ∨ ∃ y, a = set y ∧ y &&& allFlags = y ∧ y ≠ allFlags) :=
  ⟨union_comm a b, union_assoc a b c, union_self a, empty_union a, union_empty a, all_or a,
    or_all a, or_eq_union a b, meets_comm a b, rfl, meets_union f a b, bits_union, bits_ofBits x,
    ofBits_bits_eq_iff a⟩

/-- The bits of the wildcard united with a set within the nameable bits are the nameable bits. -/
theorem scope_algebra_wildcard_bits :
    (all.bits &&& allFlags = all.bits ∧ (set 5).bits &&& allFlags = (set 5).bits) ∧
      (all.union (set 5)).bits = all.bits ||| (set 5).bits := by
  have hall : all.bits &&& allFlags = all.bits := by decide
  have hfive : (set 5).bits &&& allFlags = (set 5).bits := by decide
  obtain ⟨-, -, -, -, -, -, -, -, -, -, -, hbits, -, -⟩ := scope_algebra all (set 5) all all 0
  exact ⟨⟨hall, hfive⟩, hbits hall hfive⟩

/-- The wildcard has the bits of the full set but meets the empty set, which the full set does
not; and the full set is read back as the wildcard. -/
example : all.bits = (set allFlags).bits ∧ meets all (set 0) = true ∧
    meets (set allFlags) (set 0) = false ∧ ofBits (set allFlags).bits = all := by
  decide

end Scope

end ScopedUndo
