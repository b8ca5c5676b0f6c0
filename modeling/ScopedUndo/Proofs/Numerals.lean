import ScopedUndo.Text.Number
import Mathlib
/-!
# Decimal numerals

The readers of counts and of signed 64-bit values accept exactly the decimal numerals of the values in
range: an optional sign, any number of leading zeros, then the digits `Nat.toDigits` writes. Reading
folds `readDigit` over the digits; its value on the written digits of `n` is `n`, and conversely a
digit list is read from its last digit, where `Nat.toDigits_append_toDigits` splits off the last
digit of a numeral.
-/

namespace ScopedUndo.Text

/-- A decimal numeral of `n`: an optional plus sign, leading zeros, then the digits of `n`. -/
def NatNumeral (s : String) (n : Nat) : Prop :=
  ∃ sign ∈ ["", "+"], ∃ zeros, s = sign ++ String.ofList (List.replicate zeros '0') ++ decimal n

/-- A decimal numeral of `i`: a numeral of a natural number for `0 ≤ i`, or a minus sign, leading
zeros and the digits of its magnitude for `i ≤ 0`. -/
def IntNumeral (s : String) (i : Int) : Prop :=
  (0 ≤ i ∧ NatNumeral s i.toNat) ∨
    (i ≤ 0 ∧ ∃ zeros, s = "-" ++ String.ofList (List.replicate zeros '0') ++ decimal i.natAbs)

/-! ### Reading digits -/

/-- One character read into a value: a digit appends itself, anything else fails. -/
def readDigit (acc : Option Nat) (c : Char) : Option Nat :=
  acc.bind fun n => if c.isDigit then some (10 * n + (c.toNat - '0'.toNat)) else none

theorem digitsValue?_eq (cs : List Char) :
    digitsValue? cs = if cs.isEmpty then none else cs.foldl readDigit (some 0) :=
  rfl

theorem digitChar_digit : ∀ d < 10,
    (Nat.digitChar d).isDigit = true ∧ (Nat.digitChar d).toNat - '0'.toNat = d := by
  decide

theorem toNat_of_isDigit {c : Char} (h : c.isDigit = true) : 48 ≤ c.toNat ∧ c.toNat ≤ 57 := by
  simp only [Char.isDigit, Bool.and_eq_true, decide_eq_true_eq] at h
  exact ⟨h.1, h.2⟩

theorem digitChar_of_isDigit {c : Char} (h : c.isDigit = true) :
    c.toNat - '0'.toNat < 10 ∧ Nat.digitChar (c.toNat - '0'.toNat) = c := by
  have hrange := toNat_of_isDigit h
  have hdigit : ∀ d < 10, Nat.digitChar d = Char.ofNat (d + 48) := by decide
  have hzero : '0'.toNat = 48 := rfl
  rw [hzero]
  refine ⟨by omega, ?_⟩
  rw [hdigit _ (by omega), Nat.sub_add_cancel hrange.1, Char.ofNat_toNat]

theorem readDigit_digit (n d : Nat) (hd : d < 10) :
    readDigit (some n) (Nat.digitChar d) = some (10 * n + d) := by
  obtain ⟨hdig, hval⟩ := digitChar_digit d hd
  simp only [readDigit, Option.bind_some, hdig, if_true, hval]

theorem isDigit_of_mem_toDigits {n : Nat} {c : Char} (h : c ∈ Nat.toDigits 10 n) : c.isDigit = true := by
  induction n using Nat.strong_induction_on with
  | _ n ih =>
      by_cases hn : n < 10
      · rw [Nat.toDigits_of_lt_base hn, List.mem_singleton] at h
        subst h
        exact (digitChar_digit n hn).1
      · rw [← Nat.div_add_mod n 10, ← Nat.toDigits_append_toDigits (by decide) (by omega)
          (Nat.mod_lt n (by decide)), Nat.toDigits_of_lt_base (Nat.mod_lt n (by decide))] at h
        rcases List.mem_append.mp h with h | h
        · exact ih (n / 10) (by omega) h
        · rw [List.mem_singleton] at h
          subst h
          exact (digitChar_digit _ (Nat.mod_lt n (by decide))).1

theorem isDigit_of_mem_numeral {k n : Nat} {c : Char}
    (h : c ∈ List.replicate k '0' ++ Nat.toDigits 10 n) : c.isDigit = true := by
  rcases List.mem_append.mp h with h | h
  · rw [List.eq_of_mem_replicate h]
    rfl
  · exact isDigit_of_mem_toDigits h

theorem NatNumeral.chars {s : String} {n : Nat} (h : NatNumeral s n) :
    s.toList ≠ [] ∧ ∀ c ∈ s.toList, c = '+' ∨ c.isDigit = true := by
  obtain ⟨sign, hsign, k, rfl⟩ := h
  simp only [List.mem_cons, List.not_mem_nil, or_false] at hsign
  have hdigits : Nat.toDigits 10 n ≠ [] := Nat.toDigits_ne_nil
  refine ⟨by simp [decimal, hdigits], fun c hc => ?_⟩
  simp only [String.toList_append, String.toList_ofList, decimal, List.append_assoc,
    List.mem_append] at hc
  rcases hc with hc | hc
  · rcases hsign with rfl | rfl <;> simp_all
  · exact .inr (isDigit_of_mem_numeral (List.mem_append.mpr hc))

theorem IntNumeral.chars {s : String} {i : Int} (h : IntNumeral s i) :
    s.toList ≠ [] ∧ ∀ c ∈ s.toList, c = '+' ∨ c = '-' ∨ c.isDigit = true := by
  rcases h with ⟨-, hnat⟩ | ⟨-, k, rfl⟩
  · obtain ⟨hne, hc⟩ := hnat.chars
    exact ⟨hne, fun c hmem => (hc c hmem).imp_right .inr⟩
  · refine ⟨by simp, fun c hc => ?_⟩
    simp only [String.toList_append, String.toList_ofList, decimal, List.append_assoc,
      List.mem_append] at hc
    rcases hc with hc | hc
    · simp_all
    · exact .inr (.inr (isDigit_of_mem_numeral (List.mem_append.mpr hc)))

theorem foldl_toDigits (n : Nat) : (Nat.toDigits 10 n).foldl readDigit (some 0) = some n := by
  induction n using Nat.strong_induction_on with
  | _ n ih =>
      by_cases hn : n < 10
      · rw [Nat.toDigits_of_lt_base hn, List.foldl_cons, List.foldl_nil, readDigit_digit 0 n hn]
        simp
      · -- the numeral of `n` is the numeral of `n / 10` followed by the digit `n % 10`
        have hsplit : Nat.toDigits 10 n = Nat.toDigits 10 (n / 10) ++ [Nat.digitChar (n % 10)] := by
          rw [← Nat.toDigits_of_lt_base (Nat.mod_lt n (by decide)),
            Nat.toDigits_append_toDigits (by decide) (by omega) (Nat.mod_lt n (by decide)),
            Nat.div_add_mod]
        rw [hsplit, List.foldl_append, ih (n / 10) (by omega), List.foldl_cons, List.foldl_nil,
          readDigit_digit _ _ (Nat.mod_lt n (by decide)), Nat.div_add_mod]

theorem foldl_zeros (k : Nat) : (List.replicate k '0').foldl readDigit (some 0) = some 0 := by
  induction k with
  | zero => rfl
  | succ k ih =>
      rw [List.replicate_succ', List.foldl_append, ih]
      rfl

/-- **Numerals read as their value**, whatever their leading zeros. -/
theorem digitsValue?_numeral (k n : Nat) :
    digitsValue? (List.replicate k '0' ++ Nat.toDigits 10 n) = some n := by
  rw [digitsValue?_eq, if_neg (by simp [Nat.toDigits_ne_nil]), List.foldl_append, foldl_zeros,
    foldl_toDigits]

/-- **Only numerals read**: a digit list with a value is its numeral after some zeros. -/
theorem numeral_of_digitsValue? {cs : List Char} {n : Nat} (h : digitsValue? cs = some n) :
    ∃ k, cs = List.replicate k '0' ++ Nat.toDigits 10 n := by
  induction cs using List.reverseRecOn generalizing n with
  | nil => simp [digitsValue?_eq] at h
  | append_singleton init c ih =>
      rw [digitsValue?_eq, if_neg (by simp), List.foldl_append, List.foldl_cons, List.foldl_nil] at h
      cases hinit : init.foldl readDigit (some 0) with
      | none => rw [hinit] at h; cases h
      | some m =>
          rw [hinit] at h
          simp only [readDigit, Option.bind_some] at h
          split_ifs at h with hc
          obtain ⟨hd, hchar⟩ := digitChar_of_isDigit hc
          cases h
          -- the last digit stands alone after the digits of `m`
          by_cases hne : init = []
          · subst hne
            refine ⟨0, ?_⟩
            rw [List.replicate_zero, List.nil_append, show 10 * m = 0 by simp at hinit; omega,
              Nat.zero_add, Nat.toDigits_of_lt_base hd, hchar]
            rfl
          · obtain ⟨k, hk⟩ := ih (by rw [digitsValue?_eq, if_neg (by simpa using hne)]; exact hinit)
            by_cases hm : m = 0
            · subst hm
              refine ⟨k + 1, ?_⟩
              rw [hk, Nat.mul_zero, Nat.zero_add, Nat.toDigits_of_lt_base hd, hchar,
                List.replicate_succ', Nat.toDigits_of_lt_base (by decide : 0 < 10)]
              simp
            · refine ⟨k, ?_⟩
              rw [hk, List.append_assoc, ← Nat.toDigits_append_toDigits (by decide) (by omega) hd,
                Nat.toDigits_of_lt_base hd, hchar]

/-! ### The readers -/

def dropPlus : List Char → List Char
  | '+' :: rest => rest
  | cs => cs

theorem readNat?_eq (bound : Nat) (s : String) :
    readNat? bound s =
      (digitsValue? (dropPlus s.toList)).bind fun n => if n ≤ bound then some n else none := by
  unfold readNat?
  dsimp only
  generalize s.toList = cs
  rcases cs with _ | ⟨c, cs⟩
  · simp only [dropPlus]
    split <;> simp_all
  · by_cases hc : c = '+'
    · subst hc
      simp only [dropPlus]
      split <;> simp_all
    · rw [dropPlus.eq_2 _ (by simp [hc])]
      split <;> rename_i heq <;> split at heq <;> rename_i hplus
      · exact absurd (List.cons.inj hplus).1 hc
      · simp [heq]
      · exact absurd (List.cons.inj hplus).1 hc
      · simp [heq]

theorem dropPlus_of_digits {cs : List Char} (h : ∀ c ∈ cs, c.isDigit = true) : dropPlus cs = cs := by
  rcases cs with _ | ⟨c, cs⟩
  · rfl
  · have hc : c ≠ '+' := fun hc => by
      have := h c List.mem_cons_self
      rw [hc] at this
      cases this
    exact dropPlus.eq_2 _ (by simp [hc])

theorem dropPlus_cases (cs : List Char) :
    (∃ rest, cs = '+' :: rest ∧ dropPlus cs = rest) ∨ dropPlus cs = cs := by
  rcases cs with _ | ⟨c, cs⟩
  · exact .inr rfl
  · by_cases hc : c = '+'
    · exact .inl ⟨cs, by rw [hc], by rw [hc]; rfl⟩
    · exact .inr (dropPlus.eq_2 _ (by simp [hc]))

theorem numeral_eq {s : String} {sign : String} {k n : Nat}
    (h : s.toList = sign.toList ++ (List.replicate k '0' ++ Nat.toDigits 10 n)) :
    s = sign ++ String.ofList (List.replicate k '0') ++ decimal n := by
  rw [String.ext_iff, h]
  simp [decimal]

/-- **The count reader accepts exactly the decimal numerals** of counts up to its bound. -/
theorem readNat?_eq_some_iff {bound n : Nat} {s : String} :
    readNat? bound s = some n ↔ NatNumeral s n ∧ n ≤ bound := by
  rw [readNat?_eq]
  constructor
  · intro h
    obtain ⟨m, hm, hle⟩ := Option.bind_eq_some_iff.mp h
    split_ifs at hle with hb
    cases hle
    obtain ⟨k, hk⟩ := numeral_of_digitsValue? hm
    refine ⟨?_, hb⟩
    rcases dropPlus_cases s.toList with ⟨rest, hs, hdrop⟩ | hdrop
    · rw [hdrop] at hk
      exact ⟨"+", by simp, k, numeral_eq (by rw [hs, hk]; rfl)⟩
    · rw [hdrop] at hk
      exact ⟨"", by simp, k, numeral_eq (by rw [hk]; rfl)⟩
  · rintro ⟨⟨sign, hsign, k, rfl⟩, hb⟩
    have hbody : dropPlus (sign ++ String.ofList (List.replicate k '0') ++ decimal n).toList =
        List.replicate k '0' ++ Nat.toDigits 10 n := by
      simp only [List.mem_cons, List.not_mem_nil, or_false] at hsign
      rcases hsign with rfl | rfl
      · simp only [String.toList_append, String.toList_ofList, decimal]
        exact dropPlus_of_digits fun c hc => isDigit_of_mem_numeral (by simpa using hc)
      · simp [decimal, dropPlus]
    rw [hbody, digitsValue?_numeral]
    simp [hb]

theorem readNat?_eq_none_iff {bound : Nat} {s : String} :
    readNat? bound s = none ↔ ¬ ∃ n, NatNumeral s n ∧ n ≤ bound := by
  simp only [Option.eq_none_iff_forall_ne_some, ne_eq, readNat?_eq_some_iff, not_exists]

/-- The sign of a signed numeral, as whether it is negative, and the digits after it. -/
def splitSign : List Char → Bool × List Char
  | '+' :: rest => (false, rest)
  | '-' :: rest => (true, rest)
  | cs => (false, cs)

theorem readInt64?_eq (s : String) :
    readInt64? s = (digitsValue? (splitSign s.toList).2).bind fun n =>
      if fitsInt64 (if (splitSign s.toList).1 then -(n : Int) else n) then
        some (if (splitSign s.toList).1 then -(n : Int) else n)
      else none := by
  unfold readInt64?
  generalize s.toList = cs
  rcases cs with _ | ⟨c, cs⟩
  · simp only [splitSign]
    split <;> simp_all
  · by_cases hplus : c = '+'
    · subst hplus
      simp only [splitSign]
      split <;> simp_all
    by_cases hminus : c = '-'
    · subst hminus
      simp only [splitSign]
      split <;> simp_all
    rw [splitSign.eq_3 _ (by simp [hplus]) (by simp [hminus])]
    -- the model keeps a first character that is no sign
    split
    rename_i hsign
    split at hsign <;> rename_i hcs
    · exact absurd (List.cons.inj hcs).1 hplus
    · exact absurd (List.cons.inj hcs).1 hminus
    · obtain ⟨rfl, rfl⟩ := Prod.mk.inj hsign
      split <;> simp_all

theorem splitSign_cases (cs : List Char) :
    (∃ rest, cs = '+' :: rest ∧ splitSign cs = (false, rest)) ∨
      (∃ rest, cs = '-' :: rest ∧ splitSign cs = (true, rest)) ∨ splitSign cs = (false, cs) := by
  rcases cs with _ | ⟨c, cs⟩
  · exact .inr (.inr rfl)
  · by_cases hplus : c = '+'
    · exact .inl ⟨cs, by rw [hplus], by rw [hplus]; rfl⟩
    by_cases hminus : c = '-'
    · exact .inr (.inl ⟨cs, by rw [hminus], by rw [hminus]; rfl⟩)
    exact .inr (.inr (splitSign.eq_3 _ (by simp [hplus]) (by simp [hminus])))

theorem splitSign_of_digits {cs : List Char} (h : ∀ c ∈ cs, c.isDigit = true) :
    splitSign cs = (false, cs) := by
  rcases splitSign_cases cs with ⟨rest, rfl, -⟩ | ⟨rest, rfl, -⟩ | hsplit
  · cases h '+' List.mem_cons_self
  · cases h '-' List.mem_cons_self
  · exact hsplit

theorem readInt64?_eq_some_iff_digits {s : String} {i : Int} :
    readInt64? s = some i ↔ ∃ m, digitsValue? (splitSign s.toList).2 = some m ∧
      (if (splitSign s.toList).1 then -(m : Int) else m) = i ∧ fitsInt64 i = true := by
  rw [readInt64?_eq, Option.bind_eq_some_iff]
  refine exists_congr fun m => and_congr_right fun _ => ?_
  generalize (if (splitSign s.toList).1 = true then -(m : Int) else m) = j
  by_cases hj : fitsInt64 j = true
  · rw [if_pos hj, Option.some.injEq]
    constructor
    · rintro rfl
      exact ⟨rfl, hj⟩
    · rintro ⟨rfl, -⟩
      rfl
  · rw [if_neg hj]
    simp only [reduceCtorEq, false_iff, not_and]
    rintro rfl
    exact hj

/-- **The signed reader accepts exactly the decimal numerals** of values of a 64-bit word. -/
theorem readInt64?_eq_some_iff {s : String} {i : Int} :
    readInt64? s = some i ↔ IntNumeral s i ∧ fitsInt64 i = true := by
  rw [readInt64?_eq_some_iff_digits]
  constructor
  · rintro ⟨m, hm, rfl, hfits⟩
    refine ⟨?_, hfits⟩
    obtain ⟨k, hk⟩ := numeral_of_digitsValue? hm
    rcases splitSign_cases s.toList with ⟨rest, hs, hsplit⟩ | ⟨rest, hs, hsplit⟩ | hsplit <;>
      simp only [hsplit, Bool.false_eq_true, if_true, if_false] at hk ⊢
    · exact .inl ⟨by omega, "+", by simp, k, numeral_eq (by rw [hs, hk]; rfl)⟩
    · exact .inr ⟨by omega, k, numeral_eq (by rw [hs, hk]; simp)⟩
    · exact .inl ⟨by omega, "", by simp, k, numeral_eq (by rw [hk]; simp)⟩
  · rintro ⟨hnum, hfits⟩
    rcases hnum with ⟨hi, sign, hsign, k, rfl⟩ | ⟨hi, k, rfl⟩
    · have hsplit : splitSign (sign ++ String.ofList (List.replicate k '0') ++ decimal i.toNat).toList =
          (false, List.replicate k '0' ++ Nat.toDigits 10 i.toNat) := by
        simp only [List.mem_cons, List.not_mem_nil, or_false] at hsign
        rcases hsign with rfl | rfl
        · simp only [String.toList_append, String.toList_ofList, decimal]
          exact splitSign_of_digits fun c hc => isDigit_of_mem_numeral (by simpa using hc)
        · simp [decimal, splitSign]
      refine ⟨i.toNat, by rw [hsplit, digitsValue?_numeral], ?_, hfits⟩
      rw [hsplit]
      exact Int.toNat_of_nonneg hi
    · have hsplit : splitSign ("-" ++ String.ofList (List.replicate k '0') ++ decimal i.natAbs).toList =
          (true, List.replicate k '0' ++ Nat.toDigits 10 i.natAbs) := by
        simp [decimal, splitSign]
      refine ⟨i.natAbs, by rw [hsplit, digitsValue?_numeral], ?_, hfits⟩
      rw [hsplit]
      simp only [if_true]
      omega

end ScopedUndo.Text
