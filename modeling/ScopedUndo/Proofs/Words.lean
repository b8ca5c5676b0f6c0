import ScopedUndo.Text.Blank
import ScopedUndo.Text.Lower
import Mathlib
/-!
# Blanks, words and ASCII case

Trimming drops the blanks around the first and last character that is not blank, and the words of a
text are its runs of characters that are not blank. Both are read here on texts laid out as words
and runs of blanks: `trim_frame` and `runs_join` give such a text's trimmed form and its words.

Full Unicode lower case agrees with ASCII lower case below `U+00C0`: the one run of
`lowerRuns` that starts below it is the ASCII capitals (`lower_eq_toLower`).
-/

namespace ScopedUndo.Text

/-! ### Trimming -/

theorem dropWhile_of_head {p : Char → Bool} {l : List Char} (h : ∀ c ∈ l.head?, p c = false) :
    l.dropWhile p = l := by
  rcases l with _ | ⟨c, l⟩
  · rfl
  · exact List.dropWhile_cons_of_neg (by simp [h c rfl])

theorem trimEnd_frame {core trail : List Char} (htrail : ∀ c ∈ trail, isBlank c = true)
    (hlast : ∀ c ∈ core.getLast?, isBlank c = false) :
    trimEnd (String.ofList (core ++ trail)) = String.ofList core := by
  simp only [trimEnd, String.toList_ofList, List.reverse_append]
  rw [List.dropWhile_append, if_pos (by simpa [List.dropWhile_eq_nil_iff] using htrail),
    dropWhile_of_head (by simpa [List.head?_reverse] using hlast), List.reverse_reverse]

/-- A text laid out as blanks, a core that starts and ends with no blank, and blanks trims to its
core. -/
theorem trim_frame {lead core trail : List Char} (hlead : ∀ c ∈ lead, isBlank c = true)
    (htrail : ∀ c ∈ trail, isBlank c = true) (hne : core ≠ [])
    (hhead : ∀ c ∈ core.head?, isBlank c = false) (hlast : ∀ c ∈ core.getLast?, isBlank c = false) :
    trim (String.ofList (lead ++ core ++ trail)) = String.ofList core := by
  have hstart : trimStart (String.ofList (lead ++ core ++ trail)) = String.ofList (core ++ trail) := by
    rw [trimStart, String.toList_ofList, List.append_assoc, List.dropWhile_append,
      if_pos (by simpa [List.dropWhile_eq_nil_iff] using hlead),
      dropWhile_of_head (by rwa [List.head?_append_of_ne_nil _ hne])]
  rw [trim, hstart, trimEnd_frame htrail hlast]

theorem trim_eq_empty_iff (s : String) : trim s = "" ↔ ∀ c ∈ s.toList, isBlank c = true := by
  simp only [trim, trimStart, trimEnd, String.toList_ofList]
  rw [← List.dropWhile_eq_nil_iff]
  constructor
  · intro h
    by_contra hne
    -- the front-trimmed text starts with a character that is not blank, and the end keeps it
    obtain ⟨c, cs, hcs⟩ := List.exists_cons_of_ne_nil hne
    have hc : isBlank c = false := by
      have := List.head_dropWhile_not isBlank (l := s.toList) hne
      simpa [hcs] using this
    have hkeep : ((c :: cs).reverse.dropWhile isBlank).reverse ≠ [] := by
      rcases cs.eq_nil_or_concat with rfl | ⟨init, d, rfl⟩
      · simp [hc]
      · intro hnil
        rw [List.reverse_eq_nil_iff, List.dropWhile_eq_nil_iff] at hnil
        exact absurd (hnil c (by simp)) (by simp [hc])
    rw [hcs] at h
    exact hkeep (by simpa [String.ext_iff] using h)
  · intro h
    rw [h]
    rfl

theorem isBlank_of_printable {c : Char} (h : 33 ≤ c.toNat ∧ c.toNat ≤ 126) : isBlank c = false := by
  simp only [isBlank, Bool.or_eq_false_iff, Bool.and_eq_false_iff, decide_eq_false_iff_not,
    beq_eq_false_iff_ne, ne_eq]
  omega

/-! ### Words -/

/-- The runs of a character list between separators, empty runs dropped. -/
def runs (sep : Char → Bool) (cs : List Char) : List (List Char) :=
  ((pieces sep cs).1 :: (pieces sep cs).2).filter fun piece => !piece.isEmpty

theorem tokens_eq (sep : Char → Bool) (s : String) :
    tokens sep s = (runs sep s.toList).map String.ofList :=
  rfl

theorem pieces_word {sep : Char → Bool} {w : List Char} (hw : ∀ c ∈ w, sep c = false)
    (rest : List Char) :
    pieces sep (w ++ rest) = (w ++ (pieces sep rest).1, (pieces sep rest).2) := by
  induction w with
  | nil => rfl
  | cons c w ih =>
      rw [List.cons_append, pieces, ih (fun d hd => hw d (List.mem_cons_of_mem _ hd))]
      dsimp only
      rw [if_neg (by simp [hw c List.mem_cons_self])]
      rfl

theorem runs_sep {sep : Char → Bool} {c : Char} (hc : sep c = true) (cs : List Char) :
    runs sep (c :: cs) = runs sep cs := by
  simp [runs, pieces, hc]

theorem runs_gap {sep : Char → Bool} {g : List Char} (hg : ∀ c ∈ g, sep c = true) (rest : List Char) :
    runs sep (g ++ rest) = runs sep rest := by
  induction g with
  | nil => rfl
  | cons c g ih =>
      rw [List.cons_append, runs_sep (hg c List.mem_cons_self),
        ih (fun d hd => hg d (List.mem_cons_of_mem _ hd))]

theorem runs_word {sep : Char → Bool} {w rest : List Char} (hne : w ≠ [])
    (hw : ∀ c ∈ w, sep c = false) (hrest : ∀ c ∈ rest.head?, sep c = true) :
    runs sep (w ++ rest) = w :: runs sep rest := by
  have hfirst : (pieces sep rest).1 = [] := by
    rcases rest with _ | ⟨c, rest⟩
    · rfl
    · simp [pieces, hrest c rfl]
  simp [runs, pieces_word hw, hfirst, hne]

theorem runs_join {w : List Char} (hne : w ≠ []) (hw : ∀ c ∈ w, isBlank c = false)
    (args : List (List Char × List Char))
    (hgaps : ∀ a ∈ args, a.1 ≠ [] ∧ ∀ c ∈ a.1, isBlank c = true)
    (hargs : ∀ a ∈ args, a.2 ≠ [] ∧ ∀ c ∈ a.2, isBlank c = false) :
    runs isBlank (w ++ args.flatMap fun a => a.1 ++ a.2) = w :: args.map Prod.snd := by
  induction args generalizing w with
  | nil =>
      have hlast := @runs_word isBlank w [] hne hw (by simp)
      rw [List.append_nil] at hlast
      rw [List.flatMap_nil, List.append_nil, hlast]
      rfl
  | cons a args ih =>
      obtain ⟨hgne, hg⟩ := hgaps a List.mem_cons_self
      obtain ⟨hane, ha⟩ := hargs a List.mem_cons_self
      have hhead : ∀ c ∈ (a.1 ++ a.2 ++ args.flatMap fun a => a.1 ++ a.2).head?, isBlank c = true := by
        obtain ⟨c, g, hcg⟩ := List.exists_cons_of_ne_nil hgne
        intro d hd
        rw [hcg] at hd
        simp only [List.cons_append, List.head?_cons, Option.mem_def, Option.some.injEq] at hd
        exact hd ▸ hg c (by simp [hcg])
      rw [List.flatMap_cons, runs_word hne hw hhead, List.append_assoc, runs_gap hg,
        ih hane ha (fun b hb => hgaps b (List.mem_cons_of_mem _ hb))
          (fun b hb => hargs b (List.mem_cons_of_mem _ hb))]
      rfl

/-! ### ASCII case -/

theorem toNat_toLower (c : Char) :
    c.toLower.toNat = if 65 ≤ c.toNat ∧ c.toNat ≤ 90 then c.toNat + 32 else c.toNat := by
  unfold Char.toLower
  split
  · rename_i h
    have h' : 65 ≤ c.toNat ∧ c.toNat ≤ 90 := ⟨h.1, h.2⟩
    rw [if_pos h']
    show (c.val + ('a'.val - 'A'.val)).toNat = c.toNat + 32
    have hshift : ('a'.val - 'A'.val).toNat = 32 := rfl
    rw [UInt32.toNat_add, hshift, Char.toNat_val]
    omega
  · rename_i h
    have h' : ¬ (65 ≤ c.toNat ∧ c.toNat ≤ 90) := fun h' => h ⟨h'.1, h'.2⟩
    rw [if_neg h']

theorem toList_toLower (s : String) : s.toLower.toList = s.toList.map Char.toLower :=
  String.toList_map

set_option maxRecDepth 4000 in
theorem first_of_mem_lowerRuns_tail : ∀ r ∈ lowerRuns.tail, 0xC0 ≤ r.first := by
  decide

theorem lowerOne_eq_toLower {c : Char} (h : c.toNat < 0xC0) : lowerOne c = c.toLower := by
  have hrest : lowerRuns.tail.find? (·.holds c.toNat) = none := by
    rw [List.find?_eq_none]
    intro r hr
    have := first_of_mem_lowerRuns_tail r hr
    simp [LowerRun.holds]
    omega
  rw [← Char.toNat_inj, toNat_toLower]
  unfold lowerOne
  by_cases hcap : 65 ≤ c.toNat ∧ c.toNat ≤ 90
  · have hfind : lowerRuns.find? (·.holds c.toNat) = some ⟨0x41, 0x5A, 32, 1⟩ := by
      rw [show lowerRuns = ⟨0x41, 0x5A, 32, 1⟩ :: lowerRuns.tail from rfl, List.find?_cons]
      simp [LowerRun.holds, hcap.1, hcap.2, Nat.mod_one]
    rw [hfind, if_pos hcap]
    simp only
    rw [Char.toNat_ofNat, if_pos (by simp [Nat.isValidChar]; omega)]
    omega
  · have hfind : lowerRuns.find? (·.holds c.toNat) = none := by
      rw [show lowerRuns = ⟨0x41, 0x5A, 32, 1⟩ :: lowerRuns.tail from rfl, List.find?_cons]
      have hnot : LowerRun.holds ⟨0x41, 0x5A, 32, 1⟩ c.toNat = false := by
        simp only [LowerRun.holds, Bool.and_eq_false_iff, decide_eq_false_iff_not]
        omega
      rw [hnot]
      exact hrest
    rw [hfind, if_neg hcap]

theorem lowerFrom_eq_map {before cs : List Char} (h : ∀ c ∈ cs, c.toNat < 0xC0) :
    lowerFrom before cs = cs.map Char.toLower := by
  induction cs generalizing before with
  | nil => rfl
  | cons c cs ih =>
      have hc := h c List.mem_cons_self
      rw [lowerFrom, if_neg (by simp; omega), if_neg (by simp; omega),
        lowerOne_eq_toLower hc, ih (fun d hd => h d (List.mem_cons_of_mem _ hd))]
      rfl

theorem lower_eq_toLower {s : String} (h : ∀ c ∈ s.toList, c.toNat < 0xC0) : lower s = s.toLower := by
  rw [lower, lowerFrom_eq_map h, String.ext_iff, String.toList_ofList, toList_toLower]

end ScopedUndo.Text
