import ScopedUndo.Script
import ScopedUndo.Proofs.Numerals
import ScopedUndo.Proofs.Words
/-!
# The grammar of script lines

A statement is written as its keyword, in any ASCII case, followed by its arguments, each after a gap
of blanks: words with no blank and no `#`, numbers in decimal, and the start of a jump as `none` in any
case. Blanks may surround it, a `&` after it sends it to the background, and a `#` starts a comment.
`Layout.Renders` says when a line is such a rendering, and every rendering parses to its statement.

Conversely a line whose text before its first `#` is blank gives nothing, and any other line is refused,
always with its own line number, exactly when its first word is missing, its lower case is no keyword,
or the keyword's arguments are of the wrong number or no decimal numeral in range (`Refuses`). The
keyword is lowered with the full Unicode lower case, so a word that is no keyword in any ASCII case can
still name one: the Kelvin sign lowers to `k`.
-/

namespace ScopedUndo

namespace Script

open Text Cli

structure Word (w : String) : Prop where
  ne_empty : w ≠ ""
  not_blank : ∀ c ∈ w.toList, isBlank c = false
  no_hash : '#' ∉ w.toList

def keywords : List String :=
  ["set", "add", "get", "undo", "redo", "jump", "stack", "limit", "history", "queued", "wait",
    "balances", "clear", "scopes"]

/-- `Writes st kw args`: the statement `st` is the keyword `kw` followed by the words `args`. Numbers
are decimal numerals, the start of a jump is `none` in any ASCII case, and a scope text is written as
its words. -/
inductive Writes : Statement → String → List String → Prop
  | set {scope account text : String} {value : Int} : Word scope → Word account →
      IntNumeral text value → fitsInt64 value = true →
      Writes (.set scope account value) "set" [scope, account, text]
  | add {scope account text : String} {delta : Int} : Word scope → Word account →
      IntNumeral text delta → fitsInt64 delta = true →
      Writes (.add scope account delta) "add" [scope, account, text]
  | get {scope account : String} : Word scope → Word account →
      Writes (.get scope account) "get" [scope, account]
  | undoActive : Writes (.undo none) "undo" []
  | undo {ws : List String} : ws ≠ [] → (∀ w ∈ ws, Word w) →
      Writes (.undo (some (" ".intercalate ws))) "undo" ws
  | redoActive : Writes (.redo none) "redo" []
  | redo {ws : List String} : ws ≠ [] → (∀ w ∈ ws, Word w) →
      Writes (.redo (some (" ".intercalate ws))) "redo" ws
  | jumpStart {w : String} : w.toLower = "none" → Writes (.jump none) "jump" [w]
  | jump {text : String} {i : Nat} : NatNumeral text i → i ≤ sizeMax →
      Writes (.jump (some i)) "jump" [text]
  | stackDefault : Writes (.stack none) "stack" []
  | stack {id : String} : Word id → Writes (.stack (some id)) "stack" [id]
  | limit {text : String} {n : Nat} : NatNumeral text n → n ≤ sizeMax →
      Writes (.limit n) "limit" [text]
  | history : Writes .history "history" []
  | queuedAll : Writes (.queued none) "queued" []
  | queued {ws : List String} : ws ≠ [] → (∀ w ∈ ws, Word w) →
      Writes (.queued (some (" ".intercalate ws))) "queued" ws
  | wait : Writes .wait "wait" []
  | balances : Writes .balances "balances" []
  | clear : Writes .clear "clear" []
  | scopes : Writes .scopes "scopes" []

/-- Why a keyword and its arguments make no statement: the keyword is unknown, or it takes a fixed
number of arguments and gets another, or one of them is no decimal numeral in range. -/
def Refuses (kw : String) (args : List String) : Prop :=
  kw ∉ keywords ∨
    ((kw = "set" ∨ kw = "add") ∧
      (args.length ≠ 3 ∨ ∃ scope account v, args = [scope, account, v] ∧
        ¬ ∃ i, IntNumeral v i ∧ fitsInt64 i = true)) ∨
    (kw = "get" ∧ args.length ≠ 2) ∨
    (kw = "jump" ∧ (args.length ≠ 1 ∨ ∃ v, args = [v] ∧ v.toLower ≠ "none" ∧
      ¬ ∃ i, NatNumeral v i ∧ i ≤ sizeMax)) ∨
    (kw = "limit" ∧ (args.length ≠ 1 ∨ ∃ v, args = [v] ∧ ¬ ∃ i, NatNumeral v i ∧ i ≤ sizeMax))

/-! ### Words and keywords -/

theorem Word.of_printable {w : String} (hne : w.toList ≠ [])
    (h : ∀ c ∈ w.toList, 33 ≤ c.toNat ∧ c.toNat ≤ 126 ∧ c.toNat ≠ 35) : Word w where
  ne_empty hw := hne (String.toList_eq_nil_iff.mpr hw)
  not_blank c hc := isBlank_of_printable ⟨(h c hc).1, (h c hc).2.1⟩
  no_hash hc := (h '#' hc).2.2 rfl

theorem Word.toList_ne_nil {w : String} (h : Word w) : w.toList ≠ [] :=
  fun hnil => h.ne_empty (String.toList_eq_nil_iff.mp hnil)

theorem letters_of_toLower {w kw : String} (h : w.toLower = kw)
    (hkw : ∀ d ∈ kw.toList, 97 ≤ d.toNat ∧ d.toNat ≤ 122) :
    w.toList.length = kw.toList.length ∧ ∀ c ∈ w.toList, 65 ≤ c.toNat ∧ c.toNat ≤ 122 := by
  have hmap : w.toList.map Char.toLower = kw.toList := by
    rw [← toList_toLower, h]
  refine ⟨by rw [← hmap, List.length_map], fun c hc => ?_⟩
  have hd := hkw c.toLower (hmap ▸ List.mem_map_of_mem hc)
  rw [toNat_toLower] at hd
  split at hd <;> omega

theorem word_of_toLower {w kw : String} (h : w.toLower = kw) (hne : kw ≠ "")
    (hkw : ∀ d ∈ kw.toList, 97 ≤ d.toNat ∧ d.toNat ≤ 122) : Word w := by
  obtain ⟨hlen, hletters⟩ := letters_of_toLower h hkw
  refine Word.of_printable (fun hnil => hne ?_) fun c hc => ?_
  · rw [hnil, List.length_nil, eq_comm, List.length_eq_zero_iff] at hlen
    exact String.toList_eq_nil_iff.mp hlen
  · have := hletters c hc
    omega

theorem keywords_lower_letters : ∀ kw ∈ "none" :: keywords,
    kw ≠ "" ∧ ∀ d ∈ kw.toList, 97 ≤ d.toNat ∧ d.toNat ≤ 122 := by
  simp [keywords]

theorem word_of_numeral {text : String} (hne : text.toList ≠ [])
    (h : ∀ c ∈ text.toList, c = '+' ∨ c = '-' ∨ c.isDigit = true) : Word text := by
  refine Word.of_printable hne fun c hc => ?_
  rcases h c hc with rfl | rfl | hdigit
  · decide
  · decide
  · have := toNat_of_isDigit hdigit
    omega

theorem word_of_natNumeral {text : String} {n : Nat} (h : NatNumeral text n) : Word text :=
  word_of_numeral h.chars.1 fun c hc => (h.chars.2 c hc).imp_right .inr

theorem word_of_intNumeral {text : String} {i : Int} (h : IntNumeral text i) : Word text :=
  word_of_numeral h.chars.1 h.chars.2

theorem toLower_ne_none_of_numeral {text : String} {i : Nat} (h : NatNumeral text i) :
    text.toLower ≠ "none" := by
  intro hlow
  obtain ⟨-, hletters⟩ := letters_of_toLower hlow (keywords_lower_letters "none" (by simp)).2
  obtain ⟨hne, hchars⟩ := h.chars
  obtain ⟨c, hc⟩ := List.exists_mem_of_ne_nil _ hne
  have hletter := hletters c hc
  rcases hchars c hc with rfl | hdigit
  · simp at hletter
  · have := toNat_of_isDigit hdigit
    omega

theorem Writes.words {st : Statement} {kw : String} {args : List String} (h : Writes st kw args) :
    ∀ a ∈ args, Word a := by
  cases h with
  | set hscope haccount hnum _ | add hscope haccount hnum _ =>
      simp only [List.mem_cons, List.not_mem_nil, or_false]
      rintro a (rfl | rfl | rfl)
      exacts [hscope, haccount, word_of_intNumeral hnum]
  | get hscope haccount =>
      simp only [List.mem_cons, List.not_mem_nil, or_false]
      rintro a (rfl | rfl)
      exacts [hscope, haccount]
  | undo _ hws | redo _ hws | queued _ hws => exact hws
  | jumpStart hnone =>
      simp only [List.mem_cons, List.not_mem_nil, or_false]
      rintro a rfl
      obtain ⟨hne, hletters⟩ := keywords_lower_letters "none" (by simp)
      exact word_of_toLower hnone hne hletters
  | jump hnum _ | limit hnum _ =>
      simp only [List.mem_cons, List.not_mem_nil, or_false]
      rintro a rfl
      exact word_of_natNumeral hnum
  | stack hid =>
      simp only [List.mem_cons, List.not_mem_nil, or_false]
      rintro a rfl
      exact hid
  | _ => simp

theorem Writes.keyword_mem {st : Statement} {kw : String} {args : List String}
    (h : Writes st kw args) : kw ∈ keywords := by
  cases h <;> simp [keywords]

/-! ### Statements of keywords -/

theorem map_number_eq_error {line : Nat} {text : String} (f : Int → Statement) :
    (∃ e, f <$> number line text = .error e) ↔ ¬ ∃ i, IntNumeral text i ∧ fitsInt64 i = true := by
  simp only [number, ← readInt64?_eq_some_iff]
  split <;> simp_all [Functor.map, Except.map]

theorem statement_writes {st : Statement} {kw : String} {args : List String} (h : Writes st kw args)
    (line : Nat) : statement line kw args = .ok st := by
  cases h with
  | set _ _ hnum hfits | add _ _ hnum hfits =>
      simp [statement, number, readInt64?_eq_some_iff.mpr ⟨hnum, hfits⟩]
  | undo hne _ | redo hne _ | queued hne _ => simp [statement, rest, hne, pure, Except.pure]
  | jumpStart hnone => simp [statement, hnone, pure, Except.pure]
  | jump hnum hle =>
      simp [statement, readNat?_eq_some_iff.mpr ⟨hnum, hle⟩, toLower_ne_none_of_numeral hnum, pure,
        Except.pure]
  | limit hnum hle => simp [statement, readNat?_eq_some_iff.mpr ⟨hnum, hle⟩, pure, Except.pure]
  | _ => rfl

/-- **A keyword and its arguments are refused exactly when `Refuses` says so.** -/
theorem statement_error_iff {line : Nat} {kw : String} {args : List String} :
    (∃ e, statement line kw args = .error e) ↔ Refuses kw args := by
  unfold statement
  -- one case per keyword, then one per shape of the arguments where the keyword takes a fixed number
  split
  case h_1 | h_2 =>
    rcases args with _ | ⟨scope, _ | ⟨account, _ | ⟨v, _ | ⟨x, more⟩⟩⟩⟩ <;>
      simp [Refuses, keywords, throw, throwThe, MonadExceptOf.throw, map_number_eq_error]
  case h_3 =>
    rcases args with _ | ⟨scope, _ | ⟨account, _ | ⟨x, more⟩⟩⟩ <;>
      simp [Refuses, keywords, throw, throwThe, MonadExceptOf.throw, pure, Except.pure]
  case h_6 =>
    rcases args with _ | ⟨v, _ | ⟨x, more⟩⟩
    · simp [Refuses, keywords, throw, throwThe, MonadExceptOf.throw]
    · by_cases hnone : v.toLower = "none"
      · simp [hnone, Refuses, keywords, pure, Except.pure]
      · cases hread : readNat? sizeMax v with
        | none =>
            have := readNat?_eq_none_iff.mp hread
            simp_all [Refuses, keywords, throw, throwThe, MonadExceptOf.throw]
        | some i =>
            simp [hnone, hread, Refuses, keywords, pure, Except.pure]
            exact ⟨i, readNat?_eq_some_iff.mp hread⟩
    · simp [Refuses, keywords, throw, throwThe, MonadExceptOf.throw]
  case h_8 =>
    rcases args with _ | ⟨v, _ | ⟨x, more⟩⟩
    · simp [Refuses, keywords, throw, throwThe, MonadExceptOf.throw]
    · cases hread : readNat? sizeMax v with
      | none =>
          have := readNat?_eq_none_iff.mp hread
          simp_all [Refuses, keywords, throw, throwThe, MonadExceptOf.throw]
      | some i =>
          simp [hread, Refuses, keywords, pure, Except.pure]
          exact ⟨i, readNat?_eq_some_iff.mp hread⟩
    · simp [Refuses, keywords, throw, throwThe, MonadExceptOf.throw]
  case h_15 =>
    refine iff_of_true ⟨_, rfl⟩ (.inl ?_)
    simp_all [keywords]
  -- the keywords that take any words never fail
  all_goals simp [Refuses, keywords, pure, Except.pure]

theorem bind_number_error {line : Nat} {text : String} {e : CliError} {f : Int → Statement}
    (h : (number line text >>= fun i => pure (f i)) = .error e) : ∃ msg, e = .script line msg := by
  unfold number at h
  split at h
  · cases h
  · exact ⟨_, (Except.error.inj h).symm⟩

theorem statement_error_line {line : Nat} {kw : String} {args : List String} {e : CliError}
    (h : statement line kw args = .error e) : ∃ msg, e = .script line msg := by
  have hthrow : ∀ msg, (throw (.script line msg) : Except CliError Statement) = .error e →
      ∃ msg, e = .script line msg :=
    fun msg h => ⟨msg, (Except.error.inj h).symm⟩
  unfold statement at h
  split at h
  case h_1 | h_2 =>
    split at h
    · exact bind_number_error h
    · exact hthrow _ h
  case h_3 =>
    split at h
    · cases h
    · exact hthrow _ h
  case h_6 =>
    split at h
    · split at h
      · cases h
      · split at h
        · cases h
        · exact hthrow _ h
    · exact hthrow _ h
  case h_8 =>
    split at h
    · split at h
      · cases h
      · exact hthrow _ h
    · exact hthrow _ h
  case h_15 => exact hthrow _ h
  all_goals cases h

/-! ### Lines -/

def Blank (s : String) : Prop :=
  ∀ c ∈ s.toList, isBlank c = true

theorem ne_hash_of_isBlank {c : Char} (h : isBlank c = true) : c ≠ '#' := by
  rintro rfl
  exact absurd h (by decide)

/-- How a line lays out a statement: the blanks before the keyword, the keyword, each argument
after the gap before it, the blanks before a `&`, the blanks after, and a comment. -/
structure Layout where
  lead : String
  keyword : String
  args : List (String × String)
  amp : String
  trail : String
  comment : Option String

namespace Layout

/-- The line of a layout, with a `&` when it runs in the background. -/
def text (l : Layout) (background : Bool) : String :=
  l.lead ++ l.keyword ++ String.join (l.args.map fun a => a.1 ++ a.2) ++
    (if background then l.amp ++ "&" else "") ++ l.trail ++ (l.comment.map ("#" ++ ·)).getD ""

/-- A layout renders a statement when its keyword lowers to the statement's keyword, its words
write the statement, and what stands around them is blanks: the gaps before the arguments not
empty. Without a `&` the last argument must not end in one, or it would be read as that `&`. -/
structure Renders (l : Layout) (st : Statement) (background : Bool) : Prop where
  lead : Blank l.lead
  writes : Writes st l.keyword.toLower (l.args.map Prod.snd)
  gaps : ∀ a ∈ l.args, a.1 ≠ "" ∧ Blank a.1
  amp : Blank l.amp
  trail : Blank l.trail
  last : background = false → ∀ a ∈ l.args.getLast?, a.2.toList.getLast? ≠ some '&'

/-- The characters of the keyword and of the arguments with their gaps. -/
def core (l : Layout) : List Char :=
  l.keyword.toList ++ l.args.flatMap fun a => a.1.toList ++ a.2.toList

def ampChars (l : Layout) (background : Bool) : List Char :=
  if background then l.amp.toList ++ ['&'] else []

theorem toList_text (l : Layout) (background : Bool) :
    (l.text background).toList = l.lead.toList ++ (l.core ++ l.ampChars background) ++
      l.trail.toList ++ (l.comment.map fun c => '#' :: c.toList).getD [] := by
  obtain ⟨lead, keyword, args, amp, trail, comment⟩ := l
  cases background <;> cases comment <;>
    simp [text, core, ampChars, String.toList_join, List.flatMap, Function.comp_def]

namespace Renders

variable {l : Layout} {st : Statement} {b : Bool} (h : l.Renders st b)
include h

theorem keyword_letters : Word l.keyword ∧ ∀ c ∈ l.keyword.toList, 65 ≤ c.toNat ∧ c.toNat ≤ 122 := by
  obtain ⟨hne, hlow⟩ := keywords_lower_letters _ (List.mem_cons_of_mem _ h.writes.keyword_mem)
  exact ⟨word_of_toLower rfl hne hlow, (letters_of_toLower rfl hlow).2⟩

theorem lower_keyword : lower l.keyword = l.keyword.toLower :=
  lower_eq_toLower fun c hc => by
    have := h.keyword_letters.2 c hc
    omega

theorem arg_word : ∀ a ∈ l.args, Word a.2 :=
  fun a ha => h.writes.words a.2 (List.mem_map_of_mem ha)

theorem core_no_hash : ∀ c ∈ l.core, c ≠ '#' := by
  intro c hc
  simp only [core, List.mem_append, List.mem_flatMap] at hc
  rcases hc with hc | ⟨a, ha, hc | hc⟩
  · exact fun heq => h.keyword_letters.1.no_hash (heq ▸ hc)
  · exact ne_hash_of_isBlank ((h.gaps a ha).2 c hc)
  · exact fun heq => (h.arg_word a ha).no_hash (heq ▸ hc)

theorem core_ne_nil : l.core ≠ [] := by
  simp [core, h.keyword_letters.1.toList_ne_nil]

theorem core_head : ∀ c ∈ l.core.head?, isBlank c = false := by
  intro c hc
  rw [core, List.head?_append_of_ne_nil _ h.keyword_letters.1.toList_ne_nil] at hc
  exact h.keyword_letters.1.not_blank c (List.mem_of_mem_head? hc)

theorem core_getLast? {c : Char} (hc : c ∈ l.core.getLast?) :
    (l.args = [] ∧ c ∈ l.keyword.toList) ∨ ∃ a ∈ l.args.getLast?, a.2.toList.getLast? = some c := by
  rcases List.eq_nil_or_concat l.args with hnil | ⟨init, a, hconcat⟩
  · simp only [core, hnil, List.flatMap_nil, List.append_nil] at hc
    exact .inl ⟨hnil, List.mem_of_getLast? hc⟩
  · rw [List.concat_eq_append] at hconcat
    have hne : a.2.toList ≠ [] := (h.arg_word a (by simp [hconcat])).toList_ne_nil
    simp only [core, hconcat, List.flatMap_append, List.flatMap_cons, List.flatMap_nil,
      List.append_nil] at hc
    rw [List.getLast?_append_of_ne_nil _ (by simp [hne]),
      List.getLast?_append_of_ne_nil _ (by simp [hne]), List.getLast?_append_of_ne_nil _ hne] at hc
    exact .inr ⟨a, by simp [hconcat], hc⟩

theorem core_last : ∀ c ∈ l.core.getLast?, isBlank c = false ∧ (b = false → c ≠ '&') := by
  intro c hc
  rcases h.core_getLast? hc with ⟨-, hkey⟩ | ⟨a, ha, hlast⟩
  · have := h.keyword_letters.2 c hkey
    refine ⟨h.keyword_letters.1.not_blank c hkey, fun _ heq => ?_⟩
    rw [heq] at this
    simp at this
  · have hword := h.arg_word a (List.mem_of_getLast? ha)
    refine ⟨hword.not_blank c (List.mem_of_getLast? hlast), fun hb heq => ?_⟩
    exact h.last hb a ha (heq ▸ hlast)

theorem ampChars_blank_or_amp : ∀ c ∈ l.ampChars b, isBlank c = true ∨ c = '&' := by
  intro c hc
  cases b
  · simp [ampChars] at hc
  · simp only [ampChars, if_true, List.mem_append, List.mem_singleton] at hc
    exact hc.imp_left (h.amp c)

theorem uncommented_text :
    uncommented (l.text b) = String.ofList (l.lead.toList ++ (l.core ++ l.ampChars b) ++ l.trail.toList) := by
  have hkept : ∀ c ∈ l.lead.toList ++ (l.core ++ l.ampChars b) ++ l.trail.toList, (c != '#') = true := by
    intro c hc
    have hne : c ≠ '#' := by
      simp only [List.mem_append] at hc
      rcases hc with (hc | hc | hc) | hc
      · exact ne_hash_of_isBlank (h.lead c hc)
      · exact h.core_no_hash c hc
      · rcases h.ampChars_blank_or_amp c hc with hblank | rfl
        · exact ne_hash_of_isBlank hblank
        · decide
      · exact ne_hash_of_isBlank (h.trail c hc)
    simpa using hne
  have hcomment : ((l.comment.map fun c => '#' :: c.toList).getD []).takeWhile (· != '#') = [] := by
    cases l.comment <;> rfl
  rw [uncommented, toList_text, List.takeWhile_append_of_pos hkept, hcomment, List.append_nil]

theorem trim_uncommented_text :
    trim (uncommented (l.text b)) = String.ofList (l.core ++ l.ampChars b) := by
  rw [h.uncommented_text]
  refine trim_frame h.lead h.trail (by simp [h.core_ne_nil]) ?_ ?_
  · rw [List.head?_append_of_ne_nil _ h.core_ne_nil]
    exact h.core_head
  · cases b
    · simpa [ampChars] using fun c hc => (h.core_last c hc).1
    · simp [ampChars]
      decide

/-- The body of a rendered line is its statement's words, and the `&` is found exactly when
written. -/
theorem body_text : body (l.text b) = (String.ofList l.core, b) := by
  unfold body
  simp only [h.trim_uncommented_text, String.toList_ofList]
  cases b
  · have hlast : (l.core ++ l.ampChars false).getLast? ≠ some '&' := by
      intro heq
      simp only [ampChars, Bool.false_eq_true, if_false, List.append_nil] at heq
      exact (h.core_last '&' heq).2 rfl rfl
    rw [if_neg hlast]
    simp [ampChars]
  · have hamp : ∀ c ∈ l.amp.toList, isBlank c = true := h.amp
    simp only [ampChars, if_true, ← List.append_assoc, List.getLast?_concat, List.dropLast_concat]
    rw [trimEnd_frame hamp (fun c hc => (h.core_last c hc).1)]

theorem words_core : words (String.ofList l.core) = l.keyword :: l.args.map Prod.snd := by
  have hkeyword := h.keyword_letters.1
  have hjoin := runs_join hkeyword.toList_ne_nil hkeyword.not_blank
    (l.args.map fun a => (a.1.toList, a.2.toList))
    (by
      simp only [List.mem_map, forall_exists_index, and_imp]
      rintro _ a ha rfl
      exact ⟨fun hnil => (h.gaps a ha).1 (String.toList_eq_nil_iff.mp hnil), (h.gaps a ha).2⟩)
    (by
      simp only [List.mem_map, forall_exists_index, and_imp]
      rintro _ a ha rfl
      exact ⟨(h.arg_word a ha).toList_ne_nil, (h.arg_word a ha).not_blank⟩)
  rw [words, tokens_eq, String.toList_ofList, core]
  simp only [List.flatMap_map] at hjoin
  rw [hjoin]
  simp [Function.comp_def]

end Renders

end Layout

/-! ### Parsing a line -/

theorem trim_uncommented_text_ne {l : Layout} {st : Statement} {b : Bool} (h : l.Renders st b) :
    (trim (uncommented (l.text b))).isEmpty = false := by
  rw [h.trim_uncommented_text, Bool.eq_false_iff, ne_eq, String.isEmpty_iff,
    ← String.toList_eq_nil_iff, String.toList_ofList]
  simp [h.core_ne_nil]

/-- **Every rendering of a statement parses to it**, with the line's number and with the
background flag its `&` gives. -/
theorem parseLine_text {l : Layout} {st : Statement} {b : Bool} (h : l.Renders st b) (line : Nat) :
    parseLine line (l.text b) = .ok (some ⟨line, st, b⟩) := by
  unfold parseLine
  rw [if_neg (by simp [trim_uncommented_text_ne h])]
  simp only [h.body_text, h.words_core, h.lower_keyword, statement_writes h.writes line]
  rfl

/-- The keyword and the arguments of a line's words: the first word lowered, and the rest. -/
def keywordArgs : List String → String × List String
  | [] => ("", [])
  | w :: ws => (lower w, ws)

theorem parseLine_eq (line : Nat) (raw : String) :
    parseLine line raw =
      if (trim (uncommented raw)).isEmpty then .ok none
      else (statement line (keywordArgs (words (body raw).1)).1
        (keywordArgs (words (body raw).1)).2).map fun st => some ⟨line, st, (body raw).2⟩ := by
  unfold parseLine
  split
  · rfl
  · obtain ⟨text, background⟩ := body raw
    change (statement line (keywordArgs (words text)).1 (keywordArgs (words text)).2 >>= fun st =>
      pure (some (ScriptLine.mk line st background))) = _
    cases statement line (keywordArgs (words text)).1 (keywordArgs (words text)).2 <;> rfl

theorem parseLine_eq_none_iff {line : Nat} {raw : String} :
    parseLine line raw = .ok none ↔ Blank (uncommented raw) := by
  rw [parseLine_eq, Blank, ← trim_eq_empty_iff, ← String.isEmpty_iff]
  split
  · simp_all
  · rename_i hne
    simp only [hne]
    cases statement line (keywordArgs (words (body raw).1)).1 (keywordArgs (words (body raw).1)).2 <;>
      simp [Except.map]

theorem parseLine_eq_error_iff {line : Nat} {raw : String} {e : CliError} :
    parseLine line raw = .error e ↔ ¬ Blank (uncommented raw) ∧
      statement line (keywordArgs (words (body raw).1)).1 (keywordArgs (words (body raw).1)).2 =
        .error e := by
  rw [parseLine_eq, Blank, ← trim_eq_empty_iff, ← String.isEmpty_iff]
  split
  · simp_all
  · rename_i hne
    simp only [hne]
    cases statement line (keywordArgs (words (body raw).1)).1 (keywordArgs (words (body raw).1)).2 <;>
      simp [Except.map]

/-- **Every refusal of a line names the line.** -/
theorem parseLine_error_line {line : Nat} {raw : String} {e : CliError}
    (h : parseLine line raw = .error e) : ∃ msg, e = .script line msg :=
  statement_error_line (parseLine_eq_error_iff.mp h).2

theorem refuses_keywordArgs_iff (ws : List String) :
    Refuses (keywordArgs ws).1 (keywordArgs ws).2 ↔
      ws = [] ∨ ∃ w args, ws = w :: args ∧ Refuses (lower w) args := by
  rcases ws with _ | ⟨w, args⟩
  · simp [keywordArgs, Refuses, keywords]
  · simp [keywordArgs]

/-- **A line that is not blank is refused exactly when** its first word is missing, or lowers to no
keyword, or the keyword's arguments are of the wrong number or no numeral in range. -/
theorem parseLine_refused_iff {line : Nat} {raw : String} (hne : ¬ Blank (uncommented raw)) :
    (∃ e, parseLine line raw = .error e) ↔
      words (body raw).1 = [] ∨ ∃ w args, words (body raw).1 = w :: args ∧ Refuses (lower w) args := by
  simp only [parseLine_eq_error_iff, hne, not_false_eq_true, true_and]
  rw [statement_error_iff, refuses_keywordArgs_iff]

/-- **The grammar of a script line.** Every rendering of a statement parses to it; a line gives
nothing exactly when its text before the first `#` is blank; every refusal names the line; and a line
that is not blank is refused exactly when its first word, after one trailing `&` is taken off, is
missing or lowers to no keyword, or the keyword's arguments are of the wrong number or no numeral in
range. -/
theorem line_grammar :
    (∀ (l : Layout) (st : Statement) (b : Bool) (line : Nat), l.Renders st b →
      parseLine line (l.text b) = .ok (some ⟨line, st, b⟩)) ∧
    (∀ line raw, parseLine line raw = .ok none ↔ Blank (uncommented raw)) ∧
    (∀ line raw e, parseLine line raw = .error e → ∃ msg, e = .script line msg) ∧
    (∀ line raw, ¬ Blank (uncommented raw) →
      ((∃ e, parseLine line raw = .error e) ↔
        words (body raw).1 = [] ∨ ∃ w args, words (body raw).1 = w :: args ∧ Refuses (lower w) args)) :=
  ⟨fun _ _ _ line h => parseLine_text h line, fun _ _ => parseLine_eq_none_iff,
    fun _ _ _ => parseLine_error_line, fun _ _ => parseLine_refused_iff⟩

/-- A `set` in capitals, with a signed number, a `&` and a comment, run in the background. -/
theorem line_grammar_set_background :
    Layout.Renders ⟨" ", "SET", [("  ", "brand"), (" ", "alice"), ("\t", "+5")], " ", "", some " note"⟩
        (.set "brand" "alice" 5) true ∧
      parseLine 7 (Layout.text ⟨" ", "SET", [("  ", "brand"), (" ", "alice"), ("\t", "+5")], " ", "",
        some " note"⟩ true) = .ok (some ⟨7, .set "brand" "alice" 5, true⟩) := by
  have hlow : "SET".toLower = "set" := by
    rw [String.ext_iff, toList_toLower]
    simp
  have hrenders : Layout.Renders
      ⟨" ", "SET", [("  ", "brand"), (" ", "alice"), ("\t", "+5")], " ", "", some " note"⟩
      (.set "brand" "alice" 5) true := {
    lead := by simp [Blank, isBlank]
    writes := by
      rw [hlow]
      exact .set ⟨by decide, by simp [isBlank], by simp⟩ ⟨by decide, by simp [isBlank], by simp⟩
        (.inl ⟨by decide, "+", by simp, 0, by decide⟩) (by decide)
    gaps := by simp [Blank, isBlank]
    amp := by simp [Blank, isBlank]
    trail := by simp [Blank]
    last := by simp }
  exact ⟨hrenders, line_grammar.1 _ _ _ 7 hrenders⟩

/-- The keyword is lowered in full Unicode case: the Kelvin sign lowers to `k`, so a first word that
is no keyword in any ASCII case is still read as `stack`. -/
theorem kelvin_sign_names_stack :
    "stac\u212A".toLower ∉ keywords ∧
      parseLine 1 "stac\u212A" = .ok (some ⟨1, .stack none, false⟩) := by
  have hascii : "stac\u212A".toLower = "stac\u212A" := by
    rw [String.ext_iff, toList_toLower]
    simp
  rw [hascii]
  exact ⟨by simp [keywords], by decide⟩

end Script

end ScopedUndo
