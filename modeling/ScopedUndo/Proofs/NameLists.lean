import ScopedUndo.Proofs.Words
import ScopedUndo.Cli.Run
/-!
# Lists of names

A list of scope names is read from a text by cutting it at every comma and every blank (a
character with the Unicode `White_Space` property) and dropping the empty pieces. A `Listing`
lays a text out as a run of separators followed by names, each with the run of separators after
it; it is well cut (`Listing.Cut`) when the names are non-empty and hold no separator, and two
names are kept apart by at least one separator. Every well-cut listing reads back as its names,
so a registry built from the text, a scope resolved from the text, and the command line's
`--scopes` override all see exactly those names. The override cuts the text with its own copy of
the rule, which is the same rule.
-/

namespace ScopedUndo

namespace Registry

def separates (c : Char) : Bool :=
  c == ',' || Text.isBlank c

theorem splitNames_eq (text : String) : splitNames text = Text.tokens separates text :=
  rfl

/-- How a text lists names: the separators before the first name, then each name with the
separators after it. -/
structure Listing where
  lead : String
  entries : List (String × String)

namespace Listing

def text (l : Listing) : String :=
  l.lead ++ String.join (l.entries.map fun e => e.1 ++ e.2)

def names (l : Listing) : List String :=
  l.entries.map Prod.fst

/-- A listing is well cut when its names are non-empty and hold no separator, everything around
them is separators, and the separators between two names are not empty. Those before the first
name and after the last may be. -/
structure Cut (l : Listing) : Prop where
  lead : ∀ c ∈ l.lead.toList, separates c = true
  names : ∀ e ∈ l.entries, e.1 ≠ "" ∧ ∀ c ∈ e.1.toList, separates c = false
  gaps : ∀ e ∈ l.entries, ∀ c ∈ e.2.toList, separates c = true
  between : ∀ e ∈ l.entries.dropLast, e.2 ≠ ""

theorem toList_text (l : Listing) :
    l.text.toList = l.lead.toList ++ l.entries.flatMap fun e => e.1.toList ++ e.2.toList := by
  simp [text, String.toList_join, List.flatMap, Function.comp_def]

/-- The runs of names written each with the separators after it are the names; only the last
name may go without separators after it. -/
theorem runs_entries {es : List (String × String)}
    (hnames : ∀ e ∈ es, e.1 ≠ "" ∧ ∀ c ∈ e.1.toList, separates c = false)
    (hgaps : ∀ e ∈ es, ∀ c ∈ e.2.toList, separates c = true)
    (hbetween : ∀ e ∈ es.dropLast, e.2 ≠ "") :
    Text.runs separates (es.flatMap fun e => e.1.toList ++ e.2.toList) = es.map fun e => e.1.toList := by
  induction es with
  | nil => rfl
  | cons e es ih =>
      obtain ⟨hne, hword⟩ := hnames e List.mem_cons_self
      have hgap := hgaps e List.mem_cons_self
      set rest := es.flatMap fun e => e.1.toList ++ e.2.toList with hrest
      -- what follows the name starts with a separator, or is nothing when the name is the last
      have hfollow : ∀ c ∈ (e.2.toList ++ rest).head?, separates c = true := by
        intro c hc
        rcases es with _ | ⟨e', es'⟩
        · simp only [hrest, List.flatMap_nil, List.append_nil] at hc
          exact hgap c (List.mem_of_mem_head? hc)
        · have hsep : e.2 ≠ "" := hbetween e (by simp)
          rw [List.head?_append_of_ne_nil _ (by simpa using hsep)] at hc
          exact hgap c (List.mem_of_mem_head? hc)
      have htail : ∀ f ∈ es.dropLast, f.2 ≠ "" := by
        intro f hf
        rcases es with _ | ⟨e', es'⟩
        · cases hf
        · exact hbetween f (List.mem_cons_of_mem _ hf)
      rw [List.flatMap_cons, List.append_assoc,
        Text.runs_word (by simpa using hne) hword hfollow, Text.runs_gap hgap,
        ih (fun f hf => hnames f (List.mem_cons_of_mem _ hf))
          (fun f hf => hgaps f (List.mem_cons_of_mem _ hf)) htail, List.map_cons]

/-- **A well-cut listing reads back as its names.** -/
theorem splitNames_text {l : Listing} (h : l.Cut) : splitNames l.text = l.names := by
  rw [splitNames_eq, Text.tokens_eq, toList_text, Text.runs_gap h.lead,
    runs_entries h.names h.gaps h.between, names, List.map_map]
  exact List.map_congr_left fun e _ => String.ofList_toList

end Listing

end Registry

namespace Cli

theorem scopeWords_eq_splitNames (text : String) : scopeWords text = Registry.splitNames text :=
  rfl

theorem engineConfig_scopes (a : Args) (files : Files) {text : String} (h : a.scopes = some text) :
    a.engineConfig files =
      (Args.engineConfig { a with scopes := none } files).map fun c =>
        { c with scopes := scopeWords text } := by
  obtain ⟨config, scopes, undoLimit, script, logLevel, verbose, quiet⟩ := a
  subst h
  simp only [Args.engineConfig]
  cases config with
  | none => cases undoLimit <;> rfl
  | some path =>
      cases hload : loadConfig files path with
      | error f => simp [hload, Except.mapError, bind, Except.bind, Except.map]
      | ok c =>
          cases undoLimit <;>
            simp [hload, Except.mapError, bind, Except.bind, pure, Except.pure, Except.map]

end Cli

namespace Registry

/-- **Name lists round trip.** A text that writes names between commas and blanks, with at least
one between two names and any before the first and after the last, is cut into exactly those
names; so a registry built from the text is the one built from the names, a scope resolved from
the text is the one resolved from the names, and the command line's `--scopes` override sets the
configuration's scope names to them and changes nothing else. -/
theorem name_list_round_trip {l : Listing} (h : l.Cut) :
    splitNames l.text = l.names ∧ ofText l.text = ofNames l.names ∧
    (∀ r : Registry, r.scopeOfText l.text = r.scopeOfNames l.names) ∧
    ∀ (a : Cli.Args) (files : Cli.Files), a.scopes = some l.text →
      a.engineConfig files =
        (Cli.Args.engineConfig { a with scopes := none } files).map fun c =>
          { c with scopes := l.names } := by
  have hsplit := Listing.splitNames_text h
  refine ⟨hsplit, by rw [ofText, hsplit], fun r => by rw [scopeOfText, hsplit], ?_⟩
  intro a files hscopes
  rw [Cli.engineConfig_scopes a files hscopes, Cli.scopeWords_eq_splitNames, hsplit]

/-- The names `brand`, `car` and `owner`, cut by a comma and a blank and by a tab. -/
theorem name_list_round_trip_brand_car_owner :
    Listing.Cut ⟨"", [("brand", ", "), ("car", "\t"), ("owner", "")]⟩ ∧
      splitNames "brand, car\towner" = ["brand", "car", "owner"] ∧
      ofText "brand, car\towner" = ofNames ["brand", "car", "owner"] := by
  have hcut : Listing.Cut ⟨"", [("brand", ", "), ("car", "\t"), ("owner", "")]⟩ :=
    ⟨by simp, by simp [separates, Text.isBlank], by simp [separates, Text.isBlank], by simp⟩
  have htext : Listing.text ⟨"", [("brand", ", "), ("car", "\t"), ("owner", "")]⟩ = "brand, car\towner" :=
    rfl
  obtain ⟨hsplit, hofText, -, -⟩ := name_list_round_trip hcut
  rw [htext] at hsplit hofText
  exact ⟨hcut, hsplit, hofText⟩

end Registry

end ScopedUndo
