import ScopedUndo.Proofs.Registration
/-!
# Resolving scope names

A list of names denotes a scope. A name that trims to the wildcard's name makes the wildcard,
whatever else the list holds; otherwise every trimmed name must be registered, the first that is not
is refused, and the scope is the set of the bits of the names. A registry accepts the wildcard and
every set within its mask, and names a scope by the names of its bits in registration order.

On a sound registry, naming and resolving undo each other: a scope the registry accepts is the scope
of its own names, and the names of the scope of registered names are those names, each once, in
registration order. Both rest on one reading of the bits of a set, position by position
(`scopeOfNames_known` and `namesFor_set`), and on the mask holding exactly the registered positions.
-/

namespace ScopedUndo

namespace Registry

/-! ### Bits of single places -/

theorem and_bit_ne_zero (b : BitVec 32) {i : Nat} (hi : i < 32) :
    (b &&& 1#32 <<< i != 0) = b.getLsbD i := by
  rw [← BitVec.twoPow_eq, BitVec.and_twoPow]
  cases hb : b.getLsbD i
  · simp
  · simpa [BitVec.twoPow_eq] using bit_ne_zero hi

/-! ### Lists indexed by place -/

/-- Keeping the places whose index passes a test keeps the elements that pass it, when the test on a
place only reads its element. -/
theorem map_fst_filter_zipIdx {α : Type} (l : List α) (k : Nat) (q : α × Nat → Bool) (p : α → Bool)
    (h : ∀ i (hi : i < l.length), q (l[i], k + i) = p l[i]) :
    ((l.zipIdx k).filter q).map Prod.fst = l.filter p := by
  induction l generalizing k with
  | nil => rfl
  | cons a l ih =>
      have hhead : q (a, k) = p a := h 0 (Nat.zero_lt_succ _)
      have htail : ∀ i (hi : i < l.length), q (l[i], k + 1 + i) = p l[i] := by
        intro i hi
        have := h (i + 1) (by simpa using hi)
        rwa [List.getElem_cons_succ, show k + (i + 1) = k + 1 + i by omega] at this
      rw [List.zipIdx_cons, List.filter_cons, List.filter_cons, hhead]
      split <;> simp [ih (k + 1) htail]

/-! ### Resolving names -/

/-- One step of resolving names: the bit of a registered trimmed name joins the others, and an
unregistered one is refused. -/
def addFlag (r : Registry) (acc : BitVec 32) (n : String) : Except Fault (BitVec 32) :=
  match r.flagsFor? (Text.trim n) with
  | some flag => .ok (acc ||| flag)
  | none => .error (.unknownScope (Text.trim n))

theorem scopeOfNames_eq (r : Registry) (ns : List String) :
    r.scopeOfNames ns =
      if ns.any (fun n => Text.trim n = Scope.allName) then .ok .all
      else (ns.foldlM r.addFlag 0).map Scope.set :=
  rfl

theorem scopeOfNames_all (r : Registry) {ns : List String} (h : ∃ n ∈ ns, Text.trim n = Scope.allName) :
    r.scopeOfNames ns = .ok .all := by
  rw [scopeOfNames_eq, if_pos (by simpa using h)]

theorem flagsFor?_eq_none_iff {r : Registry} (hr : r.Coherent) {name : String} :
    r.flagsFor? name = none ↔ name ∉ r.names := by
  simp [hr.flagsFor?_eq, List.idxOf?_eq_none_iff]

section Sound

variable {r : Registry} (hr : r.Sound)
include hr

theorem not_any_all {ns : List String} (hns : ∀ n ∈ ns, Text.trim n ∈ r.names) :
    ¬ ns.any (fun n => Text.trim n = Scope.allName) := by
  simp only [List.any_eq_true, decide_eq_true_eq, not_exists, not_and]
  exact fun n hn hall => (hr.well_named _ (hns n hn)).2.2 hall

theorem foldlM_addFlag {ns : List String} (hns : ∀ n ∈ ns, Text.trim n ∈ r.names) (acc : BitVec 32) :
    ∃ b, ns.foldlM r.addFlag acc = .ok b ∧ ∀ j, b.getLsbD j = true ↔
      acc.getLsbD j = true ∨ ∃ n ∈ ns, ∃ h : j < r.names.length, r.names[j] = Text.trim n := by
  induction ns generalizing acc with
  | nil => exact ⟨acc, rfl, by simp⟩
  | cons n ns ih =>
      obtain ⟨i, hi, hget⟩ := List.mem_iff_getElem.mp (hns n List.mem_cons_self)
      have hflag : r.flagsFor? (Text.trim n) = some (1#32 <<< i) :=
        (hr.flagsFor?_eq_some _ _).mpr ⟨i, hi, hget, rfl⟩
      obtain ⟨b, hb, hbits⟩ := ih (fun m hm => hns m (List.mem_cons_of_mem _ hm)) (acc ||| 1#32 <<< i)
      refine ⟨b, by rw [List.foldlM_cons, addFlag, hflag]; exact hb, fun j => ?_⟩
      rw [hbits, BitVec.getLsbD_or, Bool.or_eq_true]
      have hone : (1#32 <<< i).getLsbD j = true ↔ ∃ h : j < r.names.length, r.names[j] = Text.trim n := by
        rw [← BitVec.twoPow, BitVec.getLsbD_twoPow]
        constructor
        · intro hbit
          simp only [Bool.and_eq_true, decide_eq_true_eq] at hbit
          obtain ⟨-, rfl⟩ := hbit
          exact ⟨hi, hget⟩
        · rintro ⟨hj, hgetj⟩
          have hji : j = i := (hr.nodup.getElem_inj_iff).mp (hgetj.trans hget.symm)
          have hlen : r.names.length ≤ maxScopes := hr.size_le
          unfold maxScopes at hlen
          simp only [hji, Bool.and_eq_true, decide_eq_true_eq, and_true]
          omega
      simp only [hone, List.mem_cons, exists_eq_or_imp, or_assoc]

/-- **Registered names resolve to the set of their bits**: position `j` is set exactly when some name
trims to the `j`-th registered name. -/
theorem scopeOfNames_known {ns : List String} (hns : ∀ n ∈ ns, Text.trim n ∈ r.names) :
    ∃ b, r.scopeOfNames ns = .ok (.set b) ∧ ∀ j, b.getLsbD j = true ↔
      ∃ n ∈ ns, ∃ h : j < r.names.length, r.names[j] = Text.trim n := by
  obtain ⟨b, hb, hbits⟩ := foldlM_addFlag hr hns 0
  refine ⟨b, ?_, fun j => by simpa using hbits j⟩
  rw [scopeOfNames_eq, if_neg (not_any_all hr hns), hb]
  rfl

/-- **The first unknown name is refused**, when no name is the wildcard's. -/
theorem scopeOfNames_unknown {pre post : List String} {n : String}
    (hall : ∀ m ∈ pre ++ n :: post, Text.trim m ≠ Scope.allName)
    (hpre : ∀ m ∈ pre, Text.trim m ∈ r.names) (hn : Text.trim n ∉ r.names) :
    r.scopeOfNames (pre ++ n :: post) = .error (.unknownScope (Text.trim n)) := by
  have hany : ¬ (pre ++ n :: post).any (fun m => Text.trim m = Scope.allName) := by
    intro hany
    obtain ⟨m, hm, hmall⟩ := List.any_eq_true.mp hany
    exact hall m hm (of_decide_eq_true hmall)
  obtain ⟨b, hb, -⟩ := foldlM_addFlag hr hpre 0
  have hstep : r.addFlag b n = .error (.unknownScope (Text.trim n)) := by
    rw [addFlag, (flagsFor?_eq_none_iff hr.coherent).mpr hn]
  rw [scopeOfNames_eq, if_neg hany, List.foldlM_append, hb]
  show Except.map Scope.set (List.foldlM r.addFlag b (n :: post)) = _
  rw [List.foldlM_cons, hstep]
  rfl

theorem namesFor_set (b : BitVec 32) :
    r.namesFor (.set b) = r.names.filter fun n => b.getLsbD (r.names.idxOf n) := by
  have hlen : r.names.length ≤ maxScopes := hr.size_le
  unfold maxScopes at hlen
  rw [hr.coherent.namesFor_set]
  apply map_fst_filter_zipIdx
  intro i hi
  dsimp only
  rw [Nat.zero_add, hr.nodup.idxOf_getElem i hi, and_bit_ne_zero b (by omega)]

end Sound

theorem validate_eq_ok_iff (r : Registry) (s : Scope) :
    r.validate s = .ok () ↔
      s = .all ∨ ∃ b, s = .set b ∧ ∀ j, b.getLsbD j = true → r.mask.getLsbD j = true := by
  cases s with
  | all => simp [validate]
  | set b =>
      -- no stray bit is the same as every bit of `b` being one of the mask's
      have hstray : b &&& ~~~r.mask = 0 ↔ ∀ j, b.getLsbD j = true → r.mask.getLsbD j = true := by
        constructor
        · intro h j hj
          have hbit := congrArg (fun x => x.getLsbD j) h
          have hlt : j < 32 := by
            by_contra hge
            rw [BitVec.getLsbD_of_ge b j (by omega)] at hj
            cases hj
          simpa [hj, hlt] using hbit
        · intro h
          apply BitVec.eq_of_getLsbD_eq
          intro j hj
          cases hb : b.getLsbD j
          · simp [hb]
          · simp [hb, h j hb]
      have hvalid : r.validate (.set b) = .ok () ↔ b &&& ~~~r.mask = 0 := by
        simp only [validate]
        split_ifs with h <;> simpa using h
      rw [hvalid, hstray]
      simp

/-! ### Naming and resolving undo each other -/

section RoundTrip

variable {r : Registry} (hr : r.Sound)
include hr

/-- **A scope the registry accepts is the scope of its own names.** The wildcard is named by the
wildcard's name; a set within the mask by the names of its places, which resolve to their bits. -/
theorem scopeOfNames_namesFor {s : Scope} (hs : r.validate s = .ok ()) :
    r.scopeOfNames (r.namesFor s) = .ok s := by
  cases s with
  | all => exact scopeOfNames_all r ⟨Scope.allName, List.mem_singleton_self _, by decide⟩
  | set b =>
      have hwithin : ∀ j, b.getLsbD j = true → j < r.names.length := by
        rcases (validate_eq_ok_iff r _).mp hs with h | ⟨b', hb', h⟩
        · cases h
        · cases hb'
          intro j hj
          have hmask := h j hj
          have hsize : r.size ≤ 32 := le_trans hr.size_le (by decide)
          rw [hr.coherent.mask_getLsbD hsize] at hmask
          exact of_decide_eq_true hmask
      have htrim : ∀ n ∈ r.names, Text.trim n = n := fun n hn => (hr.well_named n hn).2.1
      have hnames : ∀ n ∈ r.namesFor (.set b), Text.trim n ∈ r.names := by
        intro n hn
        rw [namesFor_set hr] at hn
        have hmem := (List.mem_filter.mp hn).1
        rwa [htrim n hmem]
      obtain ⟨b', hb', hbits⟩ := scopeOfNames_known hr hnames
      rw [hb']
      -- the places set in `b'` are the places of the names of `b`, which are those of `b`
      have hsame : b' = b := by
        apply BitVec.eq_of_getLsbD_eq
        intro j _
        rw [Bool.eq_iff_iff, hbits, namesFor_set hr]
        constructor
        · rintro ⟨n, hn, hj, hget⟩
          obtain ⟨hmem, hbit⟩ := List.mem_filter.mp hn
          rw [htrim n hmem] at hget
          rwa [← hget, hr.nodup.idxOf_getElem] at hbit
        · intro hbit
          have hj := hwithin j hbit
          refine ⟨r.names[j], List.mem_filter.mpr ⟨List.getElem_mem hj, ?_⟩, hj, ?_⟩
          · rwa [hr.nodup.idxOf_getElem]
          · rw [htrim _ (List.getElem_mem hj)]
      rw [hsame]

/-- **The names of the scope of registered names are those names**, each once, in registration
order. -/
theorem namesFor_scopeOfNames {ns : List String} (hns : ∀ n ∈ ns, n ∈ r.names) :
    (r.scopeOfNames ns).map r.namesFor = .ok (r.names.filter (· ∈ ns)) := by
  have htrim : ∀ n ∈ ns, Text.trim n = n := fun n hn => (hr.well_named n (hns n hn)).2.1
  obtain ⟨b, hb, hbits⟩ := scopeOfNames_known hr (fun n hn => (htrim n hn).symm ▸ hns n hn)
  rw [hb]
  show Except.ok (r.namesFor (.set b)) = _
  rw [namesFor_set hr]
  congr 1
  apply List.filter_congr
  intro n hn
  obtain ⟨i, hi, rfl⟩ := List.mem_iff_getElem.mp hn
  rw [hr.nodup.idxOf_getElem, Bool.eq_iff_iff, hbits, decide_eq_true_iff]
  constructor
  · rintro ⟨m, hm, _, hget⟩
    rw [htrim m hm] at hget
    rwa [hget]
  · intro hmem
    exact ⟨_, hmem, hi, (htrim _ hmem).symm⟩

end RoundTrip

/-- How a registry resolves names and names scopes. A name that trims to the wildcard's name makes
the wildcard, even among unknown names; otherwise the first name whose trimmed form is unregistered is
refused, and registered names give the set of their bits. The wildcard, and sets within the mask, are
accepted. Naming a scope the registry accepts and resolving the names gives it back; resolving
registered names and naming the scope lists them once each, in registration order. -/
structure Resolves (r : Registry) : Prop where
  all_wins : ∀ ns, (∃ n ∈ ns, Text.trim n = Scope.allName) → r.scopeOfNames ns = .ok .all
  first_unknown : ∀ pre n post, (∀ m ∈ pre ++ n :: post, Text.trim m ≠ Scope.allName) →
    (∀ m ∈ pre, Text.trim m ∈ r.names) → Text.trim n ∉ r.names →
    r.scopeOfNames (pre ++ n :: post) = .error (.unknownScope (Text.trim n))
  known : ∀ ns, (∀ n ∈ ns, Text.trim n ∈ r.names) → ∃ b, r.scopeOfNames ns = .ok (.set b) ∧
    ∀ j, b.getLsbD j = true ↔ ∃ n ∈ ns, ∃ h : j < r.names.length, r.names[j] = Text.trim n
  validate_iff : ∀ s, r.validate s = .ok () ↔
    s = .all ∨ ∃ b, s = .set b ∧ ∀ j, b.getLsbD j = true → r.mask.getLsbD j = true
  of_namesFor : ∀ s, r.validate s = .ok () → r.scopeOfNames (r.namesFor s) = .ok s
  namesFor_of : ∀ ns, (∀ n ∈ ns, n ∈ r.names) →
    (r.scopeOfNames ns).map r.namesFor = .ok (r.names.filter (· ∈ ns))

/-- **Resolution and its round trip** on every registry that registration builds. -/
theorem scope_names_round_trip {r : Registry} (hr : r.Reachable) : r.Resolves :=
  ⟨fun _ => scopeOfNames_all r, fun _ _ _ hall hpre hn => scopeOfNames_unknown hr.sound hall hpre hn,
    fun _ => scopeOfNames_known hr.sound, validate_eq_ok_iff r,
    fun _ => scopeOfNames_namesFor hr.sound, fun _ => namesFor_scopeOfNames hr.sound⟩

/-- Resolution on the registry of `brand` and `car`. -/
theorem scope_names_round_trip_brand_car :
    ofNames ["brand", "car"] = .ok
      { names := ["brand", "car"], flagsByName := [("brand", 1), ("car", 2)],
        namesByFlag := [(1, "brand"), (2, "car")], mask := 3 } ∧
    Resolves
      { names := ["brand", "car"], flagsByName := [("brand", 1), ("car", 2)],
        namesByFlag := [(1, "brand"), (2, "car")], mask := 3 } := by
  have hbuilt : ofNames ["brand", "car"] = .ok
      { names := ["brand", "car"], flagsByName := [("brand", 1), ("car", 2)],
        namesByFlag := [(1, "brand"), (2, "car")], mask := 3 } := by
    decide
  exact ⟨hbuilt, scope_names_round_trip (Reachable.ofNames hbuilt)⟩

end Registry

end ScopedUndo
