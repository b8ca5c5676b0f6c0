import ScopedUndo.Proofs.Registry
/-!
# Registering scope names

Registration checks a whole batch before it takes any name. Each trimmed name in turn must not be
empty, must not be the wildcard's name, and must differ from every name registered or met earlier in
the batch; only once every name passes is the total held to the 28 nameable bits. So a batch is
refused with the fault of its first offending name, checks in that order, or of its size, or it is
taken whole and its names go last, in batch order. A refused batch leaves the registry as it was.

`Registry.Reachable` is every registry that registering batches on the empty one builds. The fact
all the rest follows from is `Registry.Fresh`, what a batch that passes every check satisfies: with
it, each reachable registry keeps its names distinct, trimmed, non-empty and not the wildcard's, at
most 28 of them (`Registry.Sound`). The lookups of a name's bit and of a bit's name then agree with
one table, the i-th name against `1 <<< i`, and the mask is the low `size` bits.
-/

namespace ScopedUndo

namespace Registry

/-! ### The checks on a batch -/

/-- Trimmed names that pass registration's checks after the names `taken`: none is empty or the
wildcard's name, and none repeats a name taken or one before it. -/
structure Fresh (taken names : List String) : Prop where
  ne_empty : ∀ n ∈ names, n ≠ ""
  ne_all : ∀ n ∈ names, n ≠ Scope.allName
  nodup : (taken ++ names).Nodup

theorem fresh_nil {taken : List String} (h : taken.Nodup) : Fresh taken [] :=
  ⟨fun _ hn => (by cases hn), fun _ hn => (by cases hn), by simpa using h⟩

theorem fresh_cons_iff {taken rest : List String} {name : String} :
    Fresh taken (name :: rest) ↔
      name ≠ "" ∧ name ≠ Scope.allName ∧ name ∉ taken ∧ Fresh (taken ++ [name]) rest := by
  have hnodup : (taken ++ name :: rest).Nodup ↔ name ∉ taken ∧ (taken ++ [name] ++ rest).Nodup := by
    rw [List.append_assoc, List.singleton_append]
    constructor
    · intro h
      exact ⟨fun hmem => (List.nodup_middle.mp h |> List.nodup_cons.mp).1
        (List.mem_append_left _ hmem), h⟩
    · exact fun h => h.2
  constructor
  · rintro ⟨hempty, hall, hdup⟩
    obtain ⟨hnew, hdup'⟩ := hnodup.mp hdup
    exact ⟨hempty name List.mem_cons_self, hall name List.mem_cons_self, hnew,
      fun n hn => hempty n (List.mem_cons_of_mem _ hn), fun n hn => hall n (List.mem_cons_of_mem _ hn),
      hdup'⟩
  · rintro ⟨hempty, hall, hnew, hrest⟩
    refine ⟨fun n hn => ?_, fun n hn => ?_, hnodup.mpr ⟨hnew, hrest.nodup⟩⟩
    · rcases List.mem_cons.mp hn with rfl | hn
      · exact hempty
      · exact hrest.ne_empty n hn
    · rcases List.mem_cons.mp hn with rfl | hn
      · exact hall
      · exact hrest.ne_all n hn

theorem batchFault_cons_of_new {taken rest : List String} {name : String} (hempty : name ≠ "")
    (hall : name ≠ Scope.allName) (hnew : name ∉ taken) :
    batchFault taken (name :: rest) = batchFault (taken ++ [name]) rest := by
  rw [batchFault, if_neg (by rwa [String.isEmpty_iff]), if_neg hall, if_neg hnew]

theorem batchFault_append {taken pre : List String} (hpre : Fresh taken pre) (rest : List String) :
    batchFault taken (pre ++ rest) = batchFault (taken ++ pre) rest := by
  induction pre generalizing taken with
  | nil => rw [List.nil_append, List.append_nil]
  | cons name pre ih =>
      obtain ⟨hempty, hall, hnew, hpre'⟩ := fresh_cons_iff.mp hpre
      rw [List.cons_append, batchFault_cons_of_new hempty hall hnew, ih hpre', List.append_assoc,
        List.singleton_append]

/-- **A batch passes exactly when its names are fresh.** -/
theorem batchFault_eq_none_iff {taken names : List String} (htaken : taken.Nodup) :
    batchFault taken names = none ↔ Fresh taken names := by
  induction names generalizing taken with
  | nil => exact ⟨fun _ => fresh_nil htaken, fun _ => rfl⟩
  | cons name rest ih =>
      rw [fresh_cons_iff]
      by_cases hempty : name = ""
      · simp [batchFault, hempty]
      by_cases hall : name = Scope.allName
      · simp [batchFault, hall, Scope.allName]
      by_cases hnew : name ∈ taken
      · simp [batchFault, hempty, hall, hnew]
      have htaken' : (taken ++ [name]).Nodup :=
        htaken.append (List.nodup_singleton name) (by simpa using hnew)
      rw [batchFault_cons_of_new hempty hall hnew, ih htaken']
      exact ⟨fun h => ⟨hempty, hall, hnew, h⟩, fun h => h.2.2.2⟩

/-! ### Registration -/

theorem register_of_batchFault {r : Registry} (hr : r.Coherent) {batch : List String} {f : Fault}
    (h : batchFault r.names (batch.map Text.trim) = some f) : r.register batch = .error f := by
  simp only [register, hr.keys, h]

/-- A batch of fresh names is taken whole if it fits the nameable bits, and refused for its size
otherwise. -/
theorem register_of_fresh {r : Registry} (hr : r.Coherent) {batch : List String}
    (hnodup : r.names.Nodup) (h : Fresh r.names (batch.map Text.trim)) :
    r.register batch =
      if r.size + batch.length > maxScopes then .error (.tooManyScopes (r.size + batch.length) maxScopes)
      else .ok ((batch.map Text.trim).foldl Registry.add r) := by
  simp only [register, hr.keys, (batchFault_eq_none_iff hnodup).mpr h, List.length_map]

/-- The checks of a batch's first offending name: after fresh names `pre`, a name `name` is refused
as empty, then as the wildcard's name, then as taken. -/
theorem register_first_offender {r : Registry} (hr : r.Coherent) {batch pre post : List String}
    {name : String}
    (hsplit : batch.map Text.trim = pre ++ name :: post) (hpre : Fresh r.names pre) :
    (name = "" → r.register batch = .error (.validation "scope name cannot be empty")) ∧
    (name ≠ "" → name = Scope.allName → r.register batch = .error (.reservedScopeName name)) ∧
    (name ≠ "" → name ≠ Scope.allName → name ∈ r.names ++ pre →
      r.register batch = .error (.duplicateScope name)) := by
  have hfault : batchFault r.names (batch.map Text.trim) = batchFault (r.names ++ pre) (name :: post) := by
    rw [hsplit, batchFault_append hpre]
  refine ⟨fun hempty => ?_, fun hempty hall => ?_, fun hempty hall hdup => ?_⟩ <;>
    apply register_of_batchFault hr <;> rw [hfault, batchFault]
  · simp [hempty]
  · rw [if_neg (by rwa [String.isEmpty_iff]), if_pos hall]
  · rw [if_neg (by rwa [String.isEmpty_iff]), if_neg hall, if_pos hdup]

theorem register_ok_or_error (r : Registry) (batch : List String) :
    (∃ f, r.register batch = .error f) ∨
      ∃ r', r.register batch = .ok r' ∧ r'.names = r.names ++ batch.map Text.trim := by
  unfold register
  dsimp only
  split
  · exact .inl ⟨_, rfl⟩
  · split_ifs
    · exact .inl ⟨_, rfl⟩
    · exact .inr ⟨_, rfl, foldl_add_names r _⟩

theorem register_ok_iff {r : Registry} (hr : r.Coherent) {batch : List String} (hnodup : r.names.Nodup) :
    (∃ r', r.register batch = .ok r') ↔
      Fresh r.names (batch.map Text.trim) ∧ r.size + batch.length ≤ maxScopes := by
  constructor
  · rintro ⟨r', hr'⟩
    cases hfault : batchFault r.names (batch.map Text.trim) with
    | some f => rw [register_of_batchFault hr hfault] at hr'; cases hr'
    | none =>
        have hfresh := (batchFault_eq_none_iff hnodup).mp hfault
        rw [register_of_fresh hr hnodup hfresh] at hr'
        split_ifs at hr' with hcount
        exact ⟨hfresh, by omega⟩
  · rintro ⟨hfresh, hcount⟩
    rw [register_of_fresh hr hnodup hfresh, if_neg (by omega)]
    exact ⟨_, rfl⟩

/-- How registering `batch` on `r` ends. It is refused at the first offending name, with the fault
of the first check that name fails; a batch with none is refused for its size or taken whole, its
trimmed names last in batch order; and it is taken exactly when it has no offending name and fits. -/
structure Registers (r : Registry) (batch : List String) : Prop where
  ok_or_error : (∃ f, r.register batch = .error f) ∨
    ∃ r', r.register batch = .ok r' ∧ r'.names = r.names ++ batch.map Text.trim
  first_offender : ∀ pre name post, batch.map Text.trim = pre ++ name :: post → Fresh r.names pre →
    (name = "" → r.register batch = .error (.validation "scope name cannot be empty")) ∧
    (name ≠ "" → name = Scope.allName → r.register batch = .error (.reservedScopeName name)) ∧
    (name ≠ "" → name ≠ Scope.allName → name ∈ r.names ++ pre →
      r.register batch = .error (.duplicateScope name))
  fresh : Fresh r.names (batch.map Text.trim) →
    (r.size + batch.length > maxScopes →
      r.register batch = .error (.tooManyScopes (r.size + batch.length) maxScopes)) ∧
    (r.size + batch.length ≤ maxScopes →
      ∃ r', r.register batch = .ok r' ∧ r'.names = r.names ++ batch.map Text.trim)
  ok_iff : (∃ r', r.register batch = .ok r') ↔
    Fresh r.names (batch.map Text.trim) ∧ r.size + batch.length ≤ maxScopes

theorem registers {r : Registry} (hr : r.Coherent) (hnodup : r.names.Nodup) (batch : List String) :
    r.Registers batch := by
  refine ⟨register_ok_or_error r batch, fun _ _ _ hsplit hpre => register_first_offender hr hsplit hpre,
    fun hfresh => ?_, register_ok_iff hr hnodup⟩
  rw [register_of_fresh hr hnodup hfresh]
  exact ⟨fun hover => if_pos hover, fun hfit => ⟨_, if_neg (by omega), foldl_add_names r _⟩⟩

/-! ### The bits of names -/

/-- The bit of a name is that of its first place, so with no name twice, the i-th name has the i-th
bit and the other texts none. -/
theorem flagsFor?_eq_some_iff {r : Registry} (hr : r.Coherent) (hnodup : r.names.Nodup)
    {name : String} {f : BitVec 32} :
    r.flagsFor? name = some f ↔
      ∃ i, ∃ h : i < r.names.length, r.names[i] = name ∧ f = 1#32 <<< i := by
  simp only [hr.flagsFor?_eq, Option.map_eq_some_iff, List.idxOf?_eq_some_iff]
  constructor
  · rintro ⟨i, ⟨hi, hget, -⟩, rfl⟩
    exact ⟨i, hi, hget, rfl⟩
  · rintro ⟨i, hi, hget, rfl⟩
    refine ⟨i, ⟨hi, hget, fun j hj hget' => ?_⟩, rfl⟩
    -- an earlier place with the same name would be the same place
    have hji : j = i := (hnodup.getElem_inj_iff).mp (hget'.trans hget.symm)
    omega

/-- The name of a bit is the name at the place that bit stands for: places below 32 have different
bits, so the first place with the bit is the only one. -/
theorem nameFor?_eq_some_iff {r : Registry} (hr : r.Coherent) (hsize : r.size ≤ 32)
    {f : BitVec 32} {name : String} :
    r.nameFor? f = some name ↔
      ∃ i, ∃ h : i < r.names.length, r.names[i] = name ∧ f = 1#32 <<< i := by
  have hlen : r.names.length ≤ 32 := hsize
  rw [hr.nameFor?_eq, Option.map_eq_some_iff]
  constructor
  · rintro ⟨e, hfind, rfl⟩
    obtain ⟨i, hi, rfl, hbit, -⟩ := find?_zipIdx_eq_some_iff.mp hfind
    exact ⟨i, hi, rfl, by simpa using hbit⟩
  · rintro ⟨i, hi, rfl, rfl⟩
    refine ⟨(r.names[i], i), find?_zipIdx_eq_some_iff.mpr ⟨i, hi, rfl, by simp, fun j hj => ?_⟩, rfl⟩
    simp only [beq_eq_false_iff_ne, ne_eq]
    exact fun hbits => absurd (bit_inj (by omega) (by omega) hbits).symm (by omega)

theorem Coherent.mask_toNat {r : Registry} (hr : r.Coherent) (hsize : r.size ≤ maxScopes) :
    r.mask.toNat = 2 ^ r.size - 1 := by
  have hpow : 2 ^ r.size ≤ 2 ^ 28 := Nat.pow_le_pow_right (by norm_num) hsize
  rw [hr.mask_eq, BitVec.toNat_ofNat, Nat.mod_eq_of_lt (by omega)]

/-! ### Reachable registries -/

/-- The registries that registering batches builds from the empty one. -/
inductive Reachable : Registry → Prop
  | empty : Reachable {}
  | register {r r' : Registry} {batch : List String} :
      Reachable r → r.register batch = .ok r' → Reachable r'

/-- What every reachable registry keeps: its names are distinct, non-empty, trimmed and not the
wildcard's, at most 28 of them; both maps pair the i-th name with the bit `1 <<< i` in bit order and
the mask is the low `size` bits, so looking up the i-th name gives `1 <<< i` and looking up
`1 <<< i` gives the i-th name, both lookups giving nothing else; and the mask is `2 ^ size - 1`. -/
structure Sound (r : Registry) : Prop where
  nodup : r.names.Nodup
  well_named : ∀ n ∈ r.names, n ≠ "" ∧ Text.trim n = n ∧ n ≠ Scope.allName
  size_le : r.size ≤ maxScopes
  coherent : r.Coherent
  flagsFor?_eq_some : ∀ name f, r.flagsFor? name = some f ↔
    ∃ i, ∃ h : i < r.names.length, r.names[i] = name ∧ f = 1#32 <<< i
  nameFor?_eq_some : ∀ f name, r.nameFor? f = some name ↔
    ∃ i, ∃ h : i < r.names.length, r.names[i] = name ∧ f = 1#32 <<< i
  mask_toNat : r.mask.toNat = 2 ^ r.size - 1

theorem Valid.sound {r : Registry} (h : r.Valid) (hne : ∀ n ∈ r.names, n ≠ "") : r.Sound := by
  have h32 : r.size ≤ 32 := by have := h.size_le; unfold maxScopes at this; omega
  exact ⟨h.nodup, fun n hn => ⟨hne n hn, h.trimmed n hn, h.ne_all n hn⟩, h.size_le, h.coherent,
    fun _ _ => flagsFor?_eq_some_iff h.coherent h.nodup, fun _ _ => nameFor?_eq_some_iff h.coherent h32,
    h.coherent.mask_toNat h.size_le⟩

theorem ne_empty_register {r r' : Registry} {batch : List String} (hr : r.Coherent)
    (hnodup : r.names.Nodup) (hne : ∀ n ∈ r.names, n ≠ "") (hreg : r.register batch = .ok r') :
    ∀ n ∈ r'.names, n ≠ "" := by
  obtain ⟨hfresh, -⟩ := (register_ok_iff hr hnodup).mp ⟨r', hreg⟩
  rw [register_of_fresh hr hnodup hfresh] at hreg
  split_ifs at hreg
  cases hreg
  intro n hn
  rw [foldl_add_names] at hn
  rcases List.mem_append.mp hn with hn | hn
  · exact hne n hn
  · exact hfresh.ne_empty n hn

theorem Reachable.valid {r : Registry} (h : r.Reachable) : r.Valid ∧ ∀ n ∈ r.names, n ≠ "" := by
  induction h with
  | empty => exact ⟨Valid.empty, fun _ hn => by cases hn⟩
  | register _ hreg ih =>
      exact ⟨ih.1.register hreg, ne_empty_register ih.1.coherent ih.1.nodup ih.2 hreg⟩

theorem Reachable.sound {r : Registry} (h : r.Reachable) : r.Sound :=
  h.valid.1.sound h.valid.2

theorem Reachable.ofNames {batch : List String} {r : Registry} (h : ofNames batch = .ok r) :
    r.Reachable :=
  .register .empty h

/-- **Registration and the registry's invariant.** On every registry that registering batches builds
from the empty one, registering a batch is refused at its first offending name with the fault of the
first check it fails, else refused for its size, else takes the whole batch; and the registry is
sound: distinct, non-empty, trimmed names other than the wildcard's, at most 28 of them, the i-th
with exactly the bit `1 <<< i`, and a mask of `2 ^ size - 1`. -/
theorem registration_law {r : Registry} (hr : r.Reachable) (batch : List String) :
    r.Registers batch ∧ r.Sound :=
  ⟨registers hr.sound.coherent hr.sound.nodup batch, hr.sound⟩

/-- The law on the registry of `brand` and `car`, whose maps pair them with the bits 1 and 2 and
whose mask is 3, registering `car` again. -/
theorem registration_law_brand_car :
    ofNames ["brand", "car"] = .ok
      { names := ["brand", "car"], flagsByName := [("brand", 1), ("car", 2)],
        namesByFlag := [(1, "brand"), (2, "car")], mask := 3 } ∧
    Registers
      { names := ["brand", "car"], flagsByName := [("brand", 1), ("car", 2)],
        namesByFlag := [(1, "brand"), (2, "car")], mask := 3 } ["car"] ∧
    Sound
      { names := ["brand", "car"], flagsByName := [("brand", 1), ("car", 2)],
        namesByFlag := [(1, "brand"), (2, "car")], mask := 3 } := by
  have hbuilt : ofNames ["brand", "car"] = .ok
      { names := ["brand", "car"], flagsByName := [("brand", 1), ("car", 2)],
        namesByFlag := [(1, "brand"), (2, "car")], mask := 3 } := by
    decide
  exact ⟨hbuilt, registration_law (Reachable.ofNames hbuilt) ["car"]⟩

end Registry

end ScopedUndo
