import ScopedUndo.Config
import Mathlib
/-!
# Registered scopes and configured routes

A registry hands the i-th registered name the bit `1 <<< i`, and registration keeps its names
trimmed, non-empty, distinct from the wildcard's name and from each other, and within the 28
nameable bits. `Registry.Valid` collects these facts; every registry a configuration builds has
them. From them, a name that a valid configuration routes denotes a single bit that the registry
accepts, is not the wildcard and is not empty, and two routed names denote different bits. The
engine's route invariant starts from `Config.route_scopes`.

Trimming twice trims once, `Text.trim_trim`, is what makes a registered name denote its own bit:
the scope of a name is looked up after trimming it again.
-/

namespace ScopedUndo

namespace Text

private theorem dropWhile_reverse_dropWhile (p : Char → Bool) (l : List Char) :
    (((l.dropWhile p).reverse.dropWhile p).reverse).dropWhile p =
      ((l.dropWhile p).reverse.dropWhile p).reverse := by
  rw [List.dropWhile_eq_self_iff]
  intro hlen
  -- the text is a prefix of the front-trimmed one, so it starts with the same character
  have hinit : ((l.dropWhile p).reverse.dropWhile p).reverse <+: l.dropWhile p := by
    have hsuffix := List.reverse_prefix.mpr (List.dropWhile_suffix p (l := (l.dropWhile p).reverse))
    rwa [List.reverse_reverse] at hsuffix
  have hne : ((l.dropWhile p).reverse.dropWhile p).reverse ≠ [] := List.ne_nil_of_length_pos hlen
  have hhead := hinit.head hne
  have hstart := List.head_dropWhile_not p (l := l) (hinit.ne_nil hne)
  rw [← List.head_eq_getElem hne, hhead]
  simp [hstart]

theorem trim_trim (s : String) : trim (trim s) = trim s := by
  simp only [trim, trimStart, trimEnd, String.toList_ofList]
  -- the once-trimmed text starts and ends with no blank, so a second pass drops nothing
  have hfront := dropWhile_reverse_dropWhile isBlank s.toList
  set n := ((s.toList.dropWhile isBlank).reverse.dropWhile isBlank).reverse with hn
  rw [hfront, hn, List.reverse_reverse, List.dropWhile_idempotent]

end Text

namespace Registry

/-! ### The maps and the mask -/

theorem toNat_bit {i : Nat} (hi : i < 32) : (1#32 <<< i).toNat = 2 ^ i := by
  rw [BitVec.toNat_shiftLeft, BitVec.toNat_ofNat, Nat.one_mod_two_pow (Nat.succ_pos 31), Nat.one_shiftLeft]
  exact Nat.mod_eq_of_lt (Nat.pow_lt_pow_right Nat.one_lt_two hi)

theorem getLsbD_low_bits {n : Nat} (hn : n ≤ 32) (j : Nat) :
    (BitVec.ofNat 32 (2 ^ n - 1)).getLsbD j = decide (j < n) := by
  rw [BitVec.getLsbD_ofNat, Nat.testBit_two_pow_sub_one]
  by_cases hj : j < n
  · simp [hj, show j < 32 by omega]
  · simp [hj]

theorem low_bits_succ {n : Nat} (hn : n < 32) :
    BitVec.ofNat 32 (2 ^ n - 1) ||| 1#32 <<< n = BitVec.ofNat 32 (2 ^ (n + 1) - 1) := by
  apply BitVec.eq_of_getLsbD_eq
  intro j hj
  rw [BitVec.getLsbD_or, getLsbD_low_bits (by omega), getLsbD_low_bits (by omega),
    BitVec.getLsbD_shiftLeft, Bool.eq_iff_iff]
  simp only [Bool.or_eq_true, Bool.and_eq_true, decide_eq_true_eq, Bool.not_eq_true',
    decide_eq_false_iff_not, BitVec.getLsbD_one]
  omega

/-- The maps and the mask of a registry agree with its names: both maps pair the i-th name with
the bit `1 <<< i`, in bit order, and the mask is the low `size` bits. -/
structure Coherent (r : Registry) : Prop where
  flagsByName_eq : r.flagsByName = r.names.zipIdx.map fun e => (e.1, 1#32 <<< e.2)
  namesByFlag_eq : r.namesByFlag = r.names.zipIdx.map fun e => (1#32 <<< e.2, e.1)
  mask_eq : r.mask = BitVec.ofNat 32 (2 ^ r.size - 1)

theorem Coherent.empty : ({} : Registry).Coherent :=
  ⟨rfl, rfl, rfl⟩

theorem setFlag_of_not_mem {name : String} {flag : BitVec 32} {l : List (String × BitVec 32)}
    (h : name ∉ l.map Prod.fst) : setFlag name flag l = l ++ [(name, flag)] := by
  induction l with
  | nil => rfl
  | cons e l ih =>
      simp only [List.map_cons, List.mem_cons, not_or] at h
      rw [setFlag, if_neg (Ne.symm h.1), ih h.2, List.cons_append]

theorem setName_of_lt {flag : BitVec 32} {name : String} {l : List (BitVec 32 × String)}
    (h : ∀ e ∈ l, e.1.toNat < flag.toNat) : setName flag name l = l ++ [(flag, name)] := by
  induction l with
  | nil => rfl
  | cons e l ih =>
      have hlt := h e List.mem_cons_self
      have hne : flag ≠ e.1 := fun heq => by rw [heq] at hlt; omega
      rw [setName, if_neg hne, if_neg (by omega), ih (fun f hf => h f (List.mem_cons_of_mem _ hf)),
        List.cons_append]

@[simp] theorem add_names (r : Registry) (name : String) : (r.add name).names = r.names ++ [name] :=
  rfl

theorem foldl_add_names (r : Registry) (names : List String) :
    (names.foldl add r).names = r.names ++ names := by
  induction names generalizing r with
  | nil => simp
  | cons name names ih => rw [List.foldl_cons, ih, add_names, List.append_assoc, List.singleton_append]

/-- **Taking a name keeps the maps and the mask in step**: a new name is not yet a key of the name
map, so it goes last there, and its bit is above every bit taken, so it goes last in the bit map. -/
theorem Coherent.add {r : Registry} (h : r.Coherent) {name : String} (hnew : name ∉ r.names)
    (hsize : r.size < 32) : (r.add name).Coherent := by
  have hlen : r.names.length < 32 := hsize
  have hkeys : name ∉ (r.names.zipIdx.map fun e => (e.1, 1#32 <<< e.2)).map Prod.fst := by
    rwa [List.map_map, show (Prod.fst ∘ fun e : String × Nat => (e.1, 1#32 <<< e.2)) = Prod.fst from rfl,
      List.zipIdx_map_fst]
  have hbits : ∀ e ∈ r.names.zipIdx.map (fun e => (1#32 <<< e.2, e.1)),
      e.1.toNat < (1#32 <<< r.names.length).toNat := by
    intro e he
    obtain ⟨⟨n, i⟩, hi, rfl⟩ := List.mem_map.mp he
    have hlt : i < r.names.length := by simpa using (List.mem_zipIdx hi).2.1
    rw [toNat_bit (by omega), toNat_bit hlen]
    exact Nat.pow_lt_pow_right Nat.one_lt_two hlt
  refine ⟨?_, ?_, ?_⟩
  · simp only [Registry.add, h.flagsByName_eq, setFlag_of_not_mem hkeys, List.zipIdx_append,
      List.map_append]
    simp
  · simp only [Registry.add, h.namesByFlag_eq, setName_of_lt hbits, List.zipIdx_append,
      List.map_append]
    simp
  · simp only [Registry.add, h.mask_eq, size, List.length_append, List.length_singleton]
    exact low_bits_succ hlen

theorem Coherent.foldl_add {r : Registry} (h : r.Coherent) {names : List String}
    (hnodup : (r.names ++ names).Nodup) (hsize : r.size + names.length ≤ 32) :
    (names.foldl Registry.add r).Coherent := by
  induction names generalizing r with
  | nil => exact h
  | cons name names ih =>
      have hnew : name ∉ r.names := fun hmem =>
        (List.nodup_middle.mp hnodup |> List.nodup_cons.mp).1 (List.mem_append_left _ hmem)
      have hstep := h.add hnew (by simp only [List.length_cons] at hsize; omega)
      refine ih hstep (by simpa using hnodup) ?_
      simp only [size, add_names, List.length_append, List.length_cons, List.length_nil] at hsize ⊢
      omega

theorem lookup_map {α β γ : Type} [BEq α] (a : α) (l : List γ) (f : γ → α) (g : γ → β) :
    (l.map fun e => (f e, g e)).lookup a = (l.find? fun e => a == f e).map g := by
  induction l with
  | nil => rfl
  | cons e l ih =>
      rw [List.map_cons, List.lookup_cons, List.find?_cons]
      cases a == f e <;> simp [ih]

theorem find?_zipIdx_eq_some_iff {α : Type} {l : List α} {p : α × Nat → Bool} {e : α × Nat} :
    l.zipIdx.find? p = some e ↔
      ∃ i, ∃ h : i < l.length, e = (l[i], i) ∧ p (l[i], i) ∧ ∀ j (hj : j < i), p (l[j], j) = false := by
  rw [List.find?_eq_some_iff_getElem]
  constructor
  · rintro ⟨hp, i, hi, hget, hbefore⟩
    have hi' : i < l.length := by simpa using hi
    refine ⟨i, hi', by simp [← hget], by simpa [← hget] using hp, fun j hj => ?_⟩
    simpa using hbefore j hj
  · rintro ⟨i, hi, rfl, hp, hbefore⟩
    exact ⟨hp, i, by simpa using hi, by simp, fun j hj => by simpa using hbefore j hj⟩

theorem map_snd_find?_zipIdx {α : Type} [BEq α] [LawfulBEq α] (a : α) (l : List α) (k : Nat) :
    ((l.zipIdx k).find? fun e => a == e.1).map Prod.snd = (l.idxOf? a).map (k + ·) := by
  induction l generalizing k with
  | nil => rfl
  | cons x l ih =>
      rw [List.zipIdx_cons, List.find?_cons, List.idxOf?_cons, BEq.comm]
      cases x == a
      · simp only [Bool.false_eq_true, if_false, ih, Option.map_map]
        congr 1
        funext i
        simp only [Function.comp_apply]
        omega
      · rfl

theorem Coherent.flagsFor?_eq {r : Registry} (h : r.Coherent) (name : String) :
    r.flagsFor? name = (r.names.idxOf? name).map (1#32 <<< ·) := by
  rw [flagsFor?, h.flagsByName_eq, lookup_map, ← Function.comp_def (1#32 <<< ·) Prod.snd,
    ← Option.map_map, map_snd_find?_zipIdx, Option.map_map]
  simp [Function.comp_def]

theorem Coherent.nameFor?_eq {r : Registry} (h : r.Coherent) (flag : BitVec 32) :
    r.nameFor? flag = (r.names.zipIdx.find? fun e => flag == 1#32 <<< e.2).map Prod.fst := by
  rw [nameFor?, h.namesByFlag_eq, lookup_map]

theorem Coherent.namesFor_set {r : Registry} (h : r.Coherent) (b : BitVec 32) :
    r.namesFor (.set b) = (r.names.zipIdx.filter fun e => b &&& 1#32 <<< e.2 != 0).map Prod.fst := by
  rw [namesFor, h.namesByFlag_eq, List.filter_map, List.map_map]
  rfl

theorem Coherent.mask_getLsbD {r : Registry} (h : r.Coherent) (hsize : r.size ≤ 32) (j : Nat) :
    r.mask.getLsbD j = decide (j < r.size) := by
  rw [h.mask_eq, getLsbD_low_bits hsize]

theorem Coherent.keys {r : Registry} (h : r.Coherent) : r.flagsByName.map Prod.fst = r.names := by
  rw [h.flagsByName_eq, List.map_map]
  exact List.zipIdx_map_fst 0 r.names

/-- What registration keeps true of a registry: each name is trimmed and not the wildcard's
name, no name is registered twice, they fit the nameable bits, and the maps and mask agree with
them. -/
structure Valid (r : Registry) : Prop where
  trimmed : ∀ n ∈ r.names, Text.trim n = n
  ne_all : ∀ n ∈ r.names, n ≠ Scope.allName
  nodup : r.names.Nodup
  size_le : r.size ≤ maxScopes
  coherent : r.Coherent

theorem Valid.empty : ({} : Registry).Valid :=
  ⟨fun n hn => by simp at hn, fun n hn => by simp at hn, List.nodup_nil, Nat.zero_le _, Coherent.empty⟩

theorem batchFault_eq_none {known names : List String} (hknown : known.Nodup)
    (h : batchFault known names = none) :
    (known ++ names).Nodup ∧ ∀ n ∈ names, n ≠ Scope.allName := by
  induction names generalizing known with
  | nil => simpa using hknown
  | cons name rest ih =>
      unfold batchFault at h
      split_ifs at h with hempty hall hmem
      have hknown' : (known ++ [name]).Nodup :=
        hknown.append (List.nodup_singleton name) (by simpa using hmem)
      obtain ⟨hnodup, hrest⟩ := ih hknown' h
      refine ⟨by simpa using hnodup, fun n hn => ?_⟩
      rcases List.mem_cons.mp hn with rfl | hn
      · exact hall
      · exact hrest n hn

theorem Valid.register {r r' : Registry} {batch : List String} (h : r.Valid)
    (hreg : r.register batch = .ok r') : r'.Valid := by
  unfold Registry.register at hreg
  dsimp only at hreg
  rw [h.coherent.keys] at hreg
  split at hreg
  · cases hreg
  rename_i hfault
  split_ifs at hreg with hcount
  cases hreg
  obtain ⟨hnodup, hall⟩ := batchFault_eq_none h.nodup hfault
  have hsize : r.size + (batch.map Text.trim).length ≤ 32 := by unfold maxScopes at hcount; omega
  refine ⟨fun n hn => ?_, fun n hn => ?_, ?_, ?_, h.coherent.foldl_add hnodup hsize⟩
  · rw [foldl_add_names] at hn
    rcases List.mem_append.mp hn with hn | hn
    · exact h.trimmed n hn
    · obtain ⟨m, -, rfl⟩ := List.mem_map.mp hn
      exact Text.trim_trim m
  · rw [foldl_add_names] at hn
    rcases List.mem_append.mp hn with hn | hn
    · exact h.ne_all n hn
    · exact hall n hn
  · rwa [foldl_add_names]
  · simp only [size, foldl_add_names, List.length_append] at hcount ⊢
    omega

theorem valid_ofNames {batch : List String} {r : Registry} (h : ofNames batch = .ok r) : r.Valid :=
  Valid.empty.register h

/-! ### The bit of a name -/

theorem bit_ne_zero {i : Nat} (hi : i < 32) : 1#32 <<< i ≠ 0 := by
  intro h
  have hnat := congrArg BitVec.toNat h
  rw [toNat_bit hi] at hnat
  exact absurd hnat (Nat.two_pow_pos i).ne'

theorem bit_inj {i j : Nat} (hi : i < 32) (hj : j < 32) (h : 1#32 <<< i = 1#32 <<< j) : i = j := by
  have hnat := congrArg BitVec.toNat h
  rw [toNat_bit hi, toNat_bit hj] at hnat
  exact Nat.pow_right_injective (le_refl 2) hnat

theorem validate_bit {r : Registry} (h : r.Coherent) (hsize : r.size ≤ 32) {i : Nat}
    (hi : i < r.size) : r.validate (.set (1#32 <<< i)) = .ok () := by
  have hstray : (1#32 <<< i) &&& ~~~r.mask = 0 := by
    apply BitVec.eq_of_getLsbD_eq
    intro j hj
    rw [BitVec.getLsbD_and, BitVec.getLsbD_not, h.mask_getLsbD hsize, BitVec.getLsbD_shiftLeft,
      BitVec.getLsbD_one]
    simp
    omega
  simp [validate, hstray]

theorem scopeOf_of_idxOf? {r : Registry} (h : r.Valid) {name : String} {i : Nat}
    (hi : r.names.idxOf? name = some i) : r.scopeOf name = .ok (.set (1#32 <<< i)) := by
  have hmem : name ∈ r.names := List.isSome_idxOf?.mp (by simp [hi])
  have htrim := h.trimmed name hmem
  have hall := h.ne_all name hmem
  have hflag : r.flagsFor? name = some (1#32 <<< i) := by
    rw [h.coherent.flagsFor?_eq, hi]
    rfl
  simp [scopeOf, scopeOfNames, htrim, hall, hflag, List.foldlM, bind, Except.bind, Except.map,
    pure, Except.pure]

theorem lt_size_of_idxOf? {r : Registry} {name : String} {i : Nat} (hi : r.names.idxOf? name = some i) :
    i < r.size :=
  (List.idxOf?_eq_some_iff.mp hi).1

end Registry

namespace Config

theorem idxOf?_of_routeFault {r : Registry} (hr : r.Coherent) {routes : List (String × String)}
    (h : routeFault r routes = none) : ∀ p ∈ routes, ∃ i, r.names.idxOf? p.1 = some i := by
  induction routes with
  | nil => simp
  | cons p rest ih =>
      obtain ⟨name, stack⟩ := p
      unfold routeFault at h
      split_ifs at h with hall hknown
      intro q hq
      rcases List.mem_cons.mp hq with rfl | hq
      · cases hi : r.names.idxOf? name with
        | none => simp [hr.flagsFor?_eq, hi] at hknown
        | some i => exact ⟨i, rfl⟩
      · exact ih h q hq

/-- Resolving validated routes gives each one the bit of its name, and routes of different names
different scopes. -/
theorem resolve_routes {r : Registry} (hr : r.Valid) {l : List (String × String)}
    (hkeys : (l.map Prod.fst).Nodup) (hnames : ∀ p ∈ l, ∃ i, r.names.idxOf? p.1 = some i)
    {f : String × String → Except Fault (Scope × String)}
    (hf : ∀ name stack, f (name, stack) = (r.scopeOf name).map (·, stack))
    {routes : List (Scope × String)} (h : l.mapM f = .ok routes) :
    (∀ q ∈ routes, ∃ name ∈ l.map Prod.fst, ∃ i, r.names.idxOf? name = some i ∧
        q.1 = .set (1#32 <<< i)) ∧
      (routes.map Prod.fst).Nodup := by
  induction l generalizing routes with
  | nil =>
      simp only [List.mapM_nil, pure, Except.pure, Except.ok.injEq] at h
      subst h
      simp
  | cons p rest ih =>
      obtain ⟨name, stack⟩ := p
      obtain ⟨i, hi⟩ := hnames (name, stack) List.mem_cons_self
      rw [List.mapM_cons, hf, Registry.scopeOf_of_idxOf? hr hi] at h
      cases hrest : rest.mapM f with
      | error err => simp [hrest, Except.map, bind, Except.bind] at h
      | ok qs =>
          simp only [hrest, Except.map, bind, Except.bind, pure, Except.pure, Except.ok.injEq] at h
          subst h
          simp only [List.map_cons, List.nodup_cons] at hkeys
          obtain ⟨hqs, hnodup⟩ := ih hkeys.2 (fun p hp => hnames p (List.mem_cons_of_mem _ hp)) hrest
          refine ⟨fun q hq => ?_, ?_⟩
          · rcases List.mem_cons.mp hq with rfl | hq
            · exact ⟨name, List.mem_cons_self, i, hi, rfl⟩
            · obtain ⟨name', hname', j, hj, hq1⟩ := hqs q hq
              exact ⟨name', List.mem_cons_of_mem _ hname', j, hj, hq1⟩
          · refine List.nodup_cons.mpr ⟨fun hmem => ?_, hnodup⟩
            -- another route with the same bit would be of the same name
            obtain ⟨q, hq, hq1⟩ := List.mem_map.mp hmem
            obtain ⟨name', hname', j, hj, hqj⟩ := hqs q hq
            have hsize := hr.size_le
            have hij : i = j := Registry.bit_inj
              (by have := Registry.lt_size_of_idxOf? hi; unfold maxScopes at hsize; omega)
              (by have := Registry.lt_size_of_idxOf? hj; unfold maxScopes at hsize; omega)
              (Scope.set.inj (hq1.symm.trans hqj))
            subst hij
            have hsame : name' = name := by
              obtain ⟨hlt, hget, -⟩ := List.idxOf?_eq_some_iff.mp hj
              obtain ⟨hlt', hget', -⟩ := List.idxOf?_eq_some_iff.mp hi
              exact hget.symm.trans hget'
            exact hkeys.1 (hsame ▸ hname')

theorem validate_ok {c : Config} {r : Registry} (h : c.validate = .ok r) :
    r.Valid ∧ routeFault r c.routes = none := by
  unfold validate at h
  split_ifs at h
  split at h
  · cases h
  · rename_i r' hnames
    split at h
    · cases h
    · rename_i hfault
      cases h
      exact ⟨Registry.valid_ofNames hnames, hfault⟩

/-- **Routes of a valid configuration.** Every route a valid configuration resolves is of a single
registered bit, so the registry accepts it and it is neither the wildcard nor empty; with each name
routed once, no two routes share a scope. -/
theorem route_scopes {c : Config} {r : Registry} (hvalid : c.validate = .ok r)
    (hkeys : (c.routes.map Prod.fst).Nodup) {f : String × String → Except Fault (Scope × String)}
    (hf : ∀ name stack, f (name, stack) = (r.scopeOf name).map (·, stack))
    {routes : List (Scope × String)} (h : c.routes.mapM f = .ok routes) :
    (∀ q ∈ routes, r.validate q.1 = .ok () ∧ q.1.isAll = false ∧ q.1.isEmpty = false) ∧
      (routes.map Prod.fst).Nodup := by
  obtain ⟨hr, hfault⟩ := validate_ok hvalid
  obtain ⟨hbits, hnodup⟩ := resolve_routes hr hkeys (idxOf?_of_routeFault hr.coherent hfault) hf h
  refine ⟨fun q hq => ?_, hnodup⟩
  obtain ⟨name, -, i, hi, hq1⟩ := hbits q hq
  have hlt := Registry.lt_size_of_idxOf? hi
  have hsize := hr.size_le
  unfold maxScopes at hsize
  have hbit : 1#32 <<< i ≠ 0 := Registry.bit_ne_zero (by omega)
  rw [hq1]
  exact ⟨Registry.validate_bit hr.coherent (by omega) hlt, rfl, by simpa [Scope.isEmpty] using hbit⟩

end Config

end ScopedUndo
