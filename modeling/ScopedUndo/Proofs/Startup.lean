import ScopedUndo.Proofs.Registry
import ScopedUndo.Engine.Basic
/-!
# Starting an engine

A configuration is checked in a fixed order: a blank default stack, then a zero event capacity,
then the scope names, which build the registry, then each route in turn, in name order: a route
of the wildcard, then one whose name is not registered exactly as written, then one with a blank
stack. `Config.Checks` states that order as the fault of the first check that fails, and
`Config.checks` proves it.

An engine starts from a configuration by checking it and then resolving each route's name to its
scope. The resolution trims the name and takes the wildcard's name to the wildcard, which the
check does not; the two agree because a registry keeps its names trimmed and never registers the
wildcard's name, so a name the check lets through is registered as written and resolves to its own
bit. So starting fails exactly with the check's fault, and otherwise always succeeds with the
default stack alone and active, the configured limit, and the routes in order, each with the bit
of its name.
-/

namespace ScopedUndo

/-- A name registered as written resolves to its own bit: registered names are trimmed and are not
the wildcard's. -/
theorem Registry.scopeOf_of_flagsFor? {r : Registry} (hr : r.Valid) {name : String} {flag : BitVec 32}
    (h : r.flagsFor? name = some flag) : r.scopeOf name = .ok (.set flag) := by
  rw [hr.coherent.flagsFor?_eq] at h
  obtain ⟨i, hi, rfl⟩ := Option.map_eq_some_iff.mp h
  exact scopeOf_of_idxOf? hr hi

namespace Config

/-! ### Routes -/

/-- A route that validation lets through against a registry: its name is not the wildcard's and is
registered exactly as written, and its stack is not blank. -/
def RoutePasses (r : Registry) (p : String × String) : Prop :=
  p.1 ≠ Scope.allName ∧ r.flagsFor? p.1 ≠ none ∧ Text.trim p.2 ≠ ""

theorem routeFault_cons_of_passes {r : Registry} {p : String × String} (h : RoutePasses r p)
    (rest : List (String × String)) : routeFault r (p :: rest) = routeFault r rest := by
  obtain ⟨name, stack⟩ := p
  obtain ⟨hall, hknown, hstack⟩ := h
  rw [routeFault, if_neg hall, if_neg (by simpa using hknown),
    if_neg (by rwa [String.isEmpty_iff])]

theorem routeFault_append {r : Registry} {pre : List (String × String)}
    (hpre : ∀ p ∈ pre, RoutePasses r p) (rest : List (String × String)) :
    routeFault r (pre ++ rest) = routeFault r rest := by
  induction pre with
  | nil => rfl
  | cons p pre ih =>
      rw [List.cons_append, routeFault_cons_of_passes (hpre p List.mem_cons_self),
        ih fun q hq => hpre q (List.mem_cons_of_mem _ hq)]

theorem routeFault_eq_none_iff {r : Registry} {routes : List (String × String)} :
    routeFault r routes = none ↔ ∀ p ∈ routes, RoutePasses r p := by
  induction routes with
  | nil => simp [routeFault]
  | cons p rest ih =>
      constructor
      · intro h q hq
        obtain ⟨name, stack⟩ := p
        unfold routeFault at h
        split_ifs at h with hall hknown hstack
        rcases List.mem_cons.mp hq with rfl | hq
        · exact ⟨hall, by simpa using hknown, by simpa using hstack⟩
        · exact ih.mp h q hq
      · intro h
        rw [routeFault_cons_of_passes (h p List.mem_cons_self)]
        exact ih.mpr fun q hq => h q (List.mem_cons_of_mem _ hq)

/-- The checks of a route, in order: the wildcard's name, then a name not registered as written,
then a blank stack. -/
theorem routeFault_offender (r : Registry) (name stack : String) (post : List (String × String)) :
    (name = Scope.allName →
      routeFault r ((name, stack) :: post) = some (.validation "routes need a specific scope, not 'all'")) ∧
    (name ≠ Scope.allName → r.flagsFor? name = none →
      routeFault r ((name, stack) :: post) = some (.unknownScope name)) ∧
    (name ≠ Scope.allName → r.flagsFor? name ≠ none → Text.trim stack = "" →
      routeFault r ((name, stack) :: post) =
        some (.config ("route for scope '" ++ name ++ "' has an empty stack id"))) := by
  refine ⟨fun hall => ?_, fun hall hknown => ?_, fun hall hknown hstack => ?_⟩
  · rw [routeFault, if_pos hall]
  · rw [routeFault, if_neg hall, if_pos (by simp [hknown])]
  · rw [routeFault, if_neg hall, if_neg (by simpa using hknown), if_pos (by simp [hstack])]

/-! ### The order of the checks -/

theorem validate_blank_default {c : Config} (h : Text.trim c.defaultStack = "") :
    c.validate = .error (.config "default_stack cannot be empty") := by
  rw [validate, if_pos (by simp [h])]

theorem validate_zero_capacity {c : Config} (hd : Text.trim c.defaultStack ≠ "")
    (hcap : c.eventCapacity = 0) : c.validate = .error (.config "event_capacity must be positive") := by
  rw [validate, if_neg (by simpa using hd), if_pos hcap]

theorem validate_scopes_error {c : Config} (hd : Text.trim c.defaultStack ≠ "")
    (hcap : c.eventCapacity ≠ 0) {f : Fault} (hf : Registry.ofNames c.scopes = .error f) :
    c.validate = .error f := by
  rw [validate, if_neg (by simpa using hd), if_neg hcap, hf]

theorem validate_routes {c : Config} (hd : Text.trim c.defaultStack ≠ "")
    (hcap : c.eventCapacity ≠ 0) {r : Registry} (hr : Registry.ofNames c.scopes = .ok r) :
    c.validate = (routeFault r c.routes).elim (.ok r) .error := by
  rw [validate, if_neg (by simpa using hd), if_neg hcap, hr]
  cases hfault : routeFault r c.routes <;> simp [hfault]

/-- How validation ends: with the fault of the first check that fails, in the order blank default
stack, zero event capacity, the scope names, then route by route in list order the wildcard's name,
a name not registered exactly as written and a blank stack; and with the registry of the scope
names when every check passes. -/
structure Checks (c : Config) : Prop where
  blank_default : Text.trim c.defaultStack = "" →
    c.validate = .error (.config "default_stack cannot be empty")
  zero_capacity : Text.trim c.defaultStack ≠ "" → c.eventCapacity = 0 →
    c.validate = .error (.config "event_capacity must be positive")
  scopes : Text.trim c.defaultStack ≠ "" → c.eventCapacity ≠ 0 →
    ∀ f, Registry.ofNames c.scopes = .error f → c.validate = .error f
  first_bad_route : Text.trim c.defaultStack ≠ "" → c.eventCapacity ≠ 0 →
    ∀ r, Registry.ofNames c.scopes = .ok r →
    ∀ pre name stack post, c.routes = pre ++ (name, stack) :: post → (∀ p ∈ pre, RoutePasses r p) →
      (name = Scope.allName →
        c.validate = .error (.validation "routes need a specific scope, not 'all'")) ∧
      (name ≠ Scope.allName → r.flagsFor? name = none → c.validate = .error (.unknownScope name)) ∧
      (name ≠ Scope.allName → r.flagsFor? name ≠ none → Text.trim stack = "" →
        c.validate = .error (.config ("route for scope '" ++ name ++ "' has an empty stack id")))
  passes : Text.trim c.defaultStack ≠ "" → c.eventCapacity ≠ 0 →
    ∀ r, Registry.ofNames c.scopes = .ok r → (∀ p ∈ c.routes, RoutePasses r p) → c.validate = .ok r

theorem checks (c : Config) : c.Checks := by
  refine ⟨validate_blank_default, validate_zero_capacity, fun hd hcap _ hf => validate_scopes_error hd hcap hf,
    fun hd hcap r hr pre name stack post hsplit hpre => ?_, fun hd hcap r hr hpass => ?_⟩
  · -- the routes before the offender pass, so its own checks decide
    have hfault : routeFault r c.routes = routeFault r ((name, stack) :: post) := by
      rw [hsplit, routeFault_append hpre]
    obtain ⟨hall, hknown, hstack⟩ := routeFault_offender r name stack post
    rw [validate_routes hd hcap hr, hfault]
    exact ⟨fun h => by rw [hall h]; rfl, fun h h' => by rw [hknown h h']; rfl,
      fun h h' h'' => by rw [hstack h h' h'']; rfl⟩
  · rw [validate_routes hd hcap hr, routeFault_eq_none_iff.mpr hpass]
    rfl

/-- The check takes a route's name as written: a name registered only once trimmed is refused. -/
example : ({ scopes := ["car"], routes := [(" car", "garage")] } : Config).validate =
    .error (.unknownScope " car") := by
  decide

/-- A configuration that validates routes only names that pass against the registry it builds,
and that registry keeps its names trimmed and never registers the wildcard's name. -/
theorem routes_pass_of_validate {c : Config} {r : Registry} (h : c.validate = .ok r) :
    r.Valid ∧ ∀ p ∈ c.routes, RoutePasses r p := by
  obtain ⟨hr, hfault⟩ := validate_ok h
  exact ⟨hr, routeFault_eq_none_iff.mp hfault⟩

/-- Every route of a configuration that validates resolves to the bit its name is registered
with. -/
theorem routes_resolve {c : Config} {r : Registry} (h : c.validate = .ok r) :
    ∀ p ∈ c.routes, ∃ flag, r.flagsFor? p.1 = some flag ∧ r.scopeOf p.1 = .ok (.set flag) := by
  obtain ⟨hr, hpass⟩ := routes_pass_of_validate h
  intro p hp
  obtain ⟨-, hknown, -⟩ := hpass p hp
  obtain ⟨flag, hflag⟩ := Option.ne_none_iff_exists'.mp hknown
  exact ⟨flag, hflag, Registry.scopeOf_of_flagsFor? hr hflag⟩

end Config

namespace Engine

variable {α : Type}

/-- Resolving routes whose names all resolve to their bits never fails, and keeps each route's
stack. -/
theorem mapM_resolve {r : Registry} {l : List (String × String)}
    (hl : ∀ p ∈ l, ∃ flag, r.flagsFor? p.1 = some flag ∧ r.scopeOf p.1 = .ok (.set flag))
    {f : String × String → Except Fault (Scope × String)}
    (hf : ∀ name stack, f (name, stack) = (r.scopeOf name).map (·, stack)) :
    l.mapM f = .ok (l.filterMap fun p => (r.flagsFor? p.1).map fun flag => (.set flag, p.2)) := by
  induction l with
  | nil => rfl
  | cons p l ih =>
      obtain ⟨name, stack⟩ := p
      obtain ⟨flag, hflag, hscope⟩ := hl (name, stack) List.mem_cons_self
      rw [List.mapM_cons, hf, hscope, ih fun q hq => hl q (List.mem_cons_of_mem _ hq),
        List.filterMap_cons, hflag]
      rfl

theorem create_of_validate_error {c : Config} {f : Fault} (h : c.validate = .error f) :
    (create c : Except Fault (Engine α)) = .error f := by
  unfold create
  rw [h]
  rfl

/-- A configuration that validates starts an engine: its registry, limit and default stack, that
stack alone and active, and each route with the bit of its name. -/
theorem create_of_validate_ok {c : Config} {r : Registry} (h : c.validate = .ok r) :
    (create c : Except Fault (Engine α)) = .ok
      { registry := r, defaultStack := c.defaultStack, undoLimit := c.undoLimit,
        capacity := c.eventCapacity, histories := [Stack.empty c.defaultStack],
        active := c.defaultStack,
        routes := c.routes.filterMap fun p => (r.flagsFor? p.1).map fun flag => (.set flag, p.2) } := by
  have hroutes := Config.routes_resolve h
  unfold create
  rw [h]
  simp only [bind, Except.bind]
  split
  · rename_i err herr
    have hok := herr.symm.trans (mapM_resolve hroutes ?_)
    · cases hok
    · intro name stack
      rfl
  · rename_i routes hresolved
    have hok := hresolved.symm.trans (mapM_resolve hroutes ?_)
    · cases hok
      rfl
    · intro name stack
      rfl

/-- **Validation and starting agree.** Validation ends with the fault of its first failing check,
in the order `Config.Checks` gives; starting an engine fails with exactly that fault; and on a
configuration that validates, every route's name resolves to the bit it is registered with, so
starting succeeds, with the registry, the routes in order each with the bit of its name, the default
stack alone and active, and the configured limit. -/
theorem create_agrees_with_validate (c : Config) :
    c.Checks ∧
    (∀ f, c.validate = .error f → (create c : Except Fault (Engine α)) = .error f) ∧
    ∀ r, c.validate = .ok r →
      (∀ p ∈ c.routes, ∃ flag, r.flagsFor? p.1 = some flag ∧ r.scopeOf p.1 = .ok (.set flag)) ∧
      ∃ e : Engine α, create c = .ok e ∧ e.registry = r ∧
        e.routes = c.routes.filterMap (fun p => (r.flagsFor? p.1).map fun flag => (.set flag, p.2)) ∧
        e.histories = [Stack.empty c.defaultStack] ∧ e.active = c.defaultStack ∧
        e.undoLimit = c.undoLimit :=
  ⟨Config.checks c, fun _ h => create_of_validate_error h,
    fun _ h => ⟨Config.routes_resolve h, _, create_of_validate_ok h, rfl, rfl, rfl, rfl, rfl⟩⟩

/-- Starting from the scopes `brand` and `car`, with `car` routed to the stack `garage`. -/
theorem create_agrees_with_validate_garage :
    ({ scopes := ["brand", "car"], routes := [("car", "garage")] } : Config).validate = .ok
        { names := ["brand", "car"], flagsByName := [("brand", 1), ("car", 2)],
          namesByFlag := [(1, "brand"), (2, "car")], mask := 3 } ∧
      ∃ e : Engine Unit, create { scopes := ["brand", "car"], routes := [("car", "garage")] } = .ok e ∧
        e.routes = [(.set 2, "garage")] ∧ e.histories = [Stack.empty defaultStackId] := by
  have hvalid : ({ scopes := ["brand", "car"], routes := [("car", "garage")] } : Config).validate = .ok
      { names := ["brand", "car"], flagsByName := [("brand", 1), ("car", 2)],
        namesByFlag := [(1, "brand"), (2, "car")], mask := 3 } := by
    decide
  obtain ⟨-, -, hok⟩ := @create_agrees_with_validate Unit { scopes := ["brand", "car"], routes := [("car", "garage")] }
  obtain ⟨-, e, he, -, hroutes, hstacks, -, -⟩ := hok _ hvalid
  refine ⟨hvalid, e, he, ?_, hstacks⟩
  rw [hroutes]
  decide

end Engine

end ScopedUndo
