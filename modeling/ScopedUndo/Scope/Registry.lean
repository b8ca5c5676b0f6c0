import ScopedUndo.Scope
import ScopedUndo.Text.Blank
/-!
# The scope registry

A registry gives the i-th registered name the bit `1 <<< i`. It keeps the names in bit order, a
map from each name to its bit, a map from each bit to its name kept in bit order, and the mask of
all bits handed out; registering a name updates all four. Registration takes a batch of names at
once and either accepts all of them or none: each trimmed name must be non-empty, must not be the
wildcard's name, and must be new, and the total must fit the 28 nameable bits.
-/

namespace ScopedUndo

/-- Registered scope names in bit order, the bit of each name, the name of each bit in bit order,
and the union of the bits. -/
structure Registry where
  names : List String := []
  flagsByName : List (String × BitVec 32) := []
  namesByFlag : List (BitVec 32 × String) := []
  mask : BitVec 32 := 0
  deriving DecidableEq, Repr

namespace Registry

/-- Scope names in a text: the pieces between commas and blanks, empty pieces dropped. -/
def splitNames (text : String) : List String :=
  Text.tokens (fun c => c == ',' || Text.isBlank c) text

def size (r : Registry) : Nat := r.names.length

def setFlag (name : String) (flag : BitVec 32) :
    List (String × BitVec 32) → List (String × BitVec 32)
  | [] => [(name, flag)]
  | (n, f) :: rest => if n = name then (name, flag) :: rest else (n, f) :: setFlag name flag rest

/-- Sets the name of a bit in a list kept in bit order, replacing the name it had. -/
def setName (flag : BitVec 32) (name : String) :
    List (BitVec 32 × String) → List (BitVec 32 × String)
  | [] => [(flag, name)]
  | (f, n) :: rest =>
    if flag = f then (flag, name) :: rest
    else if flag.toNat < f.toNat then (flag, name) :: (f, n) :: rest
    else (f, n) :: setName flag name rest

/-- Takes one more name with the next free bit, in the names, both maps and the mask. -/
def add (r : Registry) (name : String) : Registry :=
  let flag := 1#32 <<< r.names.length
  { names := r.names ++ [name]
    flagsByName := setFlag name flag r.flagsByName
    namesByFlag := setName flag name r.namesByFlag
    mask := r.mask ||| flag }

/-- The first reason, in batch order, that a batch of trimmed names cannot be registered. -/
def batchFault (known : List String) : List String → Option Fault
  | [] => none
  | name :: rest =>
    if name.isEmpty then some (.validation "scope name cannot be empty")
    else if name = Scope.allName then some (.reservedScopeName name)
    else if name ∈ known then some (.duplicateScope name)
    else batchFault (known ++ [name]) rest

def register (r : Registry) (batch : List String) : Except Fault Registry :=
  let names := batch.map Text.trim
  match batchFault (r.flagsByName.map Prod.fst) names with
  | some fault => .error fault
  | none =>
    let count := r.size + names.length
    if count > maxScopes then .error (.tooManyScopes count maxScopes)
    else .ok (names.foldl add r)

def ofNames (batch : List String) : Except Fault Registry :=
  register {} batch

/-- A registry holding the names of a text, cut at commas and blanks. -/
def ofText (text : String) : Except Fault Registry :=
  ofNames (splitNames text)

/-- The bit of a registered name; the name is looked up exactly as given. -/
def flagsFor? (r : Registry) (name : String) : Option (BitVec 32) :=
  r.flagsByName.lookup name

def nameFor? (r : Registry) (flag : BitVec 32) : Option String :=
  r.namesByFlag.lookup flag

/-- The names of the bits of a scope in bit order; the wildcard is named by its own name. -/
def namesFor (r : Registry) : Scope → List String
  | .all => [Scope.allName]
  | .set b => (r.namesByFlag.filter fun e => b &&& e.1 != 0).map Prod.snd

/-- The union of the bits of names, each trimmed first. A name that trims to the wildcard's name
makes the wildcard, whatever the other names are; otherwise the first unknown name is refused. -/
def scopeOfNames (r : Registry) (names : List String) : Except Fault Scope :=
  if names.any (fun n => Text.trim n = Scope.allName) then .ok .all
  else
    let step (acc : BitVec 32) (n : String) : Except Fault (BitVec 32) :=
      let name := Text.trim n
      match r.flagsFor? name with
      | some flag => .ok (acc ||| flag)
      | none => .error (.unknownScope name)
    (names.foldlM step 0#32).map Scope.set

def scopeOf (r : Registry) (name : String) : Except Fault Scope :=
  r.scopeOfNames [name]

def scopeOfText (r : Registry) (text : String) : Except Fault Scope :=
  r.scopeOfNames (splitNames text)

/-- Accepts the wildcard and every set within the registered bits. -/
def validate (r : Registry) : Scope → Except Fault Unit
  | .all => .ok ()
  | .set b =>
    let stray := b &&& ~~~r.mask
    if stray = 0 then .ok ()
    else .error (.validation ("scope " ++ Text.hex b.toNat ++ " carries unregistered flags " ++
      Text.hex stray.toNat))

end Registry

end ScopedUndo
