import ScopedUndo.Fault
import ScopedUndo.Text.Number
/-!
# Scopes

A scope tags a command with the parts of an application it touches: a set of at most 28 bit
positions, or the wildcard `all` that touches everything. Two scopes meet when either is the
wildcard or their bits share a position; union is bitwise, and the wildcard absorbs.
-/

namespace ScopedUndo

def maxScopes : Nat := 28

def allFlags : BitVec 32 := 0x0FFFFFFF

/-- A set of scope bits, or the wildcard that stands for every scope. -/
inductive Scope where
  | all
  | set (bits : BitVec 32)
  deriving DecidableEq, Repr

namespace Scope

def allName : String := "all"

def bits : Scope → BitVec 32
  | all => allFlags
  | set b => b

/-- The scope of a word: bits above the nameable ones are dropped, and a word with every
nameable bit becomes the wildcard. -/
def ofBits (b : BitVec 32) : Scope :=
  if b &&& allFlags = allFlags then all else set (b &&& allFlags)

/-- The scope of one bit position, for the positions a registry can name. -/
def flag (position : Nat) : Except Fault Scope :=
  if position < maxScopes then .ok (set (1#32 <<< position))
  else .error (.tooManyScopes (position + 1) maxScopes)

def isAll : Scope → Bool
  | all => true
  | set _ => false

def isEmpty : Scope → Bool
  | all => false
  | set b => b == 0

def union : Scope → Scope → Scope
  | all, _ => all
  | _, all => all
  | set a, set b => set (a ||| b)

instance : OrOp Scope := ⟨union⟩

/-- Whether two scopes meet: either is the wildcard, or their bits share a position. -/
def meets : Scope → Scope → Bool
  | all, _ => true
  | _, all => true
  | set f, set s => f &&& s != 0

def selects (filter scope : Scope) : Bool :=
  meets filter scope

/-- The text of a scope: `all`, or its bits as a hexadecimal numeral. -/
def display : Scope → String
  | all => allName
  | set b => Text.hex b.toNat

end Scope

end ScopedUndo
