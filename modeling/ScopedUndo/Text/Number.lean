/-!
# Numbers as text

Decimal and hexadecimal numerals as the engine writes and reads them. A numeral that is read has
an optional sign and at least one ASCII digit, nothing else; a value outside the target range is
refused rather than wrapped.
-/

namespace ScopedUndo.Text

def int64Min : Int := -9223372036854775808

def int64Max : Int := 9223372036854775807

/-- The largest value of an unsigned 64-bit word, `2^64 - 1`, the widest size a count may have. -/
def sizeMax : Nat := 18446744073709551615

def fitsInt64 (i : Int) : Bool :=
  decide (int64Min ≤ i) && decide (i ≤ int64Max)

def decimal (n : Nat) : String :=
  String.ofList (Nat.toDigits 10 n)

/-- A signed decimal numeral; a minus sign only for negative values. -/
def signed (i : Int) : String :=
  if i < 0 then "-" ++ decimal i.natAbs else decimal i.natAbs

/-- A signed decimal numeral that always carries its sign, `+0` for zero. -/
def withSign (i : Int) : String :=
  if i < 0 then "-" ++ decimal i.natAbs else "+" ++ decimal i.natAbs

def hex (n : Nat) : String :=
  "0x" ++ String.ofList (Nat.toDigits 16 n)

def digitsValue? (cs : List Char) : Option Nat :=
  if cs.isEmpty then none
  else cs.foldl (fun acc c => acc.bind fun n =>
    if c.isDigit then some (10 * n + (c.toNat - '0'.toNat)) else none) (some 0)

/-- Reads an unsigned numeral: an optional `+` and ASCII digits, at most `bound`. -/
def readNat? (bound : Nat) (s : String) : Option Nat :=
  let cs := s.toList
  let body := match cs with
    | '+' :: rest => rest
    | _ => cs
  match digitsValue? body with
  | some n => if n ≤ bound then some n else none
  | none => none

/-- Reads a signed numeral: an optional `+` or `-` and ASCII digits, within a 64-bit word. -/
def readInt64? (s : String) : Option Int :=
  let (negative, body) := match s.toList with
    | '+' :: rest => (false, rest)
    | '-' :: rest => (true, rest)
    | cs => (false, cs)
  match digitsValue? body with
  | some n =>
    let i : Int := if negative then -(n : Int) else n
    if fitsInt64 i then some i else none
  | none => none

end ScopedUndo.Text
