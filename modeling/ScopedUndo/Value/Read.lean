import ScopedUndo.Value
/-!
# Reading JSON text

`Value.read` reads one JSON value from a text, strictly: blanks are spaces, tabs and line breaks,
nothing but blanks may follow the value, and arrays and objects nest at most 128 deep. Strings
may not hold raw control characters, and a `\u` escape of a surrogate must pair a high one with
a low one. A number without fraction or exponent is an integer, except `-0`, which (having a
sign an integer cannot keep) is read as a decimal, like every number with a fraction or exponent.
-/

namespace ScopedUndo

namespace Value

def maxDepth : Nat := 128

def isJsonBlank (c : Char) : Bool :=
  c == ' ' || c == '\t' || c == '\n' || c == '\r'

def skipBlanks (cs : List Char) : List Char :=
  cs.dropWhile isJsonBlank

def hexValue? (c : Char) : Option Nat :=
  if '0' ≤ c ∧ c ≤ '9' then some (c.toNat - '0'.toNat)
  else if 'a' ≤ c ∧ c ≤ 'f' then some (c.toNat - 'a'.toNat + 10)
  else if 'A' ≤ c ∧ c ≤ 'F' then some (c.toNat - 'A'.toNat + 10)
  else none

def hex4? (a b c d : Char) : Option Nat := do
  return (← hexValue? a) * 4096 + (← hexValue? b) * 256 + (← hexValue? c) * 16 + (← hexValue? d)

def escaped? : Char → Option Char
  | '"' => some '"'
  | '\\' => some '\\'
  | '/' => some '/'
  | 'b' => some (Char.ofNat 8)
  | 'f' => some (Char.ofNat 12)
  | 'n' => some '\n'
  | 'r' => some '\r'
  | 't' => some '\t'
  | _ => none

/-- Reads the rest of a string literal after its opening quote: its characters, reversed onto
`acc`, and what follows the closing quote. -/
def readString (acc : List Char) : List Char → Except String (String × List Char)
  | [] => .error "unterminated string"
  | '"' :: rest => .ok (String.ofList acc.reverse, rest)
  | '\\' :: 'u' :: a :: b :: c :: d :: rest =>
    match hex4? a b c d with
    | none => .error "invalid escape"
    | some high =>
      if 0xD800 ≤ high ∧ high < 0xDC00 then
        match rest with
        | '\\' :: 'u' :: e :: f :: g :: h :: more =>
          match hex4? e f g h with
          | some low =>
            if 0xDC00 ≤ low ∧ low < 0xE000 then
              readString (Char.ofNat (0x10000 + (high - 0xD800) * 1024 + (low - 0xDC00)) :: acc) more
            else .error "lone surrogate"
          | none => .error "invalid escape"
        | _ => .error "lone surrogate"
      else if 0xDC00 ≤ high ∧ high < 0xE000 then .error "lone surrogate"
      else readString (Char.ofNat high :: acc) rest
  | '\\' :: e :: rest =>
    match escaped? e with
    | some c => readString (c :: acc) rest
    | none => .error "invalid escape"
  | c :: rest =>
    if c.toNat < 32 then .error "control character in string" else readString (c :: acc) rest

def digitsPrefix (cs : List Char) : List Char × List Char :=
  (cs.takeWhile Char.isDigit, cs.dropWhile Char.isDigit)

def digitsNat (ds : List Char) : Nat :=
  ds.foldl (fun n c => 10 * n + (c.toNat - '0'.toNat)) 0

/-- Reads a number: an optional minus, an integer part without leading zeros, an optional
fraction and an optional exponent. -/
def readNumber (cs : List Char) : Except String (Value × List Char) := do
  let (negative, cs) := match cs with
    | '-' :: rest => (true, rest)
    | _ => (false, cs)
  let (whole, cs) ← match cs with
    | '0' :: rest => pure (['0'], rest)
    | c :: _ =>
      if c.isDigit then pure (digitsPrefix cs) else throw "invalid number"
    | [] => throw "invalid number"
  let (fraction, cs) ← match cs with
    | '.' :: rest =>
      let (ds, more) := digitsPrefix rest
      if ds.isEmpty then throw "invalid number" else pure (some ds, more)
    | _ => pure (none, cs)
  let (exponent, cs) ← match cs with
    | e :: rest =>
      if e == 'e' || e == 'E' then
        let (sign, rest) := match rest with
          | '+' :: more => ((1 : Int), more)
          | '-' :: more => (-1, more)
          | _ => (1, rest)
        let (ds, more) := digitsPrefix rest
        if ds.isEmpty then throw "invalid number" else pure (some (sign * digitsNat ds), more)
      else pure (none, cs)
    | [] => pure (none, cs)
  let frac := fraction.getD []
  let magnitude : Int := digitsNat (whole ++ frac)
  let mantissa := if negative then -magnitude else magnitude
  match fraction, exponent with
  | none, none =>
    if negative ∧ magnitude = 0 then return (.decimal 0 0, cs) else return (.int mantissa, cs)
  | _, _ => return (.decimal mantissa (exponent.getD 0 - frac.length), cs)

mutual

/-- Reads a value after blanks; `depth` is how many arrays and objects enclose it and `fuel`
bounds the steps. -/
def readValue (fuel depth : Nat) (cs : List Char) : Except String (Value × List Char) :=
  match fuel with
  | 0 => .error "input too long"
  | fuel + 1 =>
    match skipBlanks cs with
    | 'n' :: 'u' :: 'l' :: 'l' :: rest => .ok (.null, rest)
    | 't' :: 'r' :: 'u' :: 'e' :: rest => .ok (.bool true, rest)
    | 'f' :: 'a' :: 'l' :: 's' :: 'e' :: rest => .ok (.bool false, rest)
    | '"' :: rest => (readString [] rest).map fun (s, more) => (.str s, more)
    | '[' :: rest =>
      if depth ≥ maxDepth then .error "recursion limit exceeded"
      else
        match skipBlanks rest with
        | ']' :: more => .ok (.arr [], more)
        | _ => readItems fuel (depth + 1) [] rest
    | '{' :: rest =>
      if depth ≥ maxDepth then .error "recursion limit exceeded"
      else
        match skipBlanks rest with
        | '}' :: more => .ok (.obj [], more)
        | _ => readFields fuel (depth + 1) [] rest
    | c :: rest =>
      if c == '-' || c.isDigit then readNumber (c :: rest) else .error "expected value"
    | [] => .error "EOF while parsing a value"

/-- Reads array items after `[` or a comma, the ones read so far reversed in `acc`. -/
def readItems (fuel depth : Nat) (acc : List Value) (cs : List Char) :
    Except String (Value × List Char) :=
  match fuel with
  | 0 => .error "input too long"
  | fuel + 1 => do
    let (v, rest) ← readValue fuel depth cs
    match skipBlanks rest with
    | ',' :: more => readItems fuel depth (v :: acc) more
    | ']' :: more => return (.arr (v :: acc).reverse, more)
    | _ => throw "expected a comma or the end of the sequence"

/-- Reads object fields after the opening brace or a comma, the ones read so far reversed in
`acc`. -/
def readFields (fuel depth : Nat) (acc : List (String × Value)) (cs : List Char) :
    Except String (Value × List Char) :=
  match fuel with
  | 0 => .error "input too long"
  | fuel + 1 => do
    let (key, rest) ← match skipBlanks cs with
      | '"' :: rest => readString [] rest
      | _ => throw "key must be a string"
    let rest ← match skipBlanks rest with
      | ':' :: more => pure more
      | _ => throw "expected ':'"
    let (v, rest) ← readValue fuel depth rest
    match skipBlanks rest with
    | ',' :: more => readFields fuel depth ((key, v) :: acc) more
    | '}' :: more => return (.obj ((key, v) :: acc).reverse, more)
    | _ => throw "expected a comma or the end of the mapping"

end

def read (text : String) : Except String Value := do
  let cs := text.toList
  let (v, rest) ← readValue (2 * cs.length + 2) 0 cs
  if (skipBlanks rest).isEmpty then return v else throw "trailing characters"

end Value

end ScopedUndo
