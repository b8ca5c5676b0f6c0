import ScopedUndo.Value
/-!
# Values as JSON text

`compact` writes a value on one line with no spaces, and `pretty` spreads it over lines indented
by two spaces a level, with a space after each colon. Both write object fields in the order the
value holds them and escape in strings only the quote, the backslash and the control characters
below U+0020: the usual ones by letter, the rest as `\u00XX` with lowercase digits.

A number with a fraction or exponent is written in its shortest form: in plain notation when its
point falls within sixteen digits of its first digit (and no more than five zeros after the
point), with `.0` when it has no fraction, and as digits with an exponent otherwise.
-/

namespace ScopedUndo

namespace Value

def hexDigit (n : Nat) : Char :=
  if n < 10 then Char.ofNat (48 + n) else Char.ofNat (87 + n)

def escapeChar (c : Char) : List Char :=
  match c with
  | '"' => ['\\', '"']
  | '\\' => ['\\', '\\']
  | '\n' => ['\\', 'n']
  | '\r' => ['\\', 'r']
  | '\t' => ['\\', 't']
  | _ =>
    if c.toNat == 8 then ['\\', 'b']
    else if c.toNat == 12 then ['\\', 'f']
    else if c.toNat < 32 then ['\\', 'u', '0', '0', hexDigit (c.toNat / 16), hexDigit (c.toNat % 16)]
    else [c]

def quote (s : String) : String :=
  "\"" ++ String.ofList (s.toList.flatMap escapeChar) ++ "\""

/-- The decimal digits of a positive number with its trailing zeros dropped, and how many were
dropped. -/
def stripZeros (n : Nat) : Nat → List Char × Nat
  | 0 => ((Nat.toDigits 10 n), 0)
  | fuel + 1 =>
    if n ≠ 0 ∧ n % 10 = 0 then
      let (ds, k) := stripZeros (n / 10) fuel
      (ds, k + 1)
    else (Nat.toDigits 10 n, 0)

/-- The shortest text of `mantissa * 10 ^ exponent` written as a fractional number. -/
def decimalText (mantissa : Int) (exponent : Int) : String :=
  let sign := if mantissa < 0 then "-" else ""
  let n := mantissa.natAbs
  if n = 0 then sign ++ "0.0"
  else
    let (digits, dropped) := stripZeros n n
    let len := digits.length
    -- the value is 0.d1d2... * 10 ^ point
    let point : Int := len + exponent + dropped
    let body :=
      if 0 < point ∧ point ≤ 16 then
        let p := point.toNat
        if p ≥ len then String.ofList digits ++ String.ofList (List.replicate (p - len) '0') ++ ".0"
        else String.ofList (digits.take p) ++ "." ++ String.ofList (digits.drop p)
      else if -5 < point ∧ point ≤ 0 then
        "0." ++ String.ofList (List.replicate point.natAbs '0') ++ String.ofList digits
      else
        let e := point - 1
        let mant := match digits with
          | [d] => String.singleton d
          | d :: rest => String.singleton d ++ "." ++ String.ofList rest
          | [] => "0"
        mant ++ "e" ++ (if e < 0 then "-" else "") ++ toString e.natAbs
    sign ++ body

mutual

def compact : Value → String
  | null => "null"
  | bool true => "true"
  | bool false => "false"
  | int i => toString i
  | decimal m e => decimalText m e
  | str s => quote s
  | arr items => "[" ++ compactItems items ++ "]"
  | obj fields => "\x7b" ++ compactFields fields ++ "\x7d"

def compactItems : List Value → String
  | [] => ""
  | [v] => compact v
  | v :: rest => compact v ++ "," ++ compactItems rest

def compactField : String × Value → String
  | (k, v) => quote k ++ ":" ++ compact v

def compactFields : List (String × Value) → String
  | [] => ""
  | [f] => compactField f
  | f :: rest => compactField f ++ "," ++ compactFields rest

end

mutual

/-- A value spread over lines, its nested lines indented by `indent` and two more spaces a
level. -/
def prettyAt (indent : String) : Value → String
  | arr [] => "[]"
  | obj [] => "\x7b\x7d"
  | arr items => "[\n" ++ prettyItems (indent ++ "  ") items ++ "\n" ++ indent ++ "]"
  | obj fields => "\x7b\n" ++ prettyFields (indent ++ "  ") fields ++ "\n" ++ indent ++ "\x7d"
  | v => v.compact

/-- Array items, each on its own lines at `indent`, separated by commas. -/
def prettyItems (indent : String) : List Value → String
  | [] => ""
  | [v] => indent ++ prettyAt indent v
  | v :: rest => indent ++ prettyAt indent v ++ ",\n" ++ prettyItems indent rest

def prettyField (indent : String) : String × Value → String
  | (k, v) => indent ++ quote k ++ ": " ++ prettyAt indent v

/-- Object fields, each on its own lines at `indent`, separated by commas. -/
def prettyFields (indent : String) : List (String × Value) → String
  | [] => ""
  | [f] => prettyField indent f
  | f :: rest => prettyField indent f ++ ",\n" ++ prettyFields indent rest

end

def pretty (v : Value) : String := prettyAt "" v

end Value

end ScopedUndo
