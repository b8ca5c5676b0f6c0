import ScopedUndo.Config.Document
import ScopedUndo.Yaml
import ScopedUndo.Value.Json
/-!
# Configurations in YAML

A YAML configuration is read like a JSON one, with YAML's own typing of scalars. A size must be a
plain scalar written as an unsigned integer: decimal without leading zeros, or hexadecimal,
octal or binary after `0x`, `0o` or `0b`, with an optional `+`, up to the largest 64-bit word.
A text may be any scalar, quoted or not, so `123` and `~` are texts too. A list or a table may
also be left empty, as an empty plain scalar, and so may the whole document.

Writing puts one field a line in declaration order, lists as `- ` entries and tables indented by
two spaces, and quotes every text that is not a plain word.
-/

namespace ScopedUndo

namespace Config

/-- The value of digits in a radix, when there is at least one and all are digits of it. -/
def radixDigits? (radix : Nat) (cs : List Char) : Option Nat :=
  if cs.isEmpty then none
  else cs.foldl (fun acc c => acc.bind fun n =>
    let d := if '0' ≤ c ∧ c ≤ '9' then c.toNat - '0'.toNat
      else if 'a' ≤ c ∧ c ≤ 'z' then c.toNat - 'a'.toNat + 10
      else if 'A' ≤ c ∧ c ≤ 'Z' then c.toNat - 'A'.toNat + 10
      else radix
    if d < radix then some (radix * n + d) else none) (some 0)

def startsSigned : List Char → Bool
  | '+' :: _ | '-' :: _ => true
  | _ => false

/-- Whether a scalar is a zero followed by more digits, which YAML reads as a text. -/
def zeroPadded (cs : List Char) : Bool :=
  let body := match cs with
    | '+' :: r | '-' :: r => r
    | _ => cs
  match body with
  | '0' :: d :: r => (d :: r).all Char.isDigit
  | _ => false

/-- The value of an unsigned numeral without its sign: decimal without leading zeros, or after
`0x`, `0o` or `0b` hexadecimal, octal or binary. -/
def numeral? (cs : List Char) : Option Nat :=
  let decimal : Option Nat :=
    if startsSigned cs || zeroPadded cs then none else radixDigits? 10 cs
  match cs with
  | '0' :: p :: r =>
    let radix := if p == 'x' then 16 else if p == 'o' then 8 else if p == 'b' then 2 else 0
    if radix == 0 then decimal
    else if startsSigned r then none
    else match radixDigits? radix r with
      | some n => some n
      | none => decimal
  | _ => decimal

/-- The size a plain YAML scalar denotes: an unsigned numeral with an optional `+`, or a negative
zero, within a 64-bit word. -/
def yamlSize? (text : String) : Option Nat :=
  let value := match text.toList with
    | '+' :: r => numeral? r
    | '-' :: r => if numeral? r == some 0 then some 0 else none
    | cs => numeral? cs
  value.bind fun n => if n ≤ Text.sizeMax then some n else none

def yamlText : Yaml → Except String String
  | .scalar t _ => .ok t
  | _ => .error "expected a text"

def readYaml : Shape → Yaml → Except String Setting
  | .size, .scalar t true =>
    match yamlSize? t with
    | some n => .ok (.size n)
    | none => .error "expected an unsigned integer"
  | .text, .scalar t _ => .ok (.text t)
  | .texts, .seq items => (items.mapM yamlText).map .texts
  | .texts, .scalar "" true => .ok (.texts [])
  | .table, .map entries =>
    (entries.mapM fun (entry : Yaml × Yaml) => do
      return (← yamlText entry.1, ← yamlText entry.2)).map .table
  | .table, .scalar "" true => .ok (.table [])
  | _, _ => .error "invalid type"

/-- A configuration from a YAML document: a mapping of fields, a sequence of them, or nothing. -/
def ofYaml : Yaml → Except String Config
  | .map entries => do
    let fields ← entries.mapM fun (entry : Yaml × Yaml) => do
      return (← yamlText entry.1, entry.2)
    ofFields readYaml fields
  | .seq items => ofSequence readYaml items
  | .scalar "" true => .ok {}
  | _ => .error "expected a configuration"

/-- Whether a text can be written as a plain scalar and read back as the same text: a word of
ASCII letters, digits and underscores, starting with a letter, that YAML does not read as a
null or a boolean. -/
def plainWord (s : String) : Bool :=
  match s.toList with
  | c :: rest =>
    c.isAlpha && rest.all (fun d => d.isAlphanum || d == '_') &&
      !(["null", "Null", "NULL", "true", "True", "TRUE", "false", "False", "FALSE", "y", "Y",
        "yes", "Yes", "YES", "n", "N", "no", "No", "NO", "on", "On", "ON", "off", "Off",
        "OFF"].contains s)
  | [] => false

def yamlEscape (c : Char) : List Char :=
  if c == '"' then ['\\', '"']
  else if c == '\\' then ['\\', '\\']
  else if c == '\n' then ['\\', 'n']
  else if c == '\t' then ['\\', 't']
  else if c.toNat < 32 || c.toNat == 127 then
    ['\\', 'x', Value.hexDigit (c.toNat / 16), Value.hexDigit (c.toNat % 16)]
  else [c]

/-- A text as a YAML scalar: plain when it is a plain word, double-quoted otherwise. -/
def yamlScalar (s : String) : String :=
  if plainWord s then s else "\"" ++ String.ofList (s.toList.flatMap yamlEscape) ++ "\""

def toYaml (c : Config) : String :=
  let scopes := if c.scopes.isEmpty then "scopes: []\n"
    else "scopes:\n" ++ String.join (c.scopes.map fun s => "- " ++ yamlScalar s ++ "\n")
  let routes := if c.routes.isEmpty then "routes: \x7b\x7d\n"
    else "routes:\n" ++
      String.join (c.routes.map fun (k, v) => "  " ++ yamlScalar k ++ ": " ++ yamlScalar v ++ "\n")
  "undo_limit: " ++ toString c.undoLimit ++ "\n" ++ scopes ++
    "default_stack: " ++ yamlScalar c.defaultStack ++ "\n" ++
    "event_capacity: " ++ toString c.eventCapacity ++ "\n" ++ routes

end Config

end ScopedUndo
