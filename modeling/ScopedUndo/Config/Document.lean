import ScopedUndo.Config
import ScopedUndo.Value
/-!
# Configurations from documents

A configuration document is a mapping from field names to values; fields left out keep their
defaults, unknown fields are ignored, and a field given twice is refused. The fields may also
come as a sequence in declaration order, with missing trailing fields defaulted. Sizes are whole
numbers from 0 to the largest 64-bit word, scopes a list of texts, routes a table of texts.
-/

namespace ScopedUndo

inductive Setting where
  | size (n : Nat)
  | text (s : String)
  | texts (l : List String)
  | table (pairs : List (String × String))
  deriving DecidableEq, Repr

namespace Config

def fieldNames : List String :=
  ["undo_limit", "scopes", "default_stack", "event_capacity", "routes"]

/-- Puts a setting into its field; a setting of the wrong shape is refused. -/
def assign (c : Config) : String → Setting → Except String Config
  | "undo_limit", .size n => .ok { c with undoLimit := n }
  | "scopes", .texts l => .ok { c with scopes := l }
  | "default_stack", .text s => .ok { c with defaultStack := s }
  | "event_capacity", .size n => .ok { c with eventCapacity := n }
  | "routes", .table pairs => .ok { c with routes := pairs.foldl (fun rs (k, v) => insertRoute k v rs) [] }
  | name, _ => .error ("invalid type for field " ++ name)

inductive Shape where
  | size
  | text
  | texts
  | table
  deriving DecidableEq, Repr

def shapeOf : String → Shape
  | "undo_limit" | "event_capacity" => .size
  | "scopes" => .texts
  | "default_stack" => .text
  | _ => .table

/-- Reads a configuration from named fields, reading each known field with `read`. -/
def ofFields {δ : Type} (read : Shape → δ → Except String Setting) (fields : List (String × δ)) :
    Except String Config := do
  let (c, _) ← fields.foldlM (fun (acc : Config × List String) (name, v) => do
    if name ∈ fieldNames then
      if name ∈ acc.2 then throw ("duplicate field " ++ name)
      let c ← acc.1.assign name (← read (shapeOf name) v)
      return (c, name :: acc.2)
    else return acc) ({}, [])
  return c

def ofSequence {δ : Type} (read : Shape → δ → Except String Setting) (items : List δ) :
    Except String Config :=
  if items.length > fieldNames.length then .error "invalid length"
  else ofFields read (fieldNames.zip items)

def text : Value → Except String String
  | .str s => .ok s
  | _ => .error "expected a text"

def readJson : Shape → Value → Except String Setting
  | .size, .int i =>
    if 0 ≤ i ∧ i ≤ Text.sizeMax then .ok (.size i.toNat) else .error "size out of range"
  | .text, .str s => .ok (.text s)
  | .texts, .arr items => (items.mapM text).map .texts
  | .table, .obj fields =>
    (fields.mapM fun (field : String × Value) => (text field.2).map (field.1, ·)).map .table
  | _, _ => .error "invalid type"

/-- A configuration as a JSON value: an object of its fields in declaration order. -/
def toValue (c : Config) : Value :=
  .obj [("undo_limit", .int c.undoLimit), ("scopes", .arr (c.scopes.map .str)),
    ("default_stack", .str c.defaultStack), ("event_capacity", .int c.eventCapacity),
    ("routes", .obj (c.routes.map fun (k, v) => (k, .str v)))]

/-- A configuration from a JSON value: an object of fields or a sequence of them. -/
def ofJson : Value → Except String Config
  | .obj fields => ofFields readJson fields
  | .arr items => ofSequence readJson items
  | _ => .error "expected a configuration"

end Config

end ScopedUndo
