import ScopedUndo.Text.Number
/-!
# Document values

The values that actions answer and that configuration documents hold: the JSON data model. A
number without a fraction or exponent is an integer; any other number is kept as a decimal
`mantissa * 10 ^ exponent`. Object fields keep the order they were given in.
-/

namespace ScopedUndo

inductive Value where
  | null
  | bool (b : Bool)
  | int (i : Int)
  /-- A number written with a fraction or an exponent: `mantissa * 10 ^ exponent`. -/
  | decimal (mantissa : Int) (exponent : Int)
  | str (s : String)
  | arr (items : List Value)
  | obj (fields : List (String × Value))
  deriving Repr, Inhabited

namespace Value

def isNull : Value → Bool
  | null => true
  | _ => false

def field? (v : Value) (name : String) : Option Value :=
  match v with
  | obj fields => (fields.reverse.find? (·.1 == name)).map (·.2)
  | _ => none

end Value

end ScopedUndo
