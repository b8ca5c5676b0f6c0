/-!
# Blank characters

The characters with the Unicode `White_Space` property, and trimming and splitting built on them.
Core's `Char.isWhitespace` knows four ASCII characters only, so scope names, script words and log
levels are cut with this set instead.
-/

namespace ScopedUndo.Text

def isBlank (c : Char) : Bool :=
  let n := c.toNat
  (9 ≤ n && n ≤ 13) || n == 32 || n == 0x85 || n == 0xA0 || n == 0x1680 ||
    (0x2000 ≤ n && n ≤ 0x200A) || n == 0x2028 || n == 0x2029 || n == 0x202F ||
    n == 0x205F || n == 0x3000

def trimStart (s : String) : String :=
  String.ofList (s.toList.dropWhile isBlank)

def trimEnd (s : String) : String :=
  String.ofList (s.toList.reverse.dropWhile isBlank).reverse

def trim (s : String) : String :=
  trimEnd (trimStart s)

/-- The first piece of a character list cut at every separator, and the pieces after it. Two
adjacent separators leave an empty piece between them. -/
def pieces (sep : Char → Bool) : List Char → List Char × List (List Char)
  | [] => ([], [])
  | c :: cs =>
    let (p, ps) := pieces sep cs
    if sep c then ([], p :: ps) else (c :: p, ps)

/-- The non-empty pieces of a text cut at every separator, in order. -/
def tokens (sep : Char → Bool) (s : String) : List String :=
  let (p, ps) := pieces sep s.toList
  ((p :: ps).filter (fun piece => !piece.isEmpty)).map String.ofList

/-- The words of a text: its non-empty runs of non-blank characters. -/
def words (s : String) : List String :=
  tokens isBlank s

end ScopedUndo.Text
