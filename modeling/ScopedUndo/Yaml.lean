import ScopedUndo.Text.Number
/-!
# YAML documents

`Yaml.read` reads a YAML text made of one document into a tree of scalars, sequences and
mappings. It covers the block style (mappings of `key: value` lines and `- ` sequence entries,
nested by indentation), the flow style (`[a, b]` and `{k: v}`, which may span lines), plain,
single-quoted and double-quoted scalars, comments, and the `---` and `...` markers. A value left
out, like the whole of an empty document, reads as the empty plain scalar.

Block scalars, anchors, aliases, tags, directives, complex keys and plain scalars running over
several lines are refused, as are tabs in indentation and a second document.
-/

namespace ScopedUndo

/-- A YAML node. A scalar records whether it was written plain, that is without quotes. -/
inductive Yaml where
  | scalar (text : String) (plain : Bool)
  | seq (items : List Yaml)
  | map (entries : List (Yaml × Yaml))
  deriving Repr, Inhabited

namespace Yaml

def empty : Yaml := .scalar "" true

/-- A reading position: the characters left and the column of the first of them. -/
structure Cursor where
  rest : List Char
  col : Nat

def isSpace (c : Char) : Bool := c == ' ' || c == '\t'

/-- Whether the characters start with a blank, a line break or nothing. -/
def blankOrEnd : List Char → Bool
  | [] => true
  | c :: _ => isSpace c || c == '\n'

/-- Whether a character opens or closes a flow collection or separates its entries. -/
def isFlowIndicator (c : Char) : Bool :=
  c == ',' || c == '[' || c == ']' || c == '{' || c == '}'

namespace Cursor

/-- The cursor moved to `rest`, a suffix of its characters, with the column recomputed. -/
def skipTo (c : Cursor) (rest : List Char) : Cursor :=
  let consumed := c.rest.take (c.rest.length - rest.length)
  match consumed.reverse.findIdx? (· == '\n') with
  | some k => ⟨rest, k⟩
  | none => ⟨rest, c.col + consumed.length⟩

def next (c : Cursor) : Cursor := c.skipTo c.rest.tail

def skipSpaces (c : Cursor) : Cursor := c.skipTo (c.rest.dropWhile isSpace)

/-- Whether the line ends here, after blanks and possibly a comment. -/
def atLineEnd (c : Cursor) : Bool :=
  let d := c.skipSpaces
  match d.rest with
  | [] => true
  | '\n' :: _ => true
  | '#' :: _ => d.col > c.col || c.col == 0
  | _ => false

def atMarker (c : Cursor) : Bool :=
  c.col == 0 &&
    match c.rest with
    | '-' :: '-' :: '-' :: r => blankOrEnd r
    | '.' :: '.' :: '.' :: r => blankOrEnd r
    | _ => false

def atEntry (c : Cursor) : Bool :=
  match c.rest with
  | '-' :: r => blankOrEnd r
  | _ => false

end Cursor

/-- The cursor at the next content of a block: past blanks, comments and empty lines. A line
indented with tabs is refused. -/
def skipToContent : Nat → Cursor → Except String Cursor
  | 0, _ => .error "input too long"
  | fuel + 1, c =>
    let d := c.skipSpaces
    let tabbed := c.col == 0 && (c.rest.takeWhile isSpace).contains '\t'
    match d.rest with
    | [] => .ok d
    | '\n' :: r => skipToContent fuel ⟨r, 0⟩
    | '#' :: _ =>
      if d.col > c.col || c.col == 0 then skipToContent fuel (d.skipTo (d.rest.dropWhile (· != '\n')))
      else .error "comment without a blank before it"
    | _ => if tabbed then .error "tab in indentation" else .ok d

/-- The cursor at the next token of a flow collection: past blanks, line breaks and comments. -/
def skipFlow : Nat → Cursor → Cursor
  | 0, c => c
  | fuel + 1, c =>
    let d := c.skipSpaces
    match d.rest with
    | '\n' :: r => skipFlow fuel ⟨r, 0⟩
    | '#' :: _ => skipFlow fuel (d.skipTo (d.rest.dropWhile (· != '\n')))
    | _ => d

def dropTrailingSpaces (cs : List Char) : List Char :=
  (cs.reverse.dropWhile isSpace).reverse

/-- Folds a line break inside a quoted scalar. `acc` holds the text so far reversed and `cs`
starts after the break: trailing blanks before the break and leading blanks after it go, and the
break becomes a space, or one line feed for each empty line that follows. -/
def foldBreak (acc : List Char) (cs : List Char) : Nat → List Char × List Char
  | 0 => (' ' :: acc.dropWhile isSpace, cs.dropWhile isSpace)
  | fuel + 1 =>
    match cs.dropWhile isSpace with
    | '\n' :: more =>
      let (acc', rest) := foldBreak acc more fuel
      match acc' with
      | ' ' :: a => ('\n' :: a, rest)
      | a => ('\n' :: a, rest)
    | rest => (' ' :: acc.dropWhile isSpace, rest)

/-- Reads a single-quoted scalar after its opening quote; a doubled quote stands for one. -/
def singleQuoted : Nat → List Char → List Char → Except String (String × List Char)
  | 0, _, _ => .error "input too long"
  | _ + 1, _, [] => .error "unterminated quoted scalar"
  | fuel + 1, acc, '\'' :: '\'' :: r => singleQuoted fuel ('\'' :: acc) r
  | _ + 1, acc, '\'' :: r => .ok (String.ofList acc.reverse, r)
  | fuel + 1, acc, '\n' :: r =>
    let (acc', rest) := foldBreak acc r r.length
    singleQuoted fuel acc' rest
  | fuel + 1, acc, c :: r => singleQuoted fuel (c :: acc) r

def hexDigits? (cs : List Char) : Option Nat :=
  cs.foldl (fun acc c => acc.bind fun n =>
    if '0' ≤ c ∧ c ≤ '9' then some (16 * n + (c.toNat - '0'.toNat))
    else if 'a' ≤ c ∧ c ≤ 'f' then some (16 * n + (c.toNat - 'a'.toNat + 10))
    else if 'A' ≤ c ∧ c ≤ 'F' then some (16 * n + (c.toNat - 'A'.toNat + 10))
    else none) (some 0)

/-- The character of a code point given by an escape, refusing surrogates and values past the
last code point. -/
def codePoint? (n : Nat) : Option Char :=
  if (0xD800 ≤ n ∧ n < 0xE000) ∨ n > 0x10FFFF then none else some (Char.ofNat n)

/-- The character a one-letter escape of a double-quoted scalar stands for. -/
def escapeOf? : Char → Option Char
  | '0' => some (Char.ofNat 0)
  | 'a' => some (Char.ofNat 7)
  | 'b' => some (Char.ofNat 8)
  | 't' => some '\t'
  | '\t' => some '\t'
  | 'n' => some '\n'
  | 'v' => some (Char.ofNat 11)
  | 'f' => some (Char.ofNat 12)
  | 'r' => some '\r'
  | 'e' => some (Char.ofNat 27)
  | ' ' => some ' '
  | '"' => some '"'
  | '/' => some '/'
  | '\\' => some '\\'
  | 'N' => some (Char.ofNat 0x85)
  | '_' => some (Char.ofNat 0xA0)
  | 'L' => some (Char.ofNat 0x2028)
  | 'P' => some (Char.ofNat 0x2029)
  | _ => none

def doubleQuoted : Nat → List Char → List Char → Except String (String × List Char)
  | 0, _, _ => .error "input too long"
  | _ + 1, _, [] => .error "unterminated quoted scalar"
  | _ + 1, acc, '"' :: r => .ok (String.ofList acc.reverse, r)
  | fuel + 1, acc, '\\' :: '\n' :: r => doubleQuoted fuel acc (r.dropWhile isSpace)
  | fuel + 1, acc, '\\' :: e :: r =>
    let width := if e == 'x' then 2 else if e == 'u' then 4 else if e == 'U' then 8 else 0
    if width > 0 then
      match (hexDigits? (r.take width)).bind codePoint? with
      | some c => if r.length < width then .error "short escape" else doubleQuoted fuel (c :: acc) (r.drop width)
      | none => .error "invalid escape"
    else
      match escapeOf? e with
      | some c => doubleQuoted fuel (c :: acc) r
      | none => .error "invalid escape"
  | fuel + 1, acc, '\n' :: r =>
    let (acc', rest) := foldBreak acc r r.length
    doubleQuoted fuel acc' rest
  | fuel + 1, acc, c :: r => doubleQuoted fuel (c :: acc) r

/-- Reads a quoted scalar at the cursor, which stands on its opening quote. -/
def quoted (fuel : Nat) (c : Cursor) : Except String (Yaml × Cursor) :=
  match c.rest with
  | '\'' :: r => (singleQuoted fuel [] r).map fun (s, rest) => (.scalar s false, c.skipTo rest)
  | '"' :: r => (doubleQuoted fuel [] r).map fun (s, rest) => (.scalar s false, c.skipTo rest)
  | _ => .error "expected a quoted scalar"

/-- Whether a character can start a plain scalar followed by `rest`: an indicator cannot,
except `-`, `?` and `:` right before a character that may go on the scalar. -/
def startsPlain (flow : Bool) (c : Char) (rest : List Char) : Bool :=
  if c == '-' || c == '?' || c == ':' then
    match rest with
    | d :: _ => !(isSpace d || d == '\n') && !(flow && isFlowIndicator d)
    | [] => false
  else !(isFlowIndicator c || c == '#' || c == '&' || c == '*' || c == '!' || c == '|' ||
    c == '>' || c == '\'' || c == '"' || c == '%' || c == '@' || c == '`' || isSpace c || c == '\n')

/-- The text of a plain scalar on one line and what follows it. It ends at the line's end, at a
comment, at a colon followed by a blank, and inside flow collections also at a flow indicator
or a colon before one. -/
def plainText (flow : Bool) (acc : List Char) : List Char → List Char × List Char
  | [] => (dropTrailingSpaces acc.reverse, [])
  | '\n' :: r => (dropTrailingSpaces acc.reverse, '\n' :: r)
  | ':' :: r =>
    let ends := match r with
      | [] => true
      | d :: _ => isSpace d || d == '\n' || (flow && isFlowIndicator d)
    if ends then (dropTrailingSpaces acc.reverse, ':' :: r) else plainText flow (':' :: acc) r
  | c :: r =>
    if flow && isFlowIndicator c then (dropTrailingSpaces acc.reverse, c :: r)
    else if isSpace c then
      match r.dropWhile isSpace with
      | '#' :: _ => (dropTrailingSpaces acc.reverse, c :: r)
      | _ => plainText flow (c :: acc) r
    else plainText flow (c :: acc) r

def plain (flow : Bool) (c : Cursor) : Yaml × Cursor :=
  let (text, rest) := plainText flow [] c.rest
  (.scalar (String.ofList text) true, c.skipTo rest)

mutual

def flowNode (fuel : Nat) (c : Cursor) : Except String (Yaml × Cursor) :=
  match fuel with
  | 0 => .error "input too long"
  | fuel + 1 =>
    let c := skipFlow fuel c
    match c.rest with
    | '[' :: _ => flowSeq fuel [] c.next
    | '{' :: _ => flowMap fuel [] c.next
    | '\'' :: _ | '"' :: _ => quoted fuel c
    | ch :: r => if startsPlain true ch r then .ok (plain true c) else .error "unexpected character"
    | [] => .error "unexpected end of a flow collection"

def flowSeq (fuel : Nat) (acc : List Yaml) (c : Cursor) : Except String (Yaml × Cursor) :=
  match fuel with
  | 0 => .error "input too long"
  | fuel + 1 =>
    let c := skipFlow fuel c
    match c.rest with
    | ']' :: _ => .ok (.seq acc.reverse, c.next)
    | _ => do
      let (item, c) ← flowNode fuel c
      let c := skipFlow fuel c
      match c.rest with
      | ',' :: _ => flowSeq fuel (item :: acc) c.next
      | ']' :: _ => return (.seq (item :: acc).reverse, c.next)
      | _ => throw "expected a comma or the end of the sequence"

/-- Reads the entries of a flow mapping after `{` or a comma; a key without a value maps to the
empty scalar. -/
def flowMap (fuel : Nat) (acc : List (Yaml × Yaml)) (c : Cursor) : Except String (Yaml × Cursor) :=
  match fuel with
  | 0 => .error "input too long"
  | fuel + 1 =>
    let c := skipFlow fuel c
    match c.rest with
    | '}' :: _ => .ok (.map acc.reverse, c.next)
    | _ => do
      let (key, c) ← flowNode fuel c
      let c := skipFlow fuel c
      let (value, c) ← match c.rest with
        | ':' :: _ =>
          let d := skipFlow fuel c.next
          match d.rest with
          | ',' :: _ | '}' :: _ => pure (empty, d)
          | _ => flowNode fuel d
        | _ => pure (empty, c)
      let c := skipFlow fuel c
      match c.rest with
      | ',' :: _ => flowMap fuel ((key, value) :: acc) c.next
      | '}' :: _ => return (.map ((key, value) :: acc).reverse, c.next)
      | _ => throw "expected a comma or the end of the mapping"

end

/-- Checks that nothing but blanks and a comment follows on the line. -/
def endLine (c : Cursor) : Except String Cursor :=
  if c.atLineEnd then .ok c else .error "unexpected content after a node"

/-- Whether a mapping value indicator, a colon followed by a blank, follows after blanks. -/
def colonNext (c : Cursor) : Option Cursor :=
  let d := c.skipSpaces
  match d.rest with
  | ':' :: r => if blankOrEnd r then some d.next else none
  | _ => none

/-- Reads a node that sits on one line: a flow collection, a quoted scalar or a plain scalar;
none of them may be followed by a mapping value indicator. -/
def inlineNode (fuel : Nat) (c : Cursor) : Except String (Yaml × Cursor) := do
  let (node, d) ← match c.rest with
    | '[' :: _ | '{' :: _ => flowNode fuel c
    | '\'' :: _ | '"' :: _ => quoted fuel c
    | ch :: r =>
      if ch == '-' && blankOrEnd r then throw "block sequence entries are not allowed here"
      else if startsPlain false ch r then pure (plain false c)
      else throw "unsupported node"
    | [] => pure (empty, c)
  if (colonNext d).isSome then throw "mapping values are not allowed here"
  return (node, ← endLine d)

/-- Reads a block mapping key at the cursor, a scalar on one line, and steps past its colon. -/
def blockKey (fuel : Nat) (c : Cursor) : Except String (Yaml × Cursor) := do
  let (key, d) ← match c.rest with
    | '\'' :: _ | '"' :: _ => quoted fuel c
    | ch :: r =>
      if startsPlain false ch r then pure (plain false c) else throw "could not find a mapping key"
    | [] => throw "could not find a mapping key"
  match colonNext d with
  | some e => return (key, e)
  | none => throw "could not find expected ':'"

mutual

/-- Reads a block node whose first character is at the cursor, nested deeper than `indent`. -/
def blockNode (fuel : Nat) (indent : Int) (c : Cursor) : Except String (Yaml × Cursor) :=
  match fuel with
  | 0 => .error "input too long"
  | fuel + 1 =>
    match c.rest with
    | '-' :: r =>
      if blankOrEnd r then blockSeq fuel c.col c
      else if startsPlain false '-' r then keyOrScalar fuel c
      else .error "unsupported node"
    | '[' :: _ | '{' :: _ => inlineNode fuel c
    | ch :: r =>
      if ch == '\'' || ch == '"' || startsPlain false ch r then keyOrScalar fuel c
      else .error "unsupported node"
    | [] => if indent < 0 then .ok (empty, c) else .error "unexpected end"

/-- Reads a scalar on one line, or a block mapping when a colon follows it. -/
def keyOrScalar (fuel : Nat) (c : Cursor) : Except String (Yaml × Cursor) :=
  match fuel with
  | 0 => .error "input too long"
  | fuel + 1 => do
    let (node, d) ← match c.rest with
      | '\'' :: _ | '"' :: _ => quoted fuel c
      | _ => pure (plain false c)
    match colonNext d with
    | some e =>
      let (value, e) ← blockValue fuel c.col e
      blockMapMore fuel c.col [(node, value)] e
    | none => return (node, ← endLine d)

/-- Reads a block mapping value after its key's colon, for a mapping at column `col`: on the
same line, below it more indented, a sequence at the mapping's own column, or nothing. -/
def blockValue (fuel : Nat) (col : Nat) (c : Cursor) : Except String (Yaml × Cursor) :=
  match fuel with
  | 0 => .error "input too long"
  | fuel + 1 =>
    if c.atLineEnd then do
      let n ← skipToContent fuel c
      if n.rest.isEmpty || n.atMarker then return (empty, n)
      else if n.col > col then blockNode fuel col n
      else if n.col == col && n.atEntry then blockSeq fuel col n
      else return (empty, n)
    else inlineNode fuel c.skipSpaces

/-- Reads further entries of a block mapping at column `col`, the ones read so far reversed in
`acc`. -/
def blockMapMore (fuel : Nat) (col : Nat) (acc : List (Yaml × Yaml)) (c : Cursor) : Except String (Yaml × Cursor) :=
  match fuel with
  | 0 => .error "input too long"
  | fuel + 1 => do
    let c ← skipToContent fuel c
    if c.rest.isEmpty || c.atMarker || c.col < col then return (.map acc.reverse, c)
    else if c.col > col then throw "bad indentation of a mapping entry"
    else
      let (key, c) ← blockKey fuel c
      let (value, c) ← blockValue fuel col c
      blockMapMore fuel col ((key, value) :: acc) c

/-- Reads the entries of a block sequence at column `col`, starting at one. -/
def blockSeq (fuel : Nat) (col : Nat) (c : Cursor) : Except String (Yaml × Cursor) :=
  match fuel with
  | 0 => .error "input too long"
  | fuel + 1 => do
    let (item, c) ← seqItem fuel col c.next
    blockSeqMore fuel col [item] c

def seqItem (fuel : Nat) (col : Nat) (c : Cursor) : Except String (Yaml × Cursor) :=
  match fuel with
  | 0 => .error "input too long"
  | fuel + 1 =>
    if c.atLineEnd then do
      let n ← skipToContent fuel c
      if n.rest.isEmpty || n.atMarker || n.col ≤ col then return (empty, n)
      else blockNode fuel col n
    else blockNode fuel col c.skipSpaces

/-- Reads further entries of a block sequence at column `col`, the ones read so far reversed in
`acc`. -/
def blockSeqMore (fuel : Nat) (col : Nat) (acc : List Yaml) (c : Cursor) : Except String (Yaml × Cursor) :=
  match fuel with
  | 0 => .error "input too long"
  | fuel + 1 => do
    let c ← skipToContent fuel c
    if c.rest.isEmpty || c.atMarker || c.col < col then return (.seq acc.reverse, c)
    else if c.col > col then throw "bad indentation of a sequence entry"
    else if c.atEntry then
      let (item, c) ← seqItem fuel col c.next
      blockSeqMore fuel col (item :: acc) c
    else return (.seq acc.reverse, c)

end

/-- Line breaks as line feeds: a carriage return, alone or before a line feed, becomes one. -/
def normalizeBreaks : List Char → List Char
  | [] => []
  | '\r' :: '\n' :: r => '\n' :: normalizeBreaks r
  | '\r' :: r => '\n' :: normalizeBreaks r
  | c :: r => c :: normalizeBreaks r

def read (text : String) : Except String Yaml := do
  let cs := match normalizeBreaks text.toList with
    | b :: r => if b.toNat == 0xFEFF then r else b :: r
    | [] => []
  let fuel := 4 * cs.length + 16
  let c ← skipToContent fuel ⟨cs, 0⟩
  if c.col == 0 && c.rest.head? == some '%' then throw "directives are not supported"
  -- an explicit document start, possibly with the document's node on the same line
  let c ← match c.rest with
    | '-' :: '-' :: '-' :: r =>
      if c.atMarker then
        let d := (c.skipTo r).skipSpaces
        if d.atLineEnd then skipToContent fuel d else pure d
      else pure c
    | _ => pure c
  let (root, c) ← if c.rest.isEmpty || c.atMarker then pure (empty, c) else blockNode fuel (-1) c
  let c ← skipToContent fuel c
  let c ← match c.rest with
    | '.' :: '.' :: '.' :: r => if c.atMarker then skipToContent fuel (c.skipTo r) else pure c
    | _ => pure c
  if c.rest.isEmpty then return root else throw "more than one document, or content after the document"

end Yaml

end ScopedUndo
