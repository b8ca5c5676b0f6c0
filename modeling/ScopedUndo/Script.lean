import ScopedUndo.Text.Blank
import ScopedUndo.Text.Number
import ScopedUndo.Text.Lower
import ScopedUndo.Cli.Error
/-!
# Ledger scripts

A script holds one statement a line. A `#` starts a comment that runs to the end of the line, and
lines left blank are skipped. A statement is a keyword, in any case, followed by words; a
trailing `&` submits the statement without waiting for it.

Keywords with a fixed number of arguments (`set`, `add`, `get`, `jump`, `limit`) refuse any other
number; the rest ignore the words they do not use. `stack` takes its first word, and `undo`,
`redo` and `queued` take all their words joined by single spaces.
-/

namespace ScopedUndo

open Text Cli

inductive Statement where
  | set (scope account : String) (value : Int)
  | add (scope account : String) (delta : Int)
  | get (scope account : String)
  /-- Undo, of the active stack or of the stack touched last among those whose next undo falls in
  the named scopes. -/
  | undo (scopes : Option String)
  | redo (scopes : Option String)
  /-- Walk the active stack to just after an index, or to the start. -/
  | jump (index : Option Nat)
  /-- Switch to a stack, the default one without an id. -/
  | stack (id : Option String)
  | limit (limit : Nat)
  | history
  | queued (scopes : Option String)
  /-- Wait for everything submitted in the background. -/
  | wait
  | balances
  | clear
  | scopes
  deriving DecidableEq, Repr

/-- A statement with its line number, counted from 1, and whether it runs in the background. -/
structure ScriptLine where
  line : Nat
  statement : Statement
  background : Bool
  deriving DecidableEq, Repr

namespace Script

/-- The lines of a text: cut at each line feed, with the carriage return before a line feed
dropped. A final line feed ends the last line rather than starting an empty one. -/
def lines (s : String) : List String :=
  let cut := s.splitOn "\n"
  let ended := cut.dropLast.map fun l =>
    if l.endsWith "\r" then String.ofList l.toList.dropLast else l
  match cut.getLast? with
  | some "" | none => ended
  | some last => ended ++ [last]

def uncommented (raw : String) : String :=
  String.ofList (raw.toList.takeWhile (· != '#'))

/-- A line's statement text without its comment and outer blanks, then without a trailing `&`
and the blanks before it; and whether the `&` was there. -/
def body (raw : String) : String × Bool :=
  let text := trim (uncommented raw)
  if text.toList.getLast? = some '&' then (trimEnd (String.ofList text.toList.dropLast), true)
  else (text, false)

/-- The failure of a keyword given `args` where it takes `n` arguments. -/
def arity (line : Nat) (keyword : String) (n : Nat) (args : List String) : CliError :=
  .script line s!"'{keyword}' takes {n} argument(s), got {args.length}"

def number (line : Nat) (text : String) : Except CliError Int :=
  match readInt64? text with
  | some i => .ok i
  | none => .error (.script line s!"invalid number '{text}'")

/-- All the words joined by single spaces, or nothing when there are none. -/
def rest (args : List String) : Option String :=
  if args.isEmpty then none else some (" ".intercalate args)

def statement (line : Nat) (keyword : String) (args : List String) :
    Except CliError Statement := do
  match keyword with
  | "set" =>
    match args with
    | [scope, account, value] => return .set scope account (← number line value)
    | _ => throw (arity line keyword 3 args)
  | "add" =>
    match args with
    | [scope, account, delta] => return .add scope account (← number line delta)
    | _ => throw (arity line keyword 3 args)
  | "get" =>
    match args with
    | [scope, account] => return .get scope account
    | _ => throw (arity line keyword 2 args)
  | "undo" => return .undo (rest args)
  | "redo" => return .redo (rest args)
  | "jump" =>
    match args with
    | [index] =>
      if index.toLower == "none" then return .jump none
      else match readNat? sizeMax index with
        | some i => return .jump (some i)
        | none => throw (.script line s!"invalid index '{index}'")
    | _ => throw (arity line keyword 1 args)
  | "stack" => return .stack args.head?
  | "limit" =>
    match args with
    | [limit] =>
      match readNat? sizeMax limit with
      | some n => return .limit n
      | none => throw (.script line s!"invalid limit '{limit}'")
    | _ => throw (arity line keyword 1 args)
  | "history" => return .history
  | "queued" => return .queued (rest args)
  | "wait" => return .wait
  | "balances" => return .balances
  | "clear" => return .clear
  | "scopes" => return .scopes
  | other => throw (.script line s!"unknown command '{other}'")

/-- Parses one line, numbered `line`; blank and comment lines give nothing. -/
def parseLine (line : Nat) (raw : String) : Except CliError (Option ScriptLine) := do
  if (trim (uncommented raw)).isEmpty then return none
  let (text, background) := body raw
  let (keyword, args) := match words text with
    | [] => ("", [])
    | w :: ws => (lower w, ws)
  return some { line := line, statement := ← statement line keyword args, background := background }

/-- Parses lines numbered from `line` on, stopping at the first line that does not parse. -/
def parseFrom (line : Nat) : List String → Except CliError (List ScriptLine)
  | [] => .ok []
  | raw :: more => do
    let here ← parseLine line raw
    let later ← parseFrom (line + 1) more
    return here.toList ++ later

def parse (source : String) : Except CliError (List ScriptLine) :=
  parseFrom 1 (lines source)

end Script

end ScopedUndo
