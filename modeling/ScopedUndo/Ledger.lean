import ScopedUndo.Command
/-!
# The ledger

Account balances keyed by scope name and account, and the three commands on them. `set`
overwrites a balance and `add` adds to it, opening a missing account at zero; both remember the
balance their last forward run overwrote, and their reverse restores it. `get` is a query. A sum
outside a signed 64-bit word is refused and changes nothing.
-/

namespace ScopedUndo

abbrev Account := String × String

inductive Entry where
  | set (account : Account) (value : Int)
  | add (account : Account) (delta : Int)
  | get (account : Account)
  deriving DecidableEq, Repr

namespace Entry

def account : Entry → Account
  | set a _ => a
  | add a _ => a
  | get a => a

def text : Entry → String
  | set (s, a) v => "set " ++ s ++ " " ++ a ++ " = " ++ Text.signed v
  | add (s, a) d => "add " ++ s ++ " " ++ a ++ " " ++ Text.withSign d
  | get (s, a) => "get " ++ s ++ " " ++ a

def kind : Entry → Kind
  | get _ => .query
  | _ => .mutating

/-- How the entry reaches the command builder: `get` as a forward closure, the others as one
action object. -/
def supplied : Entry → Supplied
  | get _ => { forward := true }
  | _ => { whole := true }

end Entry

/-- Balances, and per command the balance its last forward run overwrote. -/
structure Ledger where
  balances : List (Account × Int) := []
  snapshots : List (Nat × Option Int) := []
  deriving Repr

namespace Ledger

def balance? (l : Ledger) (a : Account) : Option Int :=
  (l.balances.find? (·.1 == a)).map (·.2)

def put (l : Ledger) (a : Account) : Option Int → Ledger
  | some v =>
    if l.balances.any (·.1 == a) then
      { l with balances := l.balances.map fun (k, w) => if k == a then (k, v) else (k, w) }
    else { l with balances := l.balances ++ [(a, v)] }
  | none => { l with balances := l.balances.filter (·.1 != a) }

def before (x y : Account × Int) : Bool :=
  x.1.1 < y.1.1 || (x.1.1 == y.1.1 && x.1.2 ≤ y.1.2)

def snapshot (l : Ledger) : List (Account × Int) :=
  l.balances.mergeSort before

/-- The balance a command's last forward run overwrote: `none` when it never ran forward. -/
def snapshotOf? (l : Ledger) (command : Nat) : Option (Option Int) :=
  (l.snapshots.find? (·.1 == command)).map (·.2)

def remember (l : Ledger) (command : Nat) (previous : Option Int) : Ledger :=
  { l with snapshots := (command, previous) :: l.snapshots.filter (·.1 != command) }

def amount : Option Int → Value
  | some v => .int v
  | none => .null

/-- The reverse of `set` and `add`: the overwritten balance comes back. -/
def restore (l : Ledger) (command : Nat) (a : Account) : Ledger × List ProgressEvent × Outcome :=
  match l.snapshotOf? command with
  | some previous => (l.put a previous, [], .ok (amount previous))
  | none => (l, [], .fail (.executionFailed (a.1 ++ " " ++ a.2) "nothing recorded to restore"))

def run (l : Ledger) (c : Command Entry) (d : Direction) : Ledger × List ProgressEvent × Outcome :=
  match c.action, d with
  | .set a v, .forward =>
    let previous := l.balance? a
    ((l.put a (some v)).remember c.id previous, [], .ok (.int v))
  | .add a delta, .forward =>
    let current := l.balance? a
    let updated := current.getD 0 + delta
    if Text.fitsInt64 updated then
      ((l.put a (some updated)).remember c.id current,
        [.started, .text (a.1 ++ " " ++ a.2 ++ " = " ++ Text.signed updated), .finished],
        .ok (.int updated))
    else (l, [.started], .fail (.executionFailed ("add " ++ a.1 ++ " " ++ a.2) "balance overflow"))
  | .get a, .forward =>
    match l.balance? a with
    | some v => (l, [], .ok (.int v))
    | none => (l, [], .fail (.executionFailed c.text ("no account '" ++ a.2 ++ "' in scope '" ++ a.1 ++ "'")))
  | .get _, .reverse => (l, [], .ok .null)
  | .set a _, .reverse => l.restore c.id a
  | .add a _, .reverse => l.restore c.id a

end Ledger

end ScopedUndo
