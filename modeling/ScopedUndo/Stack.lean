import ScopedUndo.Command
/-!
# Stacks

A stack is a command history with a cursor: the first `applied` commands are done, the rest are
undone and can be redone. Pushing discards the undone tail; trimming to a limit first drops the
undone tail if the done part alone overflows, then the oldest done commands. `touched` is the
sequence number of the stack's last change, which orders stacks for filtered undo.
-/

namespace ScopedUndo

/-- The stack every engine starts with unless configured otherwise. -/
def defaultStackId : String := "default"

structure Stack (α : Type) where
  id : String
  commands : List (Command α) := []
  applied : Nat := 0
  touched : Nat := 0
  deriving Repr

structure Stack.Entry where
  index : Nat
  command : Nat
  text : String
  scope : Scope
  undone : Bool
  deriving DecidableEq, Repr

namespace Stack

variable {α : Type}

def empty (id : String) : Stack α := { id }

def count (s : Stack α) : Nat := s.commands.length

def canStepForward (s : Stack α) : Bool := s.applied < s.count

def canStepBackward (s : Stack α) : Bool := 0 < s.applied

def currentIndex (s : Stack α) : Option Nat :=
  if s.applied = 0 then none else some (s.applied - 1)

def undoCommand? (s : Stack α) : Option (Command α) :=
  if s.applied = 0 then none else s.commands[s.applied - 1]?

def redoCommand? (s : Stack α) : Option (Command α) :=
  s.commands[s.applied]?

def push (s : Stack α) (c : Command α) : Stack α :=
  { s with commands := s.commands.take s.applied ++ [c], applied := s.applied + 1 }

/-- Moves the cursor over the next undone command, when there is one. -/
def stepForward (s : Stack α) : Stack α × Bool :=
  if s.applied < s.count then ({ s with applied := s.applied + 1 }, true) else (s, false)

/-- Moves the cursor back over the last done command, when there is one. -/
def stepBackward (s : Stack α) : Stack α × Bool :=
  if 0 < s.applied then ({ s with applied := s.applied - 1 }, true) else (s, false)

/-- Trims the history to at most `limit` commands (0 means no limit) and gives how many were
dropped: the undone tail goes first when the done part alone exceeds the limit, then the oldest
commands, which moves the cursor back by as many. -/
def truncate (s : Stack α) (limit : Nat) : Stack α × Nat :=
  if limit = 0 ∨ s.count ≤ limit then (s, 0)
  else
    let s₁ := if s.count - limit > s.applied then { s with commands := s.commands.take s.applied }
      else s
    let tail := s.count - s₁.count
    if s₁.count > limit then
      let excess := s₁.count - limit
      ({ s₁ with commands := s₁.commands.drop excess, applied := s₁.applied - excess },
        tail + excess)
    else (s₁, tail)

def clear (s : Stack α) : Stack α :=
  { s with commands := [], applied := 0 }

def touch (s : Stack α) (sequence : Nat) : Stack α :=
  { s with touched := sequence }

def texts (s : Stack α) : List String := s.commands.map (·.text)

def textAt? (s : Stack α) (i : Nat) : Option String := (s.commands[i]?).map (·.text)

def entries (s : Stack α) : List Entry :=
  s.commands.zipIdx.map fun (c, i) =>
    { index := i, command := c.id, text := c.text, scope := c.scope, undone := s.applied ≤ i }

end Stack

end ScopedUndo
