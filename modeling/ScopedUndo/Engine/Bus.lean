import ScopedUndo.Engine.Basic
/-!
# Reading the event bus

A subscriber reads every event published since its last read. The bus keeps only the latest
events, as many as the configured capacity rounded up to a power of two; a subscriber that fell
further behind learns how many it lost, once, before the events that were kept.
-/

namespace ScopedUndo

def powerOfTwoAtLeast (n : Nat) : Nat :=
  if n ≤ 1 then 1 else Nat.pow 2 (Nat.log2 (n - 1) + 1)

inductive Delivery where
  | event (e : EngineEvent)
  /-- This many events were lost. -/
  | lagged (count : Nat)
  deriving DecidableEq, Repr

structure Subscription where
  seen : Nat := 0
  deriving DecidableEq, Repr

namespace Subscription

/-- Reads what was published since the last read, and moves past it. -/
def read {α : Type} (sub : Subscription) (e : Engine α) : Subscription × List Delivery :=
  let fresh := e.events.drop sub.seen
  let room := powerOfTwoAtLeast e.capacity
  let deliveries :=
    if fresh.length > room then
      .lagged (fresh.length - room) :: (fresh.drop (fresh.length - room)).map .event
    else fresh.map .event
  ({ seen := e.events.length }, deliveries)

end Subscription

end ScopedUndo
