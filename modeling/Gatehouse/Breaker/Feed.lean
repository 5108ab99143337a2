/-!
# A feed of events with a bounded memory

A subscriber receives the events that are published after it subscribed. The feed keeps the newest
`capacity` of them for a subscriber that does not read; one that falls further behind is told how
many events it lost and goes on with the oldest that is kept.

* `Feed.publish`, `Feed.subscribe`: an event for everybody, and one more subscriber.
* `Feed.receive`, `Feed.read`: the next message of a subscriber, and all that it can receive now.
-/

namespace Gatehouse.Breaker

/-- The events that are kept for a subscriber that does not read. -/
def Feed.capacity : Nat := 16

/-- What a subscriber is handed: an event, or the number of events it lost. -/
inductive Received (α : Type) where
  | event (value : α)
  | lagged (lost : Nat)
  deriving DecidableEq, Repr

/-- Everything published so far, oldest first, and for each subscriber how much of it the
subscriber has passed. -/
structure Feed (α : Type) where
  published : List α
  positions : List Nat
  deriving Repr

namespace Feed

variable {α : Type}

def empty : Feed α := ⟨[], []⟩

def publish (f : Feed α) (event : α) : Feed α :=
  { f with published := f.published ++ [event] }

/-- A new subscriber, known by its number, that will see what is published from now on. -/
def subscribe (f : Feed α) : Nat × Feed α :=
  (f.positions.length, { f with positions := f.positions ++ [f.published.length] })

def deliver (unread : List α) : List (Received α) :=
  if capacity < unread.length then
    .lagged (unread.length - capacity) :: (unread.drop (unread.length - capacity)).map .event
  else unread.map .event

/-- The next message of a subscriber, `none` where it has to wait for one. A subscriber that has
fallen too far behind is told so, and goes on with the oldest event that is kept. -/
def receive (f : Feed α) (subscriber : Nat) : Option (Received α) × Feed α :=
  match f.positions[subscriber]? with
  | none => (none, f)
  | some position =>
    let unread := f.published.drop position
    if capacity < unread.length then
      (some (.lagged (unread.length - capacity)),
        { f with positions := f.positions.set subscriber (f.published.length - capacity) })
    else
      match unread with
      | [] => (none, f)
      | event :: _ =>
        (some (.event event), { f with positions := f.positions.set subscriber (position + 1) })

/-- Everything that a subscriber can receive now. A number that was not given out receives
nothing. -/
def read (f : Feed α) (subscriber : Nat) : List (Received α) × Feed α :=
  match f.positions[subscriber]? with
  | none => ([], f)
  | some position =>
    (deliver (f.published.drop position),
      { f with positions := f.positions.set subscriber f.published.length })

end Feed

end Gatehouse.Breaker
