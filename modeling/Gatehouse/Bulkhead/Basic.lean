import Gatehouse.Scope.Basic
import Gatehouse.Telemetry.Journal

/-!
# Bulkheads

A bulkhead bounds the calls in flight to its capacity. A caller takes a ticket; the ticket is
reserved a slot at once if one is free, and otherwise waits in line. A slot that is given back goes
to the first ticket in line without becoming free in between. A wait ends with the slot, at the
acquire timeout, or with the caller's scope, and is looked at in this order.

The slots are kept apart from the count of the calls in flight. Who has taken a slot steps the count
and then publishes what it has come to; who gives one back does both before the slot is free.

* `Bulkhead.enter`, `Bulkhead.take?`, `Bulkhead.handBack`, `Bulkhead.withdraw`: the life of a slot.
* `Bulkhead.countIn`, `Bulkhead.countOut`, `Bulkhead.publish`: the count and what is told of it.
* `Bulkhead.look`: what a waiting ticket has come to at an instant.
* `Bulkhead.poll`, `Bulkhead.release`: a look and an end that nobody else comes between.
-/

namespace Gatehouse

/-- A limit on the work in progress, with a line of those who wait for a slot. -/
structure Bulkhead where
  capacity : Nat
  acquireTimeout : Nat
  /-- Slots that nobody holds or has been promised. -/
  available : Nat
  inFlight : Nat
  /-- Tickets with a slot that has not been taken up yet. -/
  reserved : List Nat
  /-- Tickets in line, the first to be served in front. -/
  waiting : List Nat
  issued : Nat
  deriving DecidableEq, Repr

namespace Bulkhead

inductive Refusal where
  | full (capacity : Nat)
  | ended (cause : Cause)
  deriving DecidableEq, Repr

def Refusal.message : Refusal → String
  | .full capacity => s!"bulkhead full ({capacity} in flight)"
  | .ended cause => cause.message

def maxCapacity : Nat := 2305843009213693951

/-- A bulkhead with every slot free, where its capacity can be managed. -/
def create? (capacity acquireTimeout : Nat) : Option Bulkhead :=
  if capacity ≤ maxCapacity then some ⟨capacity, acquireTimeout, capacity, 0, [], [], 0⟩ else none

/-- Takes a ticket: it is reserved a free slot, or it joins the line. -/
def enter (b : Bulkhead) : Nat × Bulkhead :=
  let b' := { b with issued := b.issued + 1 }
  if 0 < b.available then
    (b.issued, { b' with available := b.available - 1, reserved := b.reserved ++ [b.issued] })
  else (b.issued, { b' with waiting := b.waiting ++ [b.issued] })

/-- Takes up the slot that is reserved for a ticket. -/
def take? (b : Bulkhead) (ticket : Nat) : Option Bulkhead :=
  if b.reserved.contains ticket then some { b with reserved := b.reserved.erase ticket } else none

/-- Gives a slot back: it goes to the first ticket in line, or becomes free. -/
def handBack (b : Bulkhead) : Bulkhead :=
  match b.waiting with
  | [] => { b with available := b.available + 1 }
  | ticket :: rest => { b with waiting := rest, reserved := b.reserved ++ [ticket] }

/-- Gives a ticket up that has not taken its slot. -/
def withdraw (b : Bulkhead) (ticket : Nat) : Bulkhead :=
  if b.reserved.contains ticket then
    handBack { b with reserved := b.reserved.erase ticket }
  else { b with waiting := b.waiting.erase ticket }

/-- Counts one more call in flight, and tells how many there are now. -/
def countIn (b : Bulkhead) : Nat × Bulkhead :=
  (b.inFlight + 1, { b with inFlight := b.inFlight + 1 })

def countOut (b : Bulkhead) : Nat × Bulkhead :=
  (b.inFlight - 1, { b with inFlight := b.inFlight - 1 })

/-- What is told of a count. -/
def publish (count : Nat) : Journal := [.measure (.bulkheadInFlight count)]

inductive Progress where
  | waits
  | holds
  | refused (reason : Refusal)
  deriving DecidableEq, Repr

/-- Looks at a ticket at an instant: first for its slot, then for the acquire timeout, which ends
the wait at `deadline`, then for the end of the scope. A wait that ends without a slot gives its
ticket up. Who has its slot is not counted yet. -/
def look (b : Bulkhead) (ticket deadline now : Nat) (cause : Option Cause) : Progress × Bulkhead :=
  match b.take? ticket with
  | some b => (.holds, b)
  | none =>
    if deadline ≤ now then (.refused (.full b.capacity), b.withdraw ticket)
    else match cause with
      | some cause => (.refused (.ended cause), b.withdraw ticket)
      | none => (.waits, b)

/-- Looks at a ticket, and counts and publishes the slot if it has one. -/
def poll (b : Bulkhead) (ticket deadline now : Nat) (cause : Option Cause) :
    Progress × Bulkhead × Journal :=
  match b.look ticket deadline now cause with
  | (.holds, b) =>
    let (count, b) := b.countIn
    (.holds, b, publish count)
  | (progress, b) => (progress, b, [])

/-- Counts and publishes the end of a call, and gives its slot back. -/
def release (b : Bulkhead) : Bulkhead × Journal :=
  let (count, b) := b.countOut
  (b.handBack, publish count)

end Bulkhead

end Gatehouse
