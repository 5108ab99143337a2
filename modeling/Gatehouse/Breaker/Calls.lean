import Gatehouse.Breaker.Basic

/-!
# A breaker and its calls

A breaker together with the calls it has admitted, numbered in the order in which they were. A
call can be ended once.

* `Calls.acquire`: a new call, or the state of the breaker that refused it.
* `Calls.finish`: ends a call that is still open.
-/

namespace Gatehouse.Breaker

open Http

inductive Ending where
  | verdict (v : Verdict)
  | outcome (o : Outcome)
  | dropped
  | panicked

/-- A breaker in virtual time, and the calls that it admitted: `none` for one that has ended. -/
structure Calls where
  now : Nat
  breaker : CircuitBreaker
  calls : List (Option Admission)
  journal : Journal

namespace Calls

def start (b : CircuitBreaker) : Calls := ⟨0, b, [], []⟩

def keep (c : Calls) (after : CircuitBreaker × Journal) : Calls :=
  { c with breaker := after.1, journal := c.journal ++ after.2 }

def acquire (c : Calls) : Except State Nat × Calls :=
  let (answer, after) := c.breaker.tryAcquire c.now
  match answer with
  | .ok admission =>
    (.ok c.calls.length, { c.keep after with calls := c.calls ++ [some admission] })
  | .error s => (.error s, c.keep after)

def close (b : CircuitBreaker) (a : Admission) (now : Nat) : Ending → CircuitBreaker × Journal
  | .verdict v => b.record a v now
  | .outcome o => b.recordOutcome a o now
  | .dropped => b.drop a
  | .panicked => b.dropPanicking a now

/-- Ends a call. `none` where there is no such call or it has ended before. -/
def finish (c : Calls) (call : Nat) (ending : Ending) : Option Calls :=
  match c.calls[call]? with
  | some (some admission) =>
    let after := close c.breaker admission c.now ending
    some { c.keep after with calls := c.calls.set call none }
  | _ => none

def state (c : Calls) : State × Calls :=
  let (s, after) := c.breaker.state c.now
  (s, c.keep after)

def counts (c : Calls) : Counts × Calls :=
  let (n, after) := c.breaker.counts c.now
  (n, c.keep after)

def subscribe (c : Calls) : Nat × Calls :=
  let (subscriber, b) := c.breaker.subscribe
  (subscriber, { c with breaker := b })

def receive (c : Calls) (subscriber : Nat) : Option (Received Transition) × Calls :=
  let (message, b) := c.breaker.receive subscriber
  (message, { c with breaker := b })

def read (c : Calls) (subscriber : Nat) : List (Received Transition) × Calls :=
  let (received, b) := c.breaker.read subscriber
  (received, { c with breaker := b })

/-- Lets time pass. No timer runs: time shows at the next operation. -/
def advance (c : Calls) (d : Nat) : Calls := { c with now := c.now + d }

end Calls

end Gatehouse.Breaker
