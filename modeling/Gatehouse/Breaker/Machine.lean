import Gatehouse.Breaker.State
import Gatehouse.Time

/-!
# The state machine of a circuit breaker

A plain state machine that is told the time. Consecutive failures open a closed breaker; after the
open interval it is half-open and lets a bounded number of trial calls through; a trial that
succeeds closes it, one that fails opens it again. Every change of state starts a new generation
with fresh counts, and so does the end of a counting window while closed. An admission remembers
its generation, and verdicts of earlier generations are discarded.

* `Machine.acquire`, `Machine.record`, `Machine.abandon`: the life of a call.
* `Machine.refresh`: the changes that time alone brings.
* `Machine.takeTransitions`: the changes of state since it was last asked.
-/

namespace Gatehouse.Breaker

def countLimit : Nat := 4294967295

def countUp (n : Nat) : Nat := min (n + 1) countLimit

structure Counts where
  requests : Nat
  totalSuccesses : Nat
  totalFailures : Nat
  consecutiveSuccesses : Nat
  consecutiveFailures : Nat
  deriving DecidableEq, Repr

namespace Counts

def zero : Counts := ⟨0, 0, 0, 0, 0⟩

def onRequest (c : Counts) : Counts := { c with requests := countUp c.requests }

def onSuccess (c : Counts) : Counts :=
  { c with
    totalSuccesses := countUp c.totalSuccesses
    consecutiveSuccesses := countUp c.consecutiveSuccesses
    consecutiveFailures := 0 }

def onFailure (c : Counts) : Counts :=
  { c with
    totalFailures := countUp c.totalFailures
    consecutiveFailures := countUp c.consecutiveFailures
    consecutiveSuccesses := 0 }

end Counts

structure Settings where
  failureThreshold : UInt32
  openInterval : Nat
  halfOpenMaxCalls : UInt32
  /-- The counts of a closed breaker are cleared after each window, where there is one. -/
  window : Option Nat
  deriving DecidableEq, Repr

def Settings.standard : Settings := ⟨5, Duration.ofSeconds 30, 1, none⟩

/-- What a finished call says about the dependency. -/
inductive Verdict where
  | success
  | failure
  /-- Neither: the call is forgotten. -/
  | ignored
  deriving DecidableEq, Repr

/-- Proof that a call was admitted. -/
structure Admission where
  generation : UInt64
  trial : Bool
  deriving DecidableEq, Repr

inductive Refusal where
  | opened
  | tooManyTrials
  deriving DecidableEq, Repr

/-- A breaker's state machine. Each change of state begins a new generation with counts of its own.
-/
structure Machine where
  settings : Settings
  state : State
  generation : UInt64
  counts : Counts
  /-- When time alone ends the generation. -/
  expiry : Option Nat
  /-- Trial calls of this generation that have not been resolved. -/
  trialsInFlight : Nat
  /-- Changes of state that nobody has taken yet, oldest first. -/
  transitions : List Transition
  deriving DecidableEq, Repr

namespace Machine

/-- When a generation that starts now in state `s` ends by itself. -/
def expiryOf (settings : Settings) (s : State) (now : Nat) : Option Nat :=
  match s with
  | .closed => settings.window.map fun window => now + window
  | .opened => some (now + settings.openInterval)
  | .halfOpen => none

def newGeneration (m : Machine) (now : Nat) : Machine :=
  { m with
    generation := m.generation + 1
    counts := .zero
    trialsInFlight := 0
    expiry := expiryOf m.settings m.state now }

def create (settings : Settings) (now : Nat) : Machine :=
  newGeneration ⟨settings, .closed, 0, .zero, none, 0, []⟩ now

def setState (m : Machine) (next : State) (now : Nat) : Machine :=
  if m.state = next then m
  else
    let moved := newGeneration { m with state := next } now
    { moved with transitions := moved.transitions ++ [⟨m.state, next⟩] }

def expired (m : Machine) (now : Nat) : Bool :=
  match m.expiry with
  | some expiry => expiry ≤ now
  | none => false

/-- The machine after what time alone brings: the next window, or the end of the open interval. -/
def refresh (m : Machine) (now : Nat) : Machine :=
  if m.expired now then
    match m.state with
    | .closed => m.newGeneration now
    | .opened => m.setState .halfOpen now
    | .halfOpen => m
  else m

def acquire (m : Machine) (now : Nat) : Except Refusal Admission × Machine :=
  let m := m.refresh now
  match m.state with
  | .opened => (.error .opened, m)
  | .halfOpen =>
    if m.settings.halfOpenMaxCalls.toNat ≤ m.trialsInFlight then (.error .tooManyTrials, m)
    else
      (.ok ⟨m.generation, true⟩,
        { m with trialsInFlight := m.trialsInFlight + 1, counts := m.counts.onRequest })
  | .closed => (.ok ⟨m.generation, false⟩, { m with counts := m.counts.onRequest })

/-- Gives the place of a trial back. -/
def settleTrial (m : Machine) (a : Admission) : Machine :=
  if a.trial then { m with trialsInFlight := m.trialsInFlight - 1 } else m

def onSuccess (m : Machine) (now : Nat) : Machine :=
  let m := { m with counts := m.counts.onSuccess }
  match m.state with
  | .halfOpen => m.setState .closed now
  | _ => m

def onFailure (m : Machine) (now : Nat) : Machine :=
  let m := { m with counts := m.counts.onFailure }
  match m.state with
  | .closed =>
    if m.settings.failureThreshold.toNat ≤ m.counts.consecutiveFailures then m.setState .opened now
    else m
  | .halfOpen => m.setState .opened now
  | .opened => m

/-- Takes in the verdict of an admitted call. Only the present generation counts. -/
def record (m : Machine) (a : Admission) (v : Verdict) (now : Nat) : Machine :=
  let m := m.refresh now
  if a.generation = m.generation then
    let m := m.settleTrial a
    match v with
    | .success => m.onSuccess now
    | .failure => m.onFailure now
    | .ignored => m
  else m

/-- Forgets an admitted call that came to no verdict. -/
def abandon (m : Machine) (a : Admission) : Machine :=
  if a.generation = m.generation then m.settleTrial a else m

/-- The changes of state since this was last asked, oldest first. -/
def takeTransitions (m : Machine) : List Transition × Machine :=
  (m.transitions, { m with transitions := [] })

end Machine

end Gatehouse.Breaker
