import Gatehouse.Breaker.Feed
import Gatehouse.Breaker.Machine
import Gatehouse.Http.Message
import Gatehouse.Telemetry.Journal

/-!
# Circuit breakers

A named breaker: the state machine, a policy that turns outcomes into verdicts, and a feed of its
changes of state. Every operation works on the machine first and then publishes the changes that
the machine made: a log event, a count of the change, the level of the new state, and an event on
the feed. The two halves are functions of their own, `locked` and `publish`.

* `CircuitBreaker.tryAcquire`: asks for a call, and tells the state if it is refused.
* `CircuitBreaker.record`, `recordOutcome`, `drop`, `dropPanicking`: the ways a call ends.
* `serverFaults`: the policy that counts the faults of the server only.
-/

namespace Gatehouse.Breaker

open Http

/-- What counts as a failure. -/
abbrev Policy := Outcome → Verdict

/-- Counts the faults of the server. A fault of the client is a success, the dependency answered
it correctly; rejections and abandoned requests are ignored. -/
def serverFaults : Policy
  | .ok response => if isServerError response.status then .failure else .success
  | .error failure =>
    match failure.kind with
    | .internal | .unavailable | .panicRecovered => .failure
    | .clientInput => .success
    | .rateLimited | .bulkheadFull | .breakerOpen | .deadlineExceeded | .cancelled => .ignored

/-- A named breaker: what counts as a failure, the state machine, and who is told of its
transitions. -/
structure CircuitBreaker where
  name : String
  policy : Policy
  machine : Machine
  feed : Feed Transition

namespace CircuitBreaker

/-- A closed breaker that counts the faults of the server. -/
def create (name : String) (settings : Settings) (now : Nat) : CircuitBreaker :=
  ⟨name, serverFaults, Machine.create settings now, .empty⟩

/-- Runs an operation on the machine and takes the changes of state out of it. -/
def locked {α : Type} (b : CircuitBreaker) (f : Machine → α × Machine) :
    α × List Transition × CircuitBreaker :=
  let (result, machine) := f b.machine
  let (transitions, machine) := machine.takeTransitions
  (result, transitions, { b with machine := machine })

def transitionEvent (name : String) (t : Transition) : LogEvent :=
  ⟨if t.target = .opened then .warn else .info, "Circuit breaker state changed",
    [("breaker", .text name), ("from", .text t.source.name), ("to", .text t.target.name)]⟩

def publish (b : CircuitBreaker) (t : Transition) : CircuitBreaker × Journal :=
  ({ b with feed := b.feed.publish t },
    [.log (transitionEvent b.name t), .measure (.breakerTransition b.name t),
      .measure (.breakerState b.name t.target)])

def publishAll (b : CircuitBreaker) : List Transition → CircuitBreaker × Journal
  | [] => (b, [])
  | t :: rest =>
    let (b, first) := b.publish t
    let (b, later) := b.publishAll rest
    (b, first ++ later)

/-- Runs an operation on the machine and publishes the changes of state that it made. -/
def operate {α : Type} (b : CircuitBreaker) (f : Machine → α × Machine) :
    α × CircuitBreaker × Journal :=
  let (result, transitions, b) := b.locked f
  let (b, journal) := b.publishAll transitions
  (result, b, journal)

/-- The state, after any change that time alone brought. -/
def state (b : CircuitBreaker) (now : Nat) : State × CircuitBreaker × Journal :=
  b.operate fun m => ((m.refresh now).state, m.refresh now)

def counts (b : CircuitBreaker) (now : Nat) : Counts × CircuitBreaker × Journal :=
  b.operate fun m => ((m.refresh now).counts, m.refresh now)

/-- Asks for a call. A refusal tells the state of the breaker. -/
def tryAcquire (b : CircuitBreaker) (now : Nat) :
    Except State Admission × CircuitBreaker × Journal :=
  b.operate fun m =>
    let (answer, m) := m.acquire now
    match answer with
    | .ok admission => (.ok admission, m)
    | .error _ => (.error (m.refresh now).state, m.refresh now)

def refusalText (name : String) (s : State) : String :=
  "circuit breaker '" ++ name ++ "' is " ++ s.name

def record (b : CircuitBreaker) (a : Admission) (v : Verdict) (now : Nat) :
    CircuitBreaker × Journal :=
  (b.operate fun m => ((), m.record a v now)).2

/-- Ends a call with the verdict that the policy gives its outcome. -/
def recordOutcome (b : CircuitBreaker) (a : Admission) (o : Outcome) (now : Nat) :
    CircuitBreaker × Journal :=
  b.record a (b.policy o) now

/-- Ends a call that came to no verdict: it is forgotten. -/
def drop (b : CircuitBreaker) (a : Admission) : CircuitBreaker × Journal :=
  (b.operate fun m => ((), m.abandon a)).2

/-- Ends a call that a panic unwinds: it counts as a failure. -/
def dropPanicking (b : CircuitBreaker) (a : Admission) (now : Nat) : CircuitBreaker × Journal :=
  b.record a .failure now

def subscribe (b : CircuitBreaker) : Nat × CircuitBreaker :=
  let (subscriber, feed) := b.feed.subscribe
  (subscriber, { b with feed := feed })

def receive (b : CircuitBreaker) (subscriber : Nat) :
    Option (Received Transition) × CircuitBreaker :=
  let (message, feed) := b.feed.receive subscriber
  (message, { b with feed := feed })

def read (b : CircuitBreaker) (subscriber : Nat) :
    List (Received Transition) × CircuitBreaker :=
  let (received, feed) := b.feed.read subscriber
  (received, { b with feed := feed })

end CircuitBreaker

end Gatehouse.Breaker
