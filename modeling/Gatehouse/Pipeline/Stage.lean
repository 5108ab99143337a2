import Gatehouse.Http.Message

/-!
# Stages of the admission pipeline

A request passes through stages, each of which may turn it away, wait, or look at what comes back.
Stages are registered with a priority, in any order and possibly disabled; a pipeline is the
enabled ones, sorted.

* `Pipeline.build`: sorts by priority and keeps the order of registration where it is equal.
* `Interceptor.bypassesProbes`: the stages that requests to probe paths do not see.
-/

namespace Gatehouse

namespace Pipeline

inductive Panic where
  | text (message : String)
  | other
  deriving DecidableEq, Repr

def Panic.message : Panic → String
  | .text message => message
  | .other => "non-string panic payload"

/-- How a stage, or everything inside it, ends. -/
inductive Completion where
  | outcome (outcome : Http.Outcome)
  | panic (payload : Panic)

inductive Check where
  | accepted
  | rejected (failure : Failure)
  | panicked (payload : Panic)

/-- A check of the head of a request that a service provides. -/
structure Validator where
  /-- The mark that the validator leaves on every request it sees. -/
  label : String
  check : Http.Request → Check

/-- What becomes of a failure in the wire format of a service. -/
abbrev Translator := Failure → Completion

inductive Interceptor where
  /-- Turns a panic inside into a failure. -/
  | panicRecovery
  /-- Bounds the time of everything inside. Limits are so many milliseconds as 64 bits can hold, so
  that clocks show the instant at which they end. -/
  | timeout (limit : Nat)
  /-- Turns requests away when the bucket is empty. -/
  | rateLimit
  /-- Turns requests away while the breaker is open, and tells it how the others end. -/
  | circuitBreaker
  /-- Holds a slot while the request is inside. -/
  | bulkhead
  /-- Assigns the request id and notes how the request ended. -/
  | requestLogging
  | schemaValidation (validator : Validator)
  /-- Changes the failures that come back. -/
  | errorTranslation (translate : Translator)
  /-- Leaves a mark on the request, and turns it away if it is told to. -/
  | mark (label : String) (bypassesProbes : Bool) (rejection : Option Failure)

namespace Interceptor

def bypassesProbes : Interceptor → Bool
  | .timeout _ => true
  | .rateLimit => true
  | .circuitBreaker => true
  | .bulkhead => true
  | .mark _ bypassesProbes _ => bypassesProbes
  | _ => false

def name : Interceptor → String
  | .panicRecovery => "panic_recovery"
  | .timeout _ => "timeout"
  | .rateLimit => "rate_limit"
  | .circuitBreaker => "circuit_breaker"
  | .bulkhead => "bulkhead"
  | .requestLogging => "request_logging"
  | .schemaValidation _ => "schema_validation"
  | .errorTranslation _ => "error_translation"
  | .mark label _ _ => label

/-- The usual priority of a stage; the lowest is outermost. -/
def priority : Interceptor → Int
  | .panicRecovery => 0
  | .timeout _ => 10
  | .rateLimit => 20
  | .circuitBreaker => 30
  | .bulkhead => 40
  | .requestLogging => 50
  | .schemaValidation _ => 60
  | .errorTranslation _ => 70
  | .mark _ _ _ => 0

end Interceptor

/-- A stage as it is registered; `none` is a disabled one. -/
structure Registration where
  priority : Int
  name : String
  interceptor : Option Interceptor

def Registration.usual (i : Interceptor) : Registration := ⟨i.priority, i.name, some i⟩

structure Stage where
  priority : Int
  name : String
  interceptor : Interceptor

def Registration.stage? (r : Registration) : Option Stage :=
  r.interceptor.map fun i => ⟨r.priority, r.name, i⟩

end Pipeline

structure Pipeline where
  stages : List Pipeline.Stage

namespace Pipeline

/-- The pipeline of some registrations: the enabled stages by priority, those of equal priority in
the order in which they were registered. -/
def build (registrations : List Registration) : Pipeline :=
  ⟨(registrations.filterMap Registration.stage?).mergeSort fun a b => a.priority ≤ b.priority⟩

def names (p : Pipeline) : List String := p.stages.map (·.name)

def interceptors (p : Pipeline) : List Interceptor := p.stages.map (·.interceptor)

end Pipeline

end Gatehouse
