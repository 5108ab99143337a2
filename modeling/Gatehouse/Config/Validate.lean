import Gatehouse.Config.Schema
import Gatehouse.Config.SocketAddress
import Gatehouse.Text.Blank

/-!
# Validation of a configuration

The rules that values have to keep beyond their types. Every violated rule is reported, in a fixed
order; a section that is disabled is not looked at.

* `Config.problems`: every violated rule.
* `Config.validate`: the configuration is accepted if there is none.
-/

namespace Gatehouse.Config

/-- A violated rule: the dotted path of the field, and what is wrong with it. -/
structure Problem where
  field : String
  message : String
  deriving DecidableEq, Repr

def Problem.toText (p : Problem) : String := p.field ++ ": " ++ p.message

def reportIf (violated : Bool) (field message : String) : List Problem :=
  if violated then [⟨field, message⟩] else []

def addressProblems (field address : String) : List Problem :=
  reportIf (SocketAddress.parse? address).isNone field
    ("'" ++ address ++ "' is not a socket address")

def positiveProblems (field : String) (n : Nat) : List Problem :=
  reportIf (n == 0) field "must be greater than 0"

def Listener.problems (c : Listener) : List Problem :=
  addressProblems "listener.bind_address" c.bindAddress

def RateLimit.problems (c : RateLimit) : List Problem :=
  if c.enabled then
    positiveProblems "admission.rate_limit.requests_per_second" c.requestsPerSecond.toNat ++
      positiveProblems "admission.rate_limit.burst_size" c.burstSize.toNat
  else []

def BulkheadSection.problems (c : BulkheadSection) : List Problem :=
  if c.enabled then
    positiveProblems "admission.bulkhead.max_concurrent" c.maxConcurrent.toNat
  else []

def CircuitBreakerSection.problems (c : CircuitBreakerSection) : List Problem :=
  if c.enabled then
    reportIf (Text.isBlankText c.name) "admission.circuit_breaker.name" "must not be empty" ++
      (positiveProblems "admission.circuit_breaker.failure_threshold" c.failureThreshold.toNat ++
        positiveProblems "admission.circuit_breaker.half_open_max_calls"
          c.halfOpenMaxCalls.toNat)
  else []

def Outbound.problems (c : Outbound) : List Problem :=
  positiveProblems "outbound.timeout_secs" c.timeoutSecs.toNat ++
    positiveProblems "outbound.max_lifetime_secs" c.maxLifetimeSecs.toNat

def Observability.problems (c : Observability) : List Problem :=
  if c.metricsEnabled then addressProblems "observability.metrics_address" c.metricsAddress
  else []

end Gatehouse.Config

namespace Gatehouse.Config

/-- Every violated rule of a configuration, in the order of its fields. -/
def problems (c : Config) : List Problem :=
  c.listener.problems ++ c.admission.rateLimit.problems ++ c.admission.bulkhead.problems ++
    c.admission.circuitBreaker.problems ++ c.outbound.problems ++ c.observability.problems

def validate (c : Config) : Except (List Problem) Unit :=
  match c.problems with
  | [] => .ok ()
  | problems => .error problems

def joinProblems (ps : List Problem) : String := ", ".intercalate (ps.map Problem.toText)

end Gatehouse.Config
