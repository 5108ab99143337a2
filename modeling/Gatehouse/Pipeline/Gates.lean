import Gatehouse.Breaker.Basic
import Gatehouse.Bulkhead.Basic
import Gatehouse.Config.Schema
import Gatehouse.Pipeline.Stage
import Gatehouse.TokenBucket

/-!
# Gates

The shared primitives behind the gate stages of a pipeline, and the pipeline that a configuration
asks for.

* `Gates.ofConfig?`: one gate for each enabled section.
* `Gates.pipeline`: the usual stages over these gates.
-/

namespace Gatehouse

namespace Breaker

/-- The settings of a configuration, where a window of zero stands for none. -/
def Settings.ofConfig (c : Config.CircuitBreakerSection) : Settings :=
  { failureThreshold := c.failureThreshold
    openInterval := Duration.ofMillis c.openIntervalMs.toNat
    halfOpenMaxCalls := c.halfOpenMaxCalls
    window := if c.windowMs = 0 then none else some (Duration.ofMillis c.windowMs.toNat) }

end Breaker

namespace RateLimiter

def ofConfig (c : Config.RateLimit) (now : Nat) : RateLimiter Float :=
  create c.requestsPerSecond.toNat.toFloat c.burstSize.toNat now

end RateLimiter

namespace Bulkhead

def ofConfig? (c : Config.BulkheadSection) : Option Bulkhead :=
  create? c.maxConcurrent.toNat (Duration.ofMillis c.acquireTimeoutMs.toNat)

end Bulkhead

namespace Pipeline

/-- What all requests of a pipeline share; a gate that is not enabled is absent. -/
structure Gates where
  limiter : Option (RateLimiter Float)
  breaker : Option Breaker.CircuitBreaker
  bulkhead : Option Bulkhead

namespace Gates

def none : Gates := ⟨.none, .none, .none⟩

/-- The gates of a configuration. There are none at all where the bulkhead cannot be made. -/
def ofConfig? (c : Config.Admission) (now : Nat) : Option Gates :=
  let limiter := if c.rateLimit.enabled then some (.ofConfig c.rateLimit now) else .none
  let breaker :=
    if c.circuitBreaker.enabled then
      some (.create c.circuitBreaker.name (.ofConfig c.circuitBreaker) now)
    else .none
  if c.bulkhead.enabled then
    (Bulkhead.ofConfig? c.bulkhead).map fun b => ⟨limiter, breaker, some b⟩
  else some ⟨limiter, breaker, .none⟩

/-- Whether there is a gate for a stage. A stage that needs none is always open. -/
def provides (g : Gates) : Interceptor → Bool
  | .rateLimit => g.limiter.isSome
  | .circuitBreaker => g.breaker.isSome
  | .bulkhead => g.bulkhead.isSome
  | _ => true

/-- A stage at its usual place, disabled where its gate is missing. -/
def register (g : Gates) (i : Interceptor) : Registration :=
  { Registration.usual i with interceptor := if g.provides i then some i else .none }

def pipeline (g : Gates) (c : Config.Admission) : Pipeline :=
  build <|
    (if c.recoverPanics then [Registration.usual .panicRecovery] else []) ++
    (if c.requestTimeoutMs = 0 then []
      else [Registration.usual (.timeout (Duration.ofMillis c.requestTimeoutMs.toNat))]) ++
    [g.register .rateLimit, g.register .circuitBreaker, g.register .bulkhead,
      Registration.usual .requestLogging]

end Gates

end Pipeline

end Gatehouse
