/-!
# The configuration of a service

The sections of a configuration and their default values. Whether the values make sense together
is decided by `Config.validate`.
-/

namespace Gatehouse.Config

inductive TrafficMode where
  /-- Ready for traffic as soon as every component is ready. -/
  | standalone
  /-- Ready for traffic once an orchestrator was told that every component is ready. -/
  | orchestrated
  deriving DecidableEq, Repr

inductive LogFormat where
  | pretty
  | json
  deriving DecidableEq, Repr

structure Listener where
  bindAddress : String := "0.0.0.0:8080"
  drainTimeoutSecs : UInt64 := 30
  deriving DecidableEq, Repr

structure Readiness where
  trafficMode : TrafficMode := .standalone
  deriving DecidableEq, Repr

structure RateLimit where
  enabled : Bool := false
  requestsPerSecond : UInt32 := 100
  burstSize : UInt32 := 50
  deriving DecidableEq, Repr

structure BulkheadSection where
  enabled : Bool := false
  maxConcurrent : UInt64 := 256
  acquireTimeoutMs : UInt64 := 100
  deriving DecidableEq, Repr

/-- The breaker around the service's own handlers. -/
structure CircuitBreakerSection where
  enabled : Bool := false
  name : String := "inbound"
  failureThreshold : UInt32 := 5
  openIntervalMs : UInt64 := 30000
  halfOpenMaxCalls : UInt32 := 1
  /-- The counting window; zero stands for none. -/
  windowMs : UInt64 := 0
  deriving DecidableEq, Repr

structure Admission where
  /-- The time a request may take; zero stands for no limit. -/
  requestTimeoutMs : UInt64 := 30000
  recoverPanics : Bool := true
  rateLimit : RateLimit := {}
  bulkhead : BulkheadSection := {}
  circuitBreaker : CircuitBreakerSection := {}
  deriving DecidableEq, Repr

structure Outbound where
  timeoutSecs : UInt64 := 30
  maxIdlePerHost : UInt64 := 10
  idleTimeoutSecs : UInt64 := 90
  maxLifetimeSecs : UInt64 := 60
  deriving DecidableEq, Repr

structure Observability where
  logLevel : String := "info"
  logFormat : LogFormat := .pretty
  metricsEnabled : Bool := false
  metricsAddress : String := "0.0.0.0:9090"
  deriving DecidableEq, Repr

end Gatehouse.Config

namespace Gatehouse

structure Config where
  listener : Config.Listener := {}
  readiness : Config.Readiness := {}
  admission : Config.Admission := {}
  outbound : Config.Outbound := {}
  observability : Config.Observability := {}
  deriving DecidableEq, Repr

end Gatehouse
