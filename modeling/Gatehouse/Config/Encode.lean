import Gatehouse.Config.Schema
import Gatehouse.Document.Basic

/-!
# Writing a configuration as a document

Every section is a table with all its fields, in the order in which the sections list them.
-/

namespace Gatehouse.Config

def TrafficMode.name : TrafficMode → String
  | .standalone => "standalone"
  | .orchestrated => "orchestrated"

def LogFormat.name : LogFormat → String
  | .pretty => "pretty"
  | .json => "json"

def ofUInt32 (n : UInt32) : Document := .integer n.toNat

def ofUInt64 (n : UInt64) : Document := .integer n.toNat

def Listener.encode (c : Listener) : Document :=
  .table [("bind_address", .text c.bindAddress),
    ("drain_timeout_secs", ofUInt64 c.drainTimeoutSecs)]

def Readiness.encode (c : Readiness) : Document :=
  .table [("traffic_mode", .text c.trafficMode.name)]

def RateLimit.encode (c : RateLimit) : Document :=
  .table [("enabled", .boolean c.enabled),
    ("requests_per_second", ofUInt32 c.requestsPerSecond), ("burst_size", ofUInt32 c.burstSize)]

def BulkheadSection.encode (c : BulkheadSection) : Document :=
  .table [("enabled", .boolean c.enabled), ("max_concurrent", ofUInt64 c.maxConcurrent),
    ("acquire_timeout_ms", ofUInt64 c.acquireTimeoutMs)]

def CircuitBreakerSection.encode (c : CircuitBreakerSection) : Document :=
  .table [("enabled", .boolean c.enabled), ("name", .text c.name),
    ("failure_threshold", ofUInt32 c.failureThreshold),
    ("open_interval_ms", ofUInt64 c.openIntervalMs),
    ("half_open_max_calls", ofUInt32 c.halfOpenMaxCalls), ("window_ms", ofUInt64 c.windowMs)]

def Admission.encode (c : Admission) : Document :=
  .table [("request_timeout_ms", ofUInt64 c.requestTimeoutMs),
    ("recover_panics", .boolean c.recoverPanics), ("rate_limit", c.rateLimit.encode),
    ("bulkhead", c.bulkhead.encode), ("circuit_breaker", c.circuitBreaker.encode)]

def Outbound.encode (c : Outbound) : Document :=
  .table [("timeout_secs", ofUInt64 c.timeoutSecs),
    ("max_idle_per_host", ofUInt64 c.maxIdlePerHost),
    ("idle_timeout_secs", ofUInt64 c.idleTimeoutSecs),
    ("max_lifetime_secs", ofUInt64 c.maxLifetimeSecs)]

def Observability.encode (c : Observability) : Document :=
  .table [("log_level", .text c.logLevel), ("log_format", .text c.logFormat.name),
    ("metrics_enabled", .boolean c.metricsEnabled), ("metrics_address", .text c.metricsAddress)]

end Gatehouse.Config

namespace Gatehouse

def Config.encode (c : Config) : Document :=
  .table [("listener", c.listener.encode), ("readiness", c.readiness.encode),
    ("admission", c.admission.encode), ("outbound", c.outbound.encode),
    ("observability", c.observability.encode)]

end Gatehouse
