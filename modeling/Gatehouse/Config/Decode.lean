import Gatehouse.Config.Schema
import Gatehouse.Document.Basic

/-!
# Reading a configuration from a document

A section is a table with its fields, or a list that gives them in their order. A field that is
missing has its default, a field that nobody knows is ignored, and a value of the wrong kind or
out of range makes the whole document unfit. The two notations differ in two details, which
`Dialect` names.

* `view?`: the values that a document gives to the fields of a section.
* `Config.decode?`: a whole configuration.
-/

namespace Gatehouse.Config

/-- Where notations differ in what they let stand for a section or a choice. -/
structure Dialect where
  /-- Whether a list may go on after the last field of a section. -/
  allowsSurplus : Bool
  /-- What may stand beside the name of a choice that is written as a table with one entry. -/
  isUnit : Document → Bool

/-- Nothing that a configuration file can say may stand beside a choice but an empty list or
table. -/
def Dialect.toml : Dialect where
  allowsSurplus := true
  isUnit
    | .list [] => true
    | .table [] => true
    | _ => false

def Dialect.json : Dialect where
  allowsSurplus := false
  isUnit
    | .null => true
    | _ => false

abbrev View := String → Option Document

/-- The values that a document gives to the fields of a section. A date is a table that has none
of them. -/
def view? (dialect : Dialect) (fields : List String) : Document → Option View
  | .table entries => some (Document.lookup? entries)
  | .moment _ => some fun _ => none
  | .list items =>
    if items.length ≤ fields.length ∨ dialect.allowsSurplus then
      some fun name => items[fields.idxOf name]?
    else none
  | _ => none

def View.field? {α : Type} (v : View) (name : String) (read : Document → Option α) (default : α) :
    Option α :=
  match v name with
  | some d => read d
  | none => some default

def text? : Document → Option String
  | .text s => some s
  | _ => none

def boolean? : Document → Option Bool
  | .boolean b => some b
  | _ => none

def natBelow? (bound : Nat) : Document → Option Nat
  | .integer n => if 0 ≤ n ∧ n < bound then some n.toNat else none
  | _ => none

def uint32? (d : Document) : Option UInt32 := (natBelow? UInt32.size d).map UInt32.ofNat

def uint64? (d : Document) : Option UInt64 := (natBelow? UInt64.size d).map UInt64.ofNat

/-- A choice by its name, either as a text or as a table with one entry of that name. -/
def choice? {α : Type} (dialect : Dialect) (choices : List (String × α)) : Document → Option α
  | .text name => (choices.find? (·.1 == name)).map (·.2)
  | .table [(name, value)] =>
    if dialect.isUnit value then (choices.find? (·.1 == name)).map (·.2) else none
  | _ => none

def trafficModes : List (String × TrafficMode) :=
  [("standalone", .standalone), ("orchestrated", .orchestrated)]

def logFormats : List (String × LogFormat) := [("pretty", .pretty), ("json", .json)]

def Listener.decode? (dialect : Dialect) (d : Document) : Option Listener := do
  let v ← view? dialect ["bind_address", "drain_timeout_secs"] d
  let standard : Listener := {}
  pure
    { bindAddress := ← v.field? "bind_address" text? standard.bindAddress
      drainTimeoutSecs := ← v.field? "drain_timeout_secs" uint64? standard.drainTimeoutSecs }

def Readiness.decode? (dialect : Dialect) (d : Document) : Option Readiness := do
  let v ← view? dialect ["traffic_mode"] d
  let standard : Readiness := {}
  pure
    { trafficMode :=
        ← v.field? "traffic_mode" (choice? dialect trafficModes) standard.trafficMode }

def RateLimit.decode? (dialect : Dialect) (d : Document) : Option RateLimit := do
  let v ← view? dialect ["enabled", "requests_per_second", "burst_size"] d
  let standard : RateLimit := {}
  pure
    { enabled := ← v.field? "enabled" boolean? standard.enabled
      requestsPerSecond := ← v.field? "requests_per_second" uint32? standard.requestsPerSecond
      burstSize := ← v.field? "burst_size" uint32? standard.burstSize }

def BulkheadSection.decode? (dialect : Dialect) (d : Document) : Option BulkheadSection := do
  let v ← view? dialect ["enabled", "max_concurrent", "acquire_timeout_ms"] d
  let standard : BulkheadSection := {}
  pure
    { enabled := ← v.field? "enabled" boolean? standard.enabled
      maxConcurrent := ← v.field? "max_concurrent" uint64? standard.maxConcurrent
      acquireTimeoutMs := ← v.field? "acquire_timeout_ms" uint64? standard.acquireTimeoutMs }

def CircuitBreakerSection.decode? (dialect : Dialect) (d : Document) :
    Option CircuitBreakerSection := do
  let v ← view? dialect ["enabled", "name", "failure_threshold", "open_interval_ms",
    "half_open_max_calls", "window_ms"] d
  let standard : CircuitBreakerSection := {}
  pure
    { enabled := ← v.field? "enabled" boolean? standard.enabled
      name := ← v.field? "name" text? standard.name
      failureThreshold := ← v.field? "failure_threshold" uint32? standard.failureThreshold
      openIntervalMs := ← v.field? "open_interval_ms" uint64? standard.openIntervalMs
      halfOpenMaxCalls := ← v.field? "half_open_max_calls" uint32? standard.halfOpenMaxCalls
      windowMs := ← v.field? "window_ms" uint64? standard.windowMs }

def Admission.decode? (dialect : Dialect) (d : Document) : Option Admission := do
  let v ← view? dialect ["request_timeout_ms", "recover_panics", "rate_limit", "bulkhead",
    "circuit_breaker"] d
  let standard : Admission := {}
  pure
    { requestTimeoutMs := ← v.field? "request_timeout_ms" uint64? standard.requestTimeoutMs
      recoverPanics := ← v.field? "recover_panics" boolean? standard.recoverPanics
      rateLimit := ← v.field? "rate_limit" (RateLimit.decode? dialect) standard.rateLimit
      bulkhead := ← v.field? "bulkhead" (BulkheadSection.decode? dialect) standard.bulkhead
      circuitBreaker :=
        ← v.field? "circuit_breaker" (CircuitBreakerSection.decode? dialect)
          standard.circuitBreaker }

def Outbound.decode? (dialect : Dialect) (d : Document) : Option Outbound := do
  let v ← view? dialect ["timeout_secs", "max_idle_per_host", "idle_timeout_secs",
    "max_lifetime_secs"] d
  let standard : Outbound := {}
  pure
    { timeoutSecs := ← v.field? "timeout_secs" uint64? standard.timeoutSecs
      maxIdlePerHost := ← v.field? "max_idle_per_host" uint64? standard.maxIdlePerHost
      idleTimeoutSecs := ← v.field? "idle_timeout_secs" uint64? standard.idleTimeoutSecs
      maxLifetimeSecs := ← v.field? "max_lifetime_secs" uint64? standard.maxLifetimeSecs }

def Observability.decode? (dialect : Dialect) (d : Document) : Option Observability := do
  let v ← view? dialect ["log_level", "log_format", "metrics_enabled", "metrics_address"] d
  let standard : Observability := {}
  pure
    { logLevel := ← v.field? "log_level" text? standard.logLevel
      logFormat := ← v.field? "log_format" (choice? dialect logFormats) standard.logFormat
      metricsEnabled := ← v.field? "metrics_enabled" boolean? standard.metricsEnabled
      metricsAddress := ← v.field? "metrics_address" text? standard.metricsAddress }

end Gatehouse.Config

namespace Gatehouse

def Config.decode? (dialect : Config.Dialect) (d : Document) : Option Config := do
  let v ← Config.view? dialect ["listener", "readiness", "admission", "outbound",
    "observability"] d
  pure
    { listener := ← v.field? "listener" (Config.Listener.decode? dialect) {}
      readiness := ← v.field? "readiness" (Config.Readiness.decode? dialect) {}
      admission := ← v.field? "admission" (Config.Admission.decode? dialect) {}
      outbound := ← v.field? "outbound" (Config.Outbound.decode? dialect) {}
      observability := ← v.field? "observability" (Config.Observability.decode? dialect) {} }

end Gatehouse
