import Gatehouse.Breaker.State
import Gatehouse.Failure.Kind
import Gatehouse.Outbound.Reason
import Gatehouse.Time
import Gatehouse.Worker.Exit

/-!
# Measurements

What is counted, gauged and observed. A measurement is data; the readings of a list of
measurements are what a scrape would show after them: totals of counters, last values of gauges
and the observations of histograms in ascending order.

* `Measurement.series`: the series that a measurement belongs to.
* `readings`: one reading for each series, in the order of their first measurement.
-/

namespace Gatehouse

inductive Measurement where
  /-- A request went through the logging stage. -/
  | request (method : String) (status : Nat)
  | requestDuration (method : String) (elapsed : Nat)
  /-- A pipeline stage answered a request itself. -/
  | rejection (kind : FailureKind)
  | breakerTransition (breaker : String) (transition : Breaker.Transition)
  | breakerState (breaker : String) (state : Breaker.State)
  | bulkheadInFlight (count : Nat)
  | outboundRetry (reason : Outbound.RetryReason)
  | workerExit (worker : String) (exit : Worker.Exit)
  deriving DecidableEq, Repr

/-- A series: a metric and the labels on it, sorted by their names. -/
structure Series where
  metric : String
  labels : List (String × String)
  deriving DecidableEq, Repr

/-- A series as text: the metric, and in braces the labels without quotes. -/
def Series.toText (s : Series) : String :=
  let labels := s.labels.map fun l => l.1 ++ "=" ++ l.2
  s.metric ++ "\x7b" ++ ",".intercalate labels ++ "\x7d"

inductive Reading where
  | counter (total : Nat)
  | gauge (value : Nat)
  | histogram (observations : List Nat)
  deriving DecidableEq, Repr

namespace Measurement

def series : Measurement → Series
  | .request method status =>
    ⟨"runtime_requests_total", [("method", method), ("status", toString status)]⟩
  | .requestDuration method _ => ⟨"runtime_request_duration_seconds", [("method", method)]⟩
  | .rejection kind => ⟨"runtime_admission_rejections_total", [("kind", kind.name)]⟩
  | .breakerTransition breaker t =>
    ⟨"runtime_breaker_transitions_total",
      [("breaker", breaker), ("from", t.source.name), ("to", t.target.name)]⟩
  | .breakerState breaker _ => ⟨"runtime_breaker_state", [("breaker", breaker)]⟩
  | .bulkheadInFlight _ => ⟨"runtime_bulkhead_in_flight", []⟩
  | .outboundRetry reason => ⟨"runtime_outbound_retries_total", [("reason", reason.name)]⟩
  | .workerExit worker exit =>
    ⟨"runtime_worker_exits_total", [("outcome", exit.name), ("worker", worker)]⟩

def insertSorted (d : Nat) : List Nat → List Nat
  | [] => [d]
  | e :: rest => if d ≤ e then d :: e :: rest else e :: insertSorted d rest

def update (m : Measurement) (before : Option Reading) : Reading :=
  match m with
  | .requestDuration _ elapsed =>
    match before with
    | some (.histogram seen) => .histogram (insertSorted elapsed seen)
    | _ => .histogram [elapsed]
  | .breakerState _ state => .gauge state.level
  | .bulkheadInFlight count => .gauge count
  | _ =>
    match before with
    | some (.counter total) => .counter (total + 1)
    | _ => .counter 1

end Measurement

def takeIn (m : Measurement) : List (Series × Reading) → List (Series × Reading)
  | [] => [(m.series, m.update none)]
  | (s, reading) :: rest =>
    if s = m.series then (s, m.update (some reading)) :: rest else (s, reading) :: takeIn m rest

/-- What a scrape shows after the measurements, oldest first. -/
def readings (ms : List Measurement) : List (Series × Reading) :=
  ms.foldl (fun shown m => takeIn m shown) []

end Gatehouse
