import Gatehouse.Pipeline.Site

/-!
# Stages that a request is inside of

A stage that has let a request pass, and still has something to do when everything inside it ends,
leaves a frame. Frames are kept in a list, the innermost first. What ends inside rises through
them, and each may change it; a request that is dropped only releases what they hold.

* `Frame.rise`: how a completion passes through one frame, and `ascend` through all of them.
* `Frame.discard`: what a frame releases when the request is dropped.
-/

namespace Gatehouse.Pipeline

/-- What a stage that a request is inside of will still do once the inner answer is there. -/
inductive Frame where
  | recovery (method path : String)
  | timeout (limit : Nat) (scope : Scope)
  | call (admission : Breaker.Admission) (scope : Scope)
  | slot
  | logging (id : Http.RequestId) (method path : String) (started : Nat)
  | translation (translate : Translator)

def rejection (event : Entry) (f : Failure) : Journal := [event, .measure (.rejection f.kind)]

namespace Frame

/-- The verdict on a call. A request whose scope has ended says nothing about the service. -/
def verdict (site : Site) (b : Breaker.CircuitBreaker) (scope : Scope) (o : Http.Outcome) :
    Breaker.Verdict :=
  if (site.cause? scope).isSome then .ignored else b.policy o

def completionEvent (id : Http.RequestId) (method path : String) (status latency : Nat) : Entry :=
  let fields := [("request_id", .text id.toText), ("method", .text method), ("path", .text path),
    ("status", .number status), ("latency_ms", .number (Duration.toMillis latency))]
  if Http.isServerError status then .warn "Request failed" fields
  else .info "Request completed" fields

/-- A response with the id of its request on it, if that makes a header; a failure carries none. -/
def identify (id : Http.RequestId) : Http.Outcome → Http.Outcome
  | .ok response =>
    match id.toHeader? with
    | some value =>
      .ok { response with headers := Http.Headers.set Http.requestIdHeader value response.headers }
    | none => .ok response
  | .error failure => .error failure

/-- How a completion passes through a frame. A panic that rises drops what the frame holds; only
the recovery stage stops it. -/
def rise (site : Site) : Frame → Completion → Site × Completion
  | .recovery method path, .panic payload =>
    (site.note (rejection (.error "Handler panicked"
        [("method", .text method), ("path", .text path), ("panic", .text payload.message)])
        .panicRecovered),
      .outcome (.error .panicRecovered))
  | .call admission scope, .outcome o =>
    (site.onBreaker fun b => b.record admission (verdict site b scope o) site.now, .outcome o)
  | .call admission _, .panic payload =>
    (site.onBreaker fun b => b.dropPanicking admission site.now, .panic payload)
  | .slot, c => (site.onBulkhead Bulkhead.release, c)
  | .logging id method path started, .outcome o =>
    let status := Http.Outcome.status o
    let latency := site.now - started
    (site.note [completionEvent id method path status latency, .measure (.request method status),
        .measure (.requestDuration method latency)],
      .outcome (identify id o))
  | .translation translate, .outcome (.error failure) => (site, translate failure)
  | _, c => (site, c)

/-- What a frame releases when the request is dropped. -/
def discard (site : Site) : Frame → Site
  | .call admission _ => site.onBreaker fun b => b.drop admission
  | .slot => site.onBulkhead Bulkhead.release
  | _ => site

def due : Frame → Option Nat
  | .timeout _ scope => scope.deadline
  | _ => none

end Frame

def ascend (site : Site) (c : Completion) : List Frame → Site × Completion
  | [] => (site, c)
  | frame :: outer =>
    let (site, c) := frame.rise site c
    ascend site c outer

/-- Drops everything inside some frames, from the innermost outwards. -/
def discardAll (site : Site) (frames : List Frame) : Site := frames.foldl Frame.discard site

structure Expired where
  inner : List Frame
  limit : Nat
  scope : Scope
  cause : Cause
  outer : List Frame

/-- The innermost timeout whose scope has ended. -/
def expired? (site : Site) : List Frame → Option Expired
  | [] => none
  | frame :: outer =>
    let further := (expired? site outer).map fun e => { e with inner := frame :: e.inner }
    match frame with
    | .timeout limit scope =>
      match site.cancelled? scope with
      | some cause => some ⟨[], limit, scope, cause, outer⟩
      | none => further
    | _ => further

/-- Where a panic rises from when it happens while a stage hands the request on, before there is
anything to wait for. The innermost recovery stage is not ready for it yet. -/
def pastUnarmed : List Frame → List Frame
  | .recovery _ _ :: outer => outer
  | frames => frames

end Gatehouse.Pipeline
