import Gatehouse.Outbound.Request
import Gatehouse.Outbound.TransportError
import Gatehouse.Telemetry.Journal

/-!
# Retries

Sends a request until a round trip succeeds, fails for good, or the budget is used up. A transient
failure costs one retry of the budget. An expired connection costs nothing. The failure that finds
the budget used up closes the idle connections, and one last round trip decides.

How the round trips go is given in advance, so that a send is a function of its script.

* `RetryPolicy.send`: everything that happens in one send, with its instants.
* `RetryPolicy.sendAll`: requests one after the other over one script.
-/

namespace Gatehouse.Outbound

structure RoundTrip where
  result : Except TransportError Http.Response
  duration : Nat

def RoundTrip.standard : RoundTrip := ⟨.ok ⟨200, [], .text ""⟩, 0⟩

inductive SendError where
  | bodyNotReplayable
  | request (error : TransportError)
  | timeout (limit : Nat)
  | cancelled (cause : Cause)
  | invalidRequest

def SendError.message : SendError → String
  | .bodyNotReplayable => "request body cannot be replayed for a retry"
  | .request e => "outbound request failed: " ++ e.message
  | .timeout limit => "outbound request timed out after " ++ Duration.toText limit
  | .cancelled cause => cause.message
  | .invalidRequest => "invalid request: invalid uri"

inductive Happening where
  | attempt (attempt : Attempt)
  | poolClosed
  | noted (entry : Entry)

structure Sending where
  /-- What happened at which instant, the earliest first. -/
  happenings : List (Nat × Happening)
  finished : Nat
  result : Except SendError Http.Response
  rest : List RoundTrip

namespace Sending

/-- A send before which something happened at an instant. -/
def preceded (at_ : Nat) (what : List Happening) (s : Sending) : Sending :=
  { s with happenings := what.map (at_, ·) ++ s.happenings }

def attempts (s : Sending) : List Attempt :=
  s.happenings.filterMap fun h => match h.2 with
    | .attempt a => some a
    | _ => none

def journal (s : Sending) : Journal :=
  s.happenings.filterMap fun h => match h.2 with
    | .noted e => some e
    | _ => none

end Sending

/-- How often a request is tried again after transient failures. -/
structure RetryPolicy where
  maxRetries : Nat
  deriving DecidableEq, Repr

namespace RetryPolicy

def retriesCap : Nat := 5

/-- A budget of one retry for each connection of a pool, within reason. -/
def ofPoolSize (size : Nat) : RetryPolicy := ⟨min size retriesCap⟩

def uriField (r : Request) : String × FieldValue := ("uri", .text r.head.uri.toText)

def expiredNotes (r : Request) : List Happening :=
  [.noted (.debug "Pooled connection expired, retrying" [uriField r]),
    .noted (.measure (.outboundRetry .expired))]

def transientNotes (policy : RetryPolicy) (r : Request) (reason : TransientReason) (n : Nat) :
    List Happening :=
  [.noted (.debug "Transient outbound failure, retrying"
      [uriField r, ("reason", .text reason.name), ("attempt", .number n),
        ("max_retries", .number policy.maxRetries)]),
    .noted (.measure (.outboundRetry (.transient reason)))]

def exhaustedNotes (r : Request) (e : TransportError) (retries : Nat) : List Happening :=
  [.noted (.warn "Retry budget exhausted, closing idle connections for a final attempt"
      [uriField r, ("error", .text e.message), ("retries", .number retries)]),
    .poolClosed, .noted (.measure (.outboundRetry .finalAttempt))]

/-- The last round trip, attempt number `n`, whatever its result. -/
def finalAttempt (r : Request) (n now : Nat) (script : List RoundTrip) : Sending :=
  match r.attempt? n with
  | none => ⟨[], now, .error .bodyNotReplayable, script⟩
  | some attempt =>
    let trip := script.head?.getD .standard
    Sending.preceded now [.attempt attempt]
      ⟨[], now + trip.duration, trip.result.mapError .request, script.tail⟩

/-- A send that has made `n` round trips and spent `retries` of its budget. -/
def sendFrom (policy : RetryPolicy) (r : Request) (n retries now : Nat) :
    List RoundTrip → Sending
  | [] => finalAttempt r n now []
  | trip :: script =>
    match r.attempt? n with
    | none => ⟨[], now, .error .bodyNotReplayable, trip :: script⟩
    | some attempt =>
      let after := now + trip.duration
      Sending.preceded now [.attempt attempt] <|
        match trip.result with
        | .ok response => ⟨[], after, .ok response, script⟩
        | .error e =>
          match e.classify with
          | .expired =>
            (sendFrom policy r (n + 1) retries after script).preceded after (expiredNotes r)
          | .transient reason =>
            if retries < policy.maxRetries then
              (sendFrom policy r (n + 1) (retries + 1) after script).preceded after
                (transientNotes policy r reason (retries + 1))
            else
              (finalAttempt r (n + 1) after script).preceded after (exhaustedNotes r e retries)
          | .permanent => ⟨[], after, .error (.request e), script⟩

/-- A send that begins at an instant. Where the script ends, the peer answers at once. -/
def send (policy : RetryPolicy) (r : Request) (now : Nat) (script : List RoundTrip) : Sending :=
  sendFrom policy r 0 0 now script

/-- Requests one after the other, each over what is left of the script. -/
def sendAll (policy : RetryPolicy) (now : Nat) (script : List RoundTrip) :
    List Request → List Sending
  | [] => []
  | r :: rest =>
    let s := policy.send r now script
    s :: sendAll policy s.finished s.rest rest

end RetryPolicy

end Gatehouse.Outbound
