import Gatehouse.Config.Schema
import Gatehouse.Outbound.Retry

/-!
# The client

Sends requests to other services under one time limit, which covers every attempt of a request. A
caller's scope may end a request sooner.

* `Client.send`: the course of the retries, cut off where the limit or the scope ends it.
* `Client.refusal?`: the URIs for which no connection is dialed.
-/

namespace Gatehouse.Outbound

/-- A client: the time limit of a request with all its attempts, and when another attempt is made.
-/
structure Client where
  timeout : Nat
  policy : RetryPolicy
  deriving DecidableEq, Repr

/-- A course that is given up at an instant; what would have happened later does not happen. -/
def Sending.cutOff (s : Sending) (script : List RoundTrip) (at_ : Nat) (e : SendError) : Sending :=
  let kept := { s with happenings := s.happenings.filter (·.1 ≤ at_) }
  { kept with finished := at_, result := .error e, rest := script.drop kept.attempts.length }

namespace Client

/-- The client of a configuration. The retry budget follows the size of the connection pool. -/
def ofConfig (c : Config.Outbound) : Client :=
  ⟨Duration.ofSeconds c.timeoutSecs.toNat, .ofPoolSize c.maxIdlePerHost.toNat⟩

/-- Why no connection is dialed for a URI: only absolute ones with scheme `http` name a peer. -/
def refusal? (u : Http.Uri) : Option TransportError :=
  match u.scheme with
  | none => some (.plain "client error (UserAbsoluteUriRequired)")
  | some scheme =>
    if scheme = "http" then none
    else some (.wrapped "client error (Connect)" (.plain "invalid URL, scheme is not http"))

def unreachable : RoundTrip :=
  ⟨.error (.wrapped "client error (Connect)"
    (.wrapped "tcp connect error" (.io .networkUnreachable))), 0⟩

/-- The idle connections are closed by putting a fresh pool in the place of the old one. -/
def poolNotes : Nat × Happening → List (Nat × Happening)
  | (at_, .poolClosed) =>
    [(at_, .poolClosed), (at_, .noted (.debug "Outbound connection pool replaced" []))]
  | h => [h]

def course (c : Client) (r : Request) (now : Nat) (script : List RoundTrip) : Sending :=
  let s := match refusal? r.head.uri with
    | some e => c.policy.send r now [⟨.error e, 0⟩]
    | none => c.policy.send r now script
  { s with happenings := s.happenings.flatMap poolNotes }

/-- Sends a request at an instant. A course that ends with the limit counts as finished in time.
`scope` tells when and why the caller's scope ends. One that has ended before is found so at once.
-/
def send (c : Client) (r : Request) (now : Nat) (script : List RoundTrip)
    (scope : Option (Nat × Cause)) : Sending :=
  let s := c.course r now script
  let limit := now + c.timeout
  let s := if s.finished ≤ limit then s else s.cutOff script limit (.timeout c.timeout)
  match scope with
  | some (at_, cause) =>
    let ended := max now at_
    if ended < s.finished then s.cutOff script ended (.cancelled cause) else s
  | none => s

/-- A round trip that is made over and over, as often as a request can need it where no connection
expires. -/
def always (c : Client) (trip : RoundTrip) : List RoundTrip :=
  List.replicate (c.policy.maxRetries + 2) trip

def getRequest? (target : String) : Except SendError Request :=
  match Http.Uri.parse? target with
  | some uri => .ok ⟨⟨"GET", uri, "HTTP/1.1", []⟩, .empty⟩
  | none => .error .invalidRequest

end Client

end Gatehouse.Outbound
