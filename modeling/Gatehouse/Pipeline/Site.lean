import Gatehouse.Pipeline.Gates
import Gatehouse.Readiness.Probe
import Gatehouse.Scope.Directory

/-!
# What requests share

Requests in flight share the clock, the scopes, the gates, the readiness of the service, the supply
of request ids and the journal.
-/

namespace Gatehouse.Pipeline

/-- Everything outside of a request that its way through the pipeline reads or changes. -/
structure Site where
  now : Nat
  moment : Nat
  directory : Scope.Directory
  gates : Gates
  coordinator : Readiness.Coordinator
  ids : Http.IdSupply
  journal : Journal

namespace Site

def create (gates : Gates) (mode : Config.TrafficMode) : Site :=
  ⟨0, 0, .empty, gates, .create mode, 0, []⟩

def note (s : Site) (entries : Journal) : Site := { s with journal := s.journal ++ entries }

def cause? (s : Site) (scope : Scope) : Option Cause :=
  scope.cause? s.directory.tokens s.now

def cancelled? (s : Site) (scope : Scope) : Option Cause :=
  scope.cancelled? s.directory.tokens s.now

def setTokens (s : Site) (tokens : Tokens) : Site :=
  { s with directory := { s.directory with tokens := tokens } }

def cancel (s : Site) (scope : Scope) : Site := s.setTokens (scope.cancel s.directory.tokens)

/-- The scope of a request: the one that an outer layer attached, or one of its own. -/
def scopeOf (s : Site) (r : Http.Request) : Scope × Site :=
  match r.scope with
  | some scope => (scope, s)
  | none =>
    let (scope, tokens) := Scope.root s.directory.tokens
    (scope, s.setTokens tokens)

def setLimiter (s : Site) (l : RateLimiter Float) : Site :=
  { s with gates := { s.gates with limiter := some l } }

def setBreaker (s : Site) (b : Breaker.CircuitBreaker) : Site :=
  { s with gates := { s.gates with breaker := some b } }

def setBulkhead (s : Site) (b : Bulkhead) : Site :=
  { s with gates := { s.gates with bulkhead := some b } }

def onBreaker (s : Site) (f : Breaker.CircuitBreaker → Breaker.CircuitBreaker × Journal) : Site :=
  match s.gates.breaker with
  | some b =>
    let (b, journal) := f b
    (s.setBreaker b).note journal
  | none => s

def onBulkhead (s : Site) (f : Bulkhead → Bulkhead × Journal) : Site :=
  match s.gates.bulkhead with
  | some b =>
    let (b, journal) := f b
    (s.setBulkhead b).note journal
  | none => s

end Site

end Gatehouse.Pipeline
