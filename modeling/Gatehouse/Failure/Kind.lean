/-!
# Kinds of failure

Why a request was not answered by its handler, with the name of each kind on the wire and the
status that it is answered with.
-/

namespace Gatehouse

inductive FailureKind where
  | clientInput
  | internal
  | unavailable
  | rateLimited
  | bulkheadFull
  | breakerOpen
  | deadlineExceeded
  /-- The request was abandoned before it finished. -/
  | cancelled
  | panicRecovered
  deriving DecidableEq, Repr

namespace FailureKind

def name : FailureKind → String
  | .clientInput => "client_input"
  | .internal => "internal"
  | .unavailable => "unavailable"
  | .rateLimited => "rate_limited"
  | .bulkheadFull => "bulkhead_full"
  | .breakerOpen => "breaker_open"
  | .deadlineExceeded => "deadline_exceeded"
  | .cancelled => "cancelled"
  | .panicRecovered => "panic_recovered"

/-- The status a kind is answered with; 499 tells that the caller went away. -/
def status : FailureKind → Nat
  | .clientInput => 400
  | .internal => 500
  | .panicRecovered => 500
  | .unavailable => 503
  | .bulkheadFull => 503
  | .breakerOpen => 503
  | .rateLimited => 429
  | .deadlineExceeded => 504
  | .cancelled => 499

def all : List FailureKind :=
  [.clientInput, .internal, .unavailable, .rateLimited, .bulkheadFull, .breakerOpen,
    .deadlineExceeded, .cancelled, .panicRecovered]

def ofName? (name : String) : Option FailureKind := all.find? (·.name == name)

end FailureKind

end Gatehouse
