import Gatehouse.Document.Json.Printer
import Gatehouse.Failure.Kind
import Gatehouse.Scope.Basic

/-!
# Failures

One type for what handlers and pipeline stages fail with. A failure has a text, and a JSON body
with exactly its kind and its message.

* `Failure.ofCause`: the failure of a request whose scope ended.
* `Failure.body`: the document that a failure is answered with.
-/

namespace Gatehouse

structure Failure where
  kind : FailureKind
  message : String
  deriving DecidableEq, Repr

namespace Failure

def rateLimited : Failure := ⟨.rateLimited, "rate limit exceeded"⟩

def bulkheadFull : Failure := ⟨.bulkheadFull, "too many concurrent requests"⟩

def breakerOpen (breaker : String) : Failure :=
  ⟨.breakerOpen, "circuit breaker '" ++ breaker ++ "' is open"⟩

def deadlineExceeded : Failure := ⟨.deadlineExceeded, "request deadline exceeded"⟩

def cancelled : Failure := ⟨.cancelled, "request cancelled"⟩

def panicRecovered : Failure := ⟨.panicRecovered, "internal server error"⟩

def ofCause : Cause → Failure
  | .cancelled => cancelled
  | .deadlineExceeded => deadlineExceeded

def status (f : Failure) : Nat := f.kind.status

def toText (f : Failure) : String := f.kind.name ++ ": " ++ f.message

/-- The document that a failure is answered with. -/
def body (f : Failure) : Document :=
  .table [("error", .text f.kind.name), ("message", .text f.message)]

end Failure

end Gatehouse
