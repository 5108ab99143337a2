import Gatehouse.Http.Message
import Gatehouse.Http.Uri

/-!
# Requests to other services

A request that may have to be sent more than once. The first attempt sends the body itself. A later
one needs a body that is known to be empty, or a way to make it anew.

* `Request.attempt?`: the attempts of a request, each with the head of the request.
-/

namespace Gatehouse.Outbound

structure Payload where
  content : String
  /-- It is known before sending that the body is empty. -/
  knownEmpty : Bool
  /-- How the body is made anew, for the first time, the second time and so on. -/
  regenerate : Option (Nat → String)
  eq_empty : knownEmpty = true → content = "" := by simp

namespace Payload

def empty : Payload := { content := "", knownEmpty := true, regenerate := none }

def once (content : String) : Payload :=
  { content := content, knownEmpty := content.isEmpty, regenerate := none }

/-- A body in memory that is kept for later attempts. -/
def replayable (content : String) : Payload :=
  { once content with regenerate := some fun _ => content }

def stream (pieces : List String) (regenerate : Option (Nat → String)) : Payload :=
  { content := String.join pieces, knownEmpty := false, regenerate := regenerate }

def forAttempt? (p : Payload) : Nat → Option String
  | 0 => some p.content
  | n + 1 => if p.knownEmpty then some "" else p.regenerate.map fun make => make (n + 1)

end Payload

/-- The head of a request, which is the same in every attempt. -/
structure Head where
  method : String
  uri : Http.Uri
  version : String
  headers : Http.Headers
  deriving DecidableEq, Repr

structure Request where
  head : Head
  payload : Payload

structure Attempt where
  head : Head
  body : String
  deriving DecidableEq, Repr

/-- Attempt number `n` of a request, counting from zero, where it can be made. -/
def Request.attempt? (r : Request) (n : Nat) : Option Attempt :=
  (r.payload.forAttempt? n).map fun body => ⟨r.head, body⟩

end Gatehouse.Outbound
