import Gatehouse.Failure.Basic
import Gatehouse.Http.RequestId

/-!
# Requests and responses

The head of a request with what stages attach to it, and the response that it is answered with.
Header names are kept in lower case.

* `Headers.set`: replaces every value of a name.
* `Outcome.render`: a failed request is answered with the body of its failure.
-/

namespace Gatehouse.Http

/-- A header field; its value is any bytes. -/
structure Header where
  name : String
  value : List UInt8
  deriving DecidableEq, Repr

abbrev Headers := List Header

/-- A header name as it is kept: the letters of ASCII are lowered. -/
def lowerName (name : String) : String := String.ofList (name.toList.map Char.toLower)

namespace Headers

def get? (hs : Headers) (name : String) : Option (List UInt8) :=
  (hs.find? (·.name == name)).map (·.value)

/-- The headers with `value` as the only value of `name`, in the place of the first one. -/
def set (name : String) (value : List UInt8) : Headers → Headers
  | [] => [⟨name, value⟩]
  | h :: rest =>
    if h.name = name then ⟨name, value⟩ :: rest.filter (·.name != name)
    else h :: set name value rest

/-- The headers with one more value of `name`, behind the other ones. -/
def add (name : String) (value : List UInt8) : Headers → Headers
  | [] => [⟨name, value⟩]
  | h :: rest =>
    if h.name = name ∧ ! rest.any (·.name == name) then h :: ⟨name, value⟩ :: rest
    else h :: add name value rest

/-- Headers from names and values as they were given: names are lowered, and the values of a name
stand together. -/
def ofList (given : List (String × List UInt8)) : Headers :=
  given.foldl (fun hs (name, value) => add (lowerName name) value hs) []

end Headers

/-- A request as the stages of the pipeline see it. -/
structure Request where
  method : String
  path : String
  headers : Headers
  scope : Option Scope
  id : Option RequestId
  deriving Repr

/-- The body of a response: a text, or a document that is sent as JSON. -/
inductive Body where
  | text (value : String)
  | document (value : Document)

structure Response where
  status : Nat
  headers : Headers
  body : Body

def asciiBytes (s : String) : List UInt8 := s.toUTF8.toList

def jsonContentType : Header := ⟨"content-type", asciiBytes "application/json"⟩

def isSuccess (status : Nat) : Bool := 200 ≤ status && status ≤ 299

def isServerError (status : Nat) : Bool := 500 ≤ status && status ≤ 599

/-- What a handler or a stage produces. -/
abbrev Outcome := Except Failure Response

end Gatehouse.Http

namespace Gatehouse

open Http in
def Failure.toResponse (f : Failure) : Response :=
  ⟨f.status, [jsonContentType], .text (Document.Json.render f.body)⟩

namespace Http.Outcome

def status : Outcome → Nat
  | .ok response => response.status
  | .error failure => failure.status

def render : Outcome → Response
  | .ok response => response
  | .error failure => failure.toResponse

end Http.Outcome

end Gatehouse
