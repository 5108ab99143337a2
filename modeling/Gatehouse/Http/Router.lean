import Gatehouse.Http.Probe

/-!
# Routes

Where a request to the server goes: to the service, to a probe, or nowhere. Paths match exactly.

* `Destination.resolve`: the service's own routes take any method, the probes are read only.
-/

namespace Gatehouse.Http

inductive Destination where
  | service
  | liveness
  | readiness
  | notFound
  | methodNotAllowed
  deriving DecidableEq, Repr

namespace Destination

def isRead (method : String) : Bool := method == "GET" || method == "HEAD"

/-- A probe, for the methods that it answers. -/
def probe (method : String) (d : Destination) : Destination :=
  if isRead method then d else .methodNotAllowed

def resolve (routes : List String) (method path : String) : Destination :=
  if routes.contains path then .service
  else if path = livenessPath then probe method .liveness
  else if path = readinessPath ∨ path = healthPath then probe method .readiness
  else .notFound

end Destination

end Gatehouse.Http
