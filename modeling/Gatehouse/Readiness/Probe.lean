import Gatehouse.Http.Message
import Gatehouse.Readiness.Coordinator

/-!
# The readiness probe

The handler behind the readiness path. In orchestrated mode the first probe that finds the service
ready counts as the notification that traffic may come. The handler makes up to three calls on the
coordinator, each of them one step, between which others may use it.

* `Probe.step`: the next call of a probe.
* `Probe.run`: a whole probe that nobody interrupts.
-/

namespace Gatehouse.Readiness

inductive Probe where
  | arrived
  /-- The service was found ready and has to be notified of traffic. -/
  | notifying
  | reporting
  | answered (status : Status)
  deriving DecidableEq, Repr

namespace Probe

def step (c : Coordinator) (moment : Nat) : Probe → Probe × Coordinator × Journal
  | .arrived =>
    match c.mode with
    | .standalone => (.reporting, c, [])
    | .orchestrated => (if c.isReady then .notifying else .reporting, c, [])
  | .notifying =>
    let (answer, c, journal) := c.notify moment
    match answer with
    | .ok () => (.reporting, c, journal)
    | .error e =>
      (.reporting, c,
        journal ++ [.debug "Traffic readiness not recorded" [("error", .text e.message)]])
  | .reporting => (.answered c.status, c, [])
  | .answered status => (.answered status, c, [])

/-- The response with a snapshot: its document, and a status that tells whether it is ready. -/
def response (s : Status) : Http.Response :=
  ⟨if s.ready then 200 else 503, [Http.jsonContentType], .document s.encode⟩

def run (c : Coordinator) (moment : Nat) : Http.Response × Coordinator × Journal :=
  let (p, c, first) := step c moment .arrived
  let (p, c, second) := step c moment p
  let (p, c, third) := step c moment p
  match p with
  | .answered status => (response status, c, first ++ second ++ third)
  | _ => (response c.status, c, first ++ second ++ third)

end Probe

end Gatehouse.Readiness
