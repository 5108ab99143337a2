import Gatehouse.Clock
import Gatehouse.Pipeline.Flight

/-!
# Traffic

Concurrent requests through one pipeline, in virtual time. After every step, and at every timer on
the way, the requests are looked at in the order in which they came, until nothing changes.

* `Traffic.perform`: a step, and everything that follows from it at the same instant.
* `Traffic.endedSince`: the requests that ended during a step.
-/

namespace Gatehouse.Pipeline

/-- Requests in flight through one pipeline. -/
structure Traffic where
  interceptors : List Interceptor
  edge : Edge
  site : Site
  flights : List Flight

structure Observation where
  breaker : Option (Breaker.State × Breaker.Counts)
  ready : Bool
  trafficReady : Bool

inductive Answer where
  | nothing
  | readiness (answer : Except Readiness.Error Unit)
  | observation (observation : Observation)

namespace Traffic

inductive Step where
  | scope (command : Scope.Command)
  | readiness (command : Readiness.Command)
  | send (id : String) (request : Http.Request) (scope : Option String) (plan : HandlerPlan)
  | abort (id : String)
  | observe
  | advance (d : Nat)

def create (p : Pipeline) (edge : Edge) (site : Site) : Traffic :=
  ⟨p.interceptors, edge, site, []⟩

def visitAll (site : Site) : List Flight → Site × List Flight
  | [] => (site, [])
  | f :: rest =>
    let (site, f) := f.poll site
    let (site, rest) := visitAll site rest
    (site, f :: rest)

def work (flights : List Flight) : Nat := flights.foldr (fun f total => f.work + total) 0

/-- Looks at the requests until no wait ends any more: one that ends may let others go on. -/
def settle (t : Traffic) : Traffic :=
  let (site, flights) := visitAll t.site t.flights
  let t' := { t with site := site, flights := flights }
  if work flights < work t.flights then settle t' else t'
termination_by work t.flights

def due (t : Traffic) : Option Nat := Clock.earliest (t.flights.map Flight.due)

def fire (now : Nat) (t : Traffic) : Traffic := settle { t with site := { t.site with now := now } }

def send (t : Traffic) (id : String) (r : Http.Request) (plan : HandlerPlan) : Traffic :=
  let f : Flight := ⟨id, t.edge, r.method, plan, [], none, [], .aborted⟩
  let (site, f) := f.enter t.site r t.interceptors
  { t with site := site, flights := t.flights ++ [f] }

def abortAll (id : String) (site : Site) : List Flight → Site × List Flight
  | [] => (site, [])
  | f :: rest =>
    let (site, f) := if f.id = id then f.abort site else (site, f)
    let (site, rest) := abortAll id site rest
    (site, f :: rest)

/-- A look at the service. To look at the breaker brings it up to date. -/
def observe (site : Site) : Observation × Site :=
  let ready := site.coordinator.isReady
  let trafficReady := site.coordinator.isTrafficReady
  match site.gates.breaker with
  | none => (⟨none, ready, trafficReady⟩, site)
  | some b =>
    let (state, b, first) := b.state site.now
    let (counts, b, second) := b.counts site.now
    (⟨some (state, counts), ready, trafficReady⟩, (site.setBreaker b).note (first ++ second))

def perform (t : Traffic) (moment : Nat) (step : Step) : Answer × Traffic :=
  let t := { t with site := { t.site with moment := moment } }
  match step with
  | .scope command =>
    let directory := t.site.directory.perform t.site.now command
    (.nothing, settle { t with site := { t.site with directory := directory } })
  | .readiness command =>
    let (answer, coordinator, journal) := t.site.coordinator.perform moment command
    (.readiness answer,
      settle { t with site := { t.site with coordinator := coordinator }.note journal })
  | .send id r scope plan =>
    (.nothing,
      settle (t.send id { r with scope := scope.bind t.site.directory.find? } plan))
  | .abort id =>
    let (site, flights) := abortAll id t.site t.flights
    (.nothing, settle { t with site := site, flights := flights })
  | .observe =>
    let (observation, site) := observe t.site
    (.observation observation, settle { t with site := site })
  | .advance d =>
    (.nothing, Clock.runUntil due fire t.site.now (t.site.now + d) t)

/-- The requests of `after` that were still on their way in `before`, or not there yet, and have
ended since. -/
def endedSince (before after : Traffic) : List (Flight × Nat × Completion) :=
  (after.flights.zipIdx).filterMap fun (f, i) =>
    match f.activity with
    | .ended at_ completion =>
      if (before.flights[i]?).all Flight.isPending then some (f, at_, completion) else none
    | _ => none

def pending (t : Traffic) : List String :=
  (t.flights.filter Flight.isPending).map (·.id)

end Traffic

end Gatehouse.Pipeline
