import Gatehouse.Clock
import Gatehouse.Http.Router
import Gatehouse.Pipeline.Frame

/-!
# Requests in flight

One request on its way through a pipeline: the frames of the stages it is inside of, and what it
waits for. It goes inwards until it has to wait or until something ends; what ends rises through
the frames. Timeouts are looked at only after everything inside them has had its chance.

* `Flight.enter`: the way inwards.
* `Flight.complete`: the way outwards.
* `Flight.poll`: what a waiting request has come to at an instant.
-/

namespace Gatehouse.Pipeline

inductive HandlerResult where
  | response (response : Http.Response)
  | failure (failure : Failure)
  | panic (payload : Panic)

/-- What a handler does with a request. -/
structure HandlerPlan where
  /-- It first waits for the end of the request's scope. -/
  awaitsEnd : Bool
  /-- After that wait it fails with the cause. -/
  failsWithCause : Bool
  duration : Nat
  /-- It cancels the request's scope when the work is done. -/
  cancelsScope : Bool
  result : HandlerResult

inductive Edge where
  /-- The caller is given outcomes as they are. -/
  | direct
  /-- The service renders its failures, and the edge those of the pipeline. -/
  | rendered
  /-- As before, behind the routes of a server. -/
  | routed (routes : List String)
  deriving DecidableEq, Repr

/-- What a handler saw of its request. -/
structure Sight where
  id : Option Http.RequestId
  remaining : Option Nat
  cause : Option Cause
  deriving Repr

/-- What a request waits for, or how it ended. -/
inductive Activity where
  | queued (ticket deadline : Nat) (scope : Scope) (rest : List Interceptor)
    (request : Http.Request)
  | awaitingEnd (scope : Scope)
  | working (done : Nat) (scope : Scope)
  | ended (at_ : Nat) (completion : Completion)
  | aborted

/-- A request on its way through the pipeline, with what it is inside of and what it waits for. -/
structure Flight where
  id : String
  edge : Edge
  method : String
  plan : HandlerPlan
  trace : List String
  sight : Option Sight
  /-- The stages it is inside of, the innermost first. -/
  frames : List Frame
  activity : Activity

/-- Whether a server leaves the body of a response out: always for `HEAD`, and where `CONNECT`
succeeds. -/
def omitsBody (method : String) (status : Nat) : Bool :=
  method == "HEAD" || (method == "CONNECT" && Http.isSuccess status)

def Edge.deliver (e : Edge) (method : String) : Completion → Completion
  | .panic payload => .panic payload
  | .outcome o =>
    match e with
    | .direct => .outcome o
    | .rendered => .outcome (.ok (Http.Outcome.render o))
    | .routed _ =>
      let response := Http.Outcome.render o
      .outcome (.ok
        (if omitsBody method response.status then { response with body := .text "" } else response))

def Edge.present (e : Edge) (o : Http.Outcome) : Http.Outcome :=
  match e with
  | .direct => o
  | _ => .ok (Http.Outcome.render o)

namespace Flight

def handlerLabel : String := "handler"

def push (f : Flight) (frame : Frame) : Flight := { f with frames := frame :: f.frames }

def marked (f : Flight) (label : String) : Flight := { f with trace := f.trace ++ [label] }

/-- Everything inside the frames has ended. -/
def complete (f : Flight) (site : Site) (c : Completion) : Site × Flight :=
  let (site, c) := ascend site c f.frames
  (site, { f with frames := [], activity := .ended site.now (f.edge.deliver f.method c) })

def reject (f : Flight) (site : Site) (failure : Failure) (event : Entry) : Site × Flight :=
  f.complete (site.note (rejection event failure)) (.outcome (.error failure))

def finishWork (f : Flight) (site : Site) (scope : Scope) : Site × Flight :=
  let site := if f.plan.cancelsScope then site.cancel scope else site
  f.complete site <| match f.plan.result with
    | .response r => .outcome (f.edge.present (.ok r))
    | .failure e => .outcome (f.edge.present (.error e))
    | .panic payload => .panic payload

def beginWork (f : Flight) (site : Site) (scope : Scope) : Site × Flight :=
  if f.plan.duration = 0 then f.finishWork site scope
  else (site, { f with activity := .working (site.now + f.plan.duration) scope })

def awaitEnd (f : Flight) (site : Site) (scope : Scope) : Site × Flight :=
  match site.cancelled? scope with
  | none => (site, { f with activity := .awaitingEnd scope })
  | some cause =>
    if f.plan.failsWithCause then
      f.complete site (.outcome (f.edge.present (.error (.ofCause cause))))
    else f.beginWork site scope

def handle (f : Flight) (site : Site) (r : Http.Request) : Site × Flight :=
  let (scope, site) := site.scopeOf r
  let sight : Sight := ⟨r.id, scope.deadline.map (· - site.now), site.cause? scope⟩
  let f := { f.marked handlerLabel with sight := some sight }
  if f.plan.awaitsEnd then f.awaitEnd site scope else f.beginWork site scope

def alive : Http.Response :=
  ⟨200, [Http.jsonContentType], .text (Document.Json.render (.table [("status", .text "alive")]))⟩

/-- The request has passed every stage. -/
def arrive (f : Flight) (site : Site) (r : Http.Request) : Site × Flight :=
  match f.edge with
  | .routed routes =>
    match Http.Destination.resolve routes r.method r.path with
    | .service => f.handle site r
    | .liveness => f.complete site (.outcome (.ok alive))
    | .readiness =>
      let (response, coordinator, journal) := Readiness.Probe.run site.coordinator site.moment
      f.complete ({ site with coordinator := coordinator }.note journal) (.outcome (.ok response))
    | .notFound => f.complete site (.outcome (.ok ⟨404, [], .text ""⟩))
    | .methodNotAllowed => f.complete site (.outcome (.ok ⟨405, [], .text ""⟩))
  | _ => f.handle site r

def refuse (f : Flight) (site : Site) : Bulkhead.Refusal → Site × Flight
  | .full capacity =>
    f.reject site .bulkheadFull (.warn "Bulkhead full, rejecting request"
      [("capacity", .number capacity)])
  | .ended cause => f.complete site (.outcome (.error (.ofCause cause)))

/-- The way inwards through the stages that are left. -/
def enter (f : Flight) (site : Site) (r : Http.Request) : List Interceptor → Site × Flight
  | [] => f.arrive site r
  | stage :: rest =>
    if Http.isProbePath r.path && stage.bypassesProbes then f.enter site r rest
    else match stage with
    | .panicRecovery => (f.push (.recovery r.method r.path)).enter site r rest
    | .timeout limit =>
      let (parent, site) := site.scopeOf r
      let (scope, tokens) := parent.childUntil (site.now + limit) site.directory.tokens
      (f.push (.timeout limit scope)).enter (site.setTokens tokens) { r with scope := some scope }
        rest
    | .rateLimit =>
      match site.gates.limiter with
      | none => f.enter site r rest
      | some l =>
        let (granted, l) := l.tryAcquire site.now
        let site := site.setLimiter l
        if granted then f.enter site r rest
        else f.reject site .rateLimited (.debug "Rate limit exceeded" [("path", .text r.path)])
    | .circuitBreaker =>
      match site.gates.breaker with
      | none => f.enter site r rest
      | some b =>
        let (scope, site) := site.scopeOf r
        let (answer, b, journal) := b.tryAcquire site.now
        let site := (site.setBreaker b).note journal
        match answer with
        | .ok admission => (f.push (.call admission scope)).enter site r rest
        | .error state =>
          f.reject site (.breakerOpen b.name) (.debug "Circuit breaker rejected request"
            [("breaker", .text b.name), ("state", .text state.name)])
    | .bulkhead =>
      match site.gates.bulkhead with
      | none => f.enter site r rest
      | some b =>
        let (scope, site) := site.scopeOf r
        let (ticket, b) := b.enter
        let deadline := site.now + b.acquireTimeout
        let (progress, b, journal) := b.poll ticket deadline site.now (site.cancelled? scope)
        let site := (site.setBulkhead b).note journal
        match progress with
        | .waits => (site, { f with activity := .queued ticket deadline scope rest r })
        | .holds => (f.push .slot).enter site r rest
        | .refused reason => f.refuse site reason
    | .requestLogging =>
      let (id, ids) :=
        Http.RequestId.assign (Http.Headers.get? r.headers Http.requestIdHeader) site.ids
      (f.push (.logging id r.method r.path site.now)).enter { site with ids := ids }
        { r with id := some id } rest
    | .schemaValidation v =>
      let f := f.marked v.label
      match v.check r with
      | .accepted => f.enter site r rest
      | .rejected failure =>
        f.complete (site.note [.debug "Request failed validation"
          [("path", .text r.path), ("error", .text failure.toText)]]) (.outcome (.error failure))
      | .panicked payload =>
        { f with frames := pastUnarmed f.frames }.complete site (.panic payload)
    | .errorTranslation translate => (f.push (.translation translate)).enter site r rest
    | .mark label _ rejection =>
      let f := f.marked label
      match rejection with
      | some failure => f.complete site (.outcome (.error failure))
      | none => f.enter site r rest

def pollActivity (f : Flight) (site : Site) : Site × Flight :=
  match f.activity with
  | .queued ticket deadline scope rest r =>
    match site.gates.bulkhead with
    | none => (site, f)
    | some b =>
      let (progress, b, journal) := b.poll ticket deadline site.now (site.cancelled? scope)
      let site := (site.setBulkhead b).note journal
      match progress with
      | .waits => (site, f)
      | .holds => (f.push .slot).enter site r rest
      | .refused reason => f.refuse site reason
  | .awaitingEnd scope => f.awaitEnd site scope
  | .working done scope => if done ≤ site.now then f.finishWork site scope else (site, f)
  | .ended _ _ => (site, f)
  | .aborted => (site, f)

def discardActivity (f : Flight) (site : Site) : Site :=
  match f.activity with
  | .queued ticket _ _ _ _ => site.onBulkhead fun b => (b.withdraw ticket, [])
  | _ => site

def isPending (f : Flight) : Bool :=
  match f.activity with
  | .ended _ _ => false
  | .aborted => false
  | _ => true

/-- Ends the innermost timeout whose scope has ended. Everything inside is dropped, then the scope
is cancelled, so that whatever was derived from it ends as well. -/
def pollTimeouts (f : Flight) (site : Site) : Site × Flight :=
  match expired? site f.frames with
  | none => (site, f)
  | some e =>
    let site := (discardAll (f.discardActivity site) e.inner).cancel e.scope
    { f with frames := e.outer }.reject site (.ofCause e.cause)
      (.debug "Request ended before handler finished"
        [("timeout_ms", .number (Duration.toMillis e.limit)), ("cause", .text e.cause.message)])

/-- Lets a request go as far as it can at an instant: first what it waits for, then timeouts. -/
def poll (f : Flight) (site : Site) : Site × Flight :=
  let (site, f) := f.pollActivity site
  if f.isPending then f.pollTimeouts site else (site, f)

def abort (f : Flight) (site : Site) : Site × Flight :=
  if f.isPending then
    (discardAll (f.discardActivity site) f.frames, { f with frames := [], activity := .aborted })
  else (site, f)

def due (f : Flight) : Option Nat :=
  let waits := match f.activity with
    | .queued _ deadline scope _ _ => Clock.earlier (some deadline) scope.deadline
    | .awaitingEnd scope => scope.deadline
    | .working done _ => some done
    | _ => none
  Clock.earlier waits (Clock.earliest (f.frames.map Frame.due))

/-- How much a request still has to do, at most: every wait that ends lowers it. -/
def work (f : Flight) : Nat :=
  match f.activity with
  | .queued _ _ _ rest _ => rest.length + 3
  | .awaitingEnd _ => 2
  | .working _ _ => 1
  | _ => 0

end Flight

end Gatehouse.Pipeline
