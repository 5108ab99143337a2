import Gatehouse.Config.Schema
import Gatehouse.Document.Basic
import Gatehouse.Scope.Basic
import Gatehouse.Telemetry.Journal

/-!
# Readiness of components

A registry of named components. Each is registered once and becomes ready once. The first time
that all registered components are ready, the all-ready signal fires; traffic readiness follows at
the same moment in standalone mode, and with the first notification after it in orchestrated mode.
Neither signal is ever taken back. Moments are readings of a calendar clock, given by the caller.

* `Coordinator.add`, `Coordinator.mark`, `Coordinator.notify`: what clients do.
* `Coordinator.fired`: whether a signal has fired.
* `Coordinator.status`: a snapshot of the registry.
-/

namespace Gatehouse.Readiness

open Config (TrafficMode)

inductive Signal where
  | allReady
  | trafficReady
  deriving DecidableEq, Repr

inductive Error where
  | emptyName
  | unknownComponent (name : String)
  | notReady
  | ended (cause : Cause)
  deriving DecidableEq, Repr

def Error.message : Error → String
  | .emptyName => "component name must not be empty"
  | .unknownComponent name => "unknown component: " ++ name
  | .notReady => "traffic readiness requires all components to be ready"
  | .ended cause => cause.message

/-- A registered part of the service: whether it is ready, and since when. -/
structure Component where
  name : String
  ready : Bool
  startedAt : Nat
  readyAt : Option Nat
  deriving DecidableEq, Repr

/-- The components of a service and the two signals that they raise. -/
structure Coordinator where
  mode : TrafficMode
  components : List Component
  allReadyAt : Option Nat
  trafficReadyAt : Option Nat
  deriving DecidableEq, Repr

structure Status where
  ready : Bool
  components : List Component
  readyAt : Option Nat
  trafficNotifiedAt : Option Nat
  deriving DecidableEq, Repr

def encodeMoment : Option Nat → Document
  | some moment => .integer moment
  | none => .null

def Component.encode (c : Component) : Document :=
  .table [("name", .text c.name), ("ready", .boolean c.ready),
    ("started_at", .integer c.startedAt), ("ready_at", encodeMoment c.readyAt)]

/-- The document of a snapshot, which the readiness probe answers with. -/
def Status.encode (s : Status) : Document :=
  .table [("ready", .boolean s.ready), ("components", .list (s.components.map Component.encode)),
    ("ready_at", encodeMoment s.readyAt),
    ("traffic_notified_at", encodeMoment s.trafficNotifiedAt)]

namespace Coordinator

def create (mode : TrafficMode) : Coordinator := ⟨mode, [], none, none⟩

def component? (c : Coordinator) (name : String) : Option Component :=
  c.components.find? (·.name == name)

/-- Every registered component has been ready at once. -/
def isReady (c : Coordinator) : Bool := c.allReadyAt.isSome

def isTrafficReady (c : Coordinator) : Bool := c.trafficReadyAt.isSome

def fired (c : Coordinator) : Signal → Bool
  | .allReady => c.isReady
  | .trafficReady => c.isTrafficReady

/-- The components with a new one at its place; names are ordered by their code points. -/
def insertSorted (new : Component) : List Component → List Component
  | [] => [new]
  | c :: rest => if new.name < c.name then new :: c :: rest else c :: insertSorted new rest

def nameField (name : String) : List (String × FieldValue) := [("component", .text name)]

/-- Registers a component. A name that is registered already is left as it is. -/
def add (c : Coordinator) (name : String) (moment : Nat) :
    Except Error Unit × Coordinator × Journal :=
  if name = "" then (.error .emptyName, c, [])
  else if (c.component? name).isSome then
    (.ok (), c, [.warn "Component already registered, ignoring" (nameField name)])
  else
    let late :=
      if c.isReady then
        [.warn "Component registered after all-ready fired; readiness will not revert"
          (nameField name)]
      else []
    (.ok (), { c with components := insertSorted ⟨name, false, moment, none⟩ c.components },
      late ++ [.debug "Component registered" (nameField name)])

def modeName : TrafficMode → String
  | .standalone => "Standalone"
  | .orchestrated => "Orchestrated"

/-- Records traffic readiness, unless it has been recorded before. -/
def recordTraffic (c : Coordinator) (moment : Nat) : Coordinator × Journal :=
  if c.isTrafficReady then (c, [])
  else
    ({ c with trafficReadyAt := some moment },
      [.info "Traffic ready" [("mode", .text (modeName c.mode))]])

/-- Fires the all-ready signal if every component is ready and it has not fired before. -/
def fireIfAllReady (c : Coordinator) (moment : Nat) : Coordinator × Journal :=
  if c.components.all Component.ready && !c.isReady then
    let c' := { c with allReadyAt := some moment }
    let event := .info "All components ready" [("components", .number c.components.length)]
    match c.mode with
    | .standalone =>
      let (c', journal) := c'.recordTraffic moment
      (c', event :: journal)
    | .orchestrated => (c', [event])
  else (c, [])

def setReady (name : String) (moment : Nat) (cs : List Component) : List Component :=
  cs.map fun c => if c.name = name then { c with ready := true, readyAt := some moment } else c

/-- Marks a component ready. One that is ready already keeps its moment. -/
def mark (c : Coordinator) (name : String) (moment : Nat) :
    Except Error Unit × Coordinator × Journal :=
  match c.component? name with
  | none => (.error (.unknownComponent name), c, [])
  | some component =>
    if component.ready then (.ok (), c, [])
    else
      let c := { c with components := setReady name moment c.components }
      let (c, journal) := c.fireIfAllReady moment
      (.ok (), c, .info "Component ready" (nameField name) :: journal)

/-- Takes a notification from outside that traffic may come. -/
def notify (c : Coordinator) (moment : Nat) : Except Error Unit × Coordinator × Journal :=
  match c.mode with
  | .standalone => (.ok (), c, [])
  | .orchestrated =>
    if c.isReady then
      let (c, journal) := c.recordTraffic moment
      (.ok (), c, journal)
    else (.error .notReady, c, [])

def later : Option Nat → Option Nat → Option Nat
  | none, b => b
  | a, none => a
  | some a, some b => some (max a b)

def status (c : Coordinator) : Status :=
  { ready := c.isReady
    components := c.components
    readyAt := (c.components.map (·.readyAt)).foldr later none
    trafficNotifiedAt := c.trafficReadyAt }

end Coordinator

inductive Command where
  | add (name : String)
  | mark (name : String)
  | notify

def Coordinator.perform (c : Coordinator) (moment : Nat) :
    Command → Except Error Unit × Coordinator × Journal
  | .add name => c.add name moment
  | .mark name => c.mark name moment
  | .notify => c.notify moment

/-- A wait for a signal, at an instant at which the scope of the wait has ended or not: a signal
that has fired goes before the end of the scope. `none` means that the wait goes on. -/
def Coordinator.poll (c : Coordinator) (signal : Signal) (cause : Option Cause) :
    Option (Except Error Unit) :=
  if c.fired signal then some (.ok ())
  else cause.map fun cause => .error (.ended cause)

end Gatehouse.Readiness
