import Gatehouse.Clock
import Gatehouse.Scope.Directory
import Gatehouse.Worker.Basic

/-!
# Starting and stopping a worker

One worker beside a coordinator and a shutdown, whether or not it was given them, and the tasks
that stop it, in virtual time. A stop that finds nothing to stop is done at once; another one is
done when the run has ended, and gives up when its scope ends first.

* `Supervision.act`: what a step does by itself.
* `Supervision.settle`: everything that follows from it at the same instant.
-/

namespace Gatehouse.Worker

open Readiness (Coordinator Signal)

inductive StopStage where
  | asked
  | waiting (run : Nat)
  | ended (result : Except Error Unit)

structure Stop where
  id : String
  /-- `none` for a scope that never ends. -/
  scope : Option Scope
  stage : StopStage

def Stop.isNew (s : Stop) : Bool :=
  match s.stage with
  | .asked => true
  | _ => false

def Stop.due (s : Stop) : Option Nat :=
  match s.stage with
  | .waiting _ => s.scope.bind (·.deadline)
  | _ => none

structure Supervision where
  now : Nat
  directory : Scope.Directory
  coordinator : Coordinator
  shutdown : Shutdown
  worker : Worker
  stops : List Stop
  journal : Journal

inductive Answer where
  | nothing
  | worker (answer : Except Error Unit)
  | readiness (answer : Except Readiness.Error Unit)

namespace Supervision

inductive Step where
  | check
  | start
  | stop (id : String) (scope : Option String)
  | request (code : Int)
  | command (command : Readiness.Command) (moment : Nat)
  | scope (command : Scope.Command)
  | advance (d : Nat)

def create (worker : Worker) (mode : Config.TrafficMode) : Supervision :=
  ⟨0, .empty, .create mode, .create, worker, [], []⟩

def cause? (r : Supervision) (s : Stop) : Option Cause :=
  s.scope.bind fun scope => scope.cancelled? r.directory.tokens r.now

/-- Looks at one stop. A run that has ended goes before a scope that has. -/
def visitStop (w : Worker) (cause : Option Cause) (s : Stop) : Stop × Worker × Journal :=
  let look (w : Worker) (run : Nat) : Stop × Worker × Journal :=
    if w.isEnded run then ({ s with stage := .ended (.ok ()) }, w, [])
    else match cause with
      | none => ({ s with stage := .waiting run }, w, [])
      | some cause =>
        let (w, journal) := w.giveUp run cause
        ({ s with stage := .ended (.error (.stopAbandoned cause)) }, w, journal)
  match s.stage with
  | .asked =>
    match w.beginStop with
    | (none, w) => ({ s with stage := .ended (.ok ()) }, w, [])
    | (some run, w) => look w run
  | .waiting run => look w run
  | .ended _ => (s, w, [])

def visitStops (r : Supervision) : Supervision :=
  r.stops.foldl (fun r s =>
    let (s, w, journal) := visitStop r.worker (r.cause? s) s
    { r with worker := w, stops := r.stops ++ [s], journal := r.journal ++ journal })
    { r with stops := [] }

def pollRuns (r : Supervision) : Supervision :=
  (List.range r.worker.runs.length).foldl (fun r run =>
    let (w, s, journal) := r.worker.poll run r.coordinator.fired r.now r.shutdown
    { r with worker := w, shutdown := s, journal := r.journal ++ journal }) r

/-- Lets everything happen that happens now. A new stop looks at the worker before its run can
go on; the run ends before the stops that wait for it look again. -/
def settle (r : Supervision) : Supervision :=
  let r := if r.stops.any Stop.isNew then r.visitStops else r
  r.pollRuns.visitStops

def due (r : Supervision) : Option Nat :=
  Clock.earlier r.worker.due (Clock.earliest (r.stops.map Stop.due))

def fire (t : Nat) (r : Supervision) : Supervision := settle { r with now := t }

/-- What a step does by itself, before anything follows from it. Time that passes is the
exception: whatever falls due on the way happens. -/
def act (r : Supervision) : Step → Answer × Supervision
  | .check => (.worker r.worker.checkCollaborators, r)
  | .start =>
    let (answer, w, journal) := r.worker.start
    (.worker answer, { r with worker := w, journal := r.journal ++ journal })
  | .stop id scope =>
    (.nothing, { r with stops := r.stops ++ [⟨id, scope.bind r.directory.find?, .asked⟩] })
  | .request code =>
    let (s, journal) := r.shutdown.request code
    (.nothing, { r with shutdown := s, journal := r.journal ++ journal })
  | .command command moment =>
    let (answer, c, journal) := r.coordinator.perform moment command
    (.readiness answer, { r with coordinator := c, journal := r.journal ++ journal })
  | .scope command => (.nothing, { r with directory := r.directory.perform r.now command })
  | .advance d => (.nothing, Clock.runUntil due fire r.now (r.now + d) r)

end Supervision

end Gatehouse.Worker
