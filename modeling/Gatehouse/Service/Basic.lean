import Gatehouse.Config.Validate
import Gatehouse.Pipeline.Gates
import Gatehouse.Worker.Basic

/-!
# Services

A service is wired together from a valid configuration: its gates and pipeline, the readiness of
its components, its shutdown and its workers.

* `Service.create`: a service that has not begun to run, or why there is none.
* `Service.addWorker`: one more worker.
-/

namespace Gatehouse

namespace Service

/-- The component that stands for the listener of a service. -/
def serverComponent : String := "http-server"

inductive CreationError where
  | invalidConfig (problems : List Config.Problem)
  | unmanageable
  deriving DecidableEq, Repr

def invalidText (problems : List Config.Problem) : String :=
  "invalid configuration: " ++ Config.joinProblems problems

inductive RunError where
  | bind (address : String)
  | worker (name : String) (error : Worker.Error)
  /-- The run has panicked, and its caller gets neither an error nor an exit code. -/
  | panicked
  deriving DecidableEq, Repr

/-- How a run of a service ends: with an exit code if nothing failed. -/
abbrev Result := Except RunError Int

/-- A run of workers that are being stopped, one after the other, by one deadline. -/
structure Stopping where
  deadline : Nat
  waiting : Option (Nat × Nat)
  remaining : List Nat
  failure : Option RunError
  deriving DecidableEq

inductive Phase where
  | idle
  | serving
  | stopping (s : Stopping)
  | ended (at_ : Nat) (result : Result)

end Service

open Service in
structure Service where
  /-- How long the clock had been running when the service was made. The instants of the service
  count from then. -/
  uptime : Nat
  now : Nat
  config : Config
  gates : Pipeline.Gates
  pipeline : Pipeline
  coordinator : Readiness.Coordinator
  shutdown : Shutdown
  workers : List Worker
  /-- The runs of all workers as pairs of a worker and a run, in the order of their starts. -/
  runs : List (Nat × Nat)
  phase : Phase
  journal : Journal

namespace Service

def quotedNames (names : List String) : String :=
  "[" ++ ", ".intercalate (names.map fun name => "\"" ++ name ++ "\"") ++ "]"

def create (c : Config) (uptime : Nat) : Except CreationError Service :=
  match c.validate with
  | .error problems => .error (.invalidConfig problems)
  | .ok () =>
    match Pipeline.Gates.ofConfig? c.admission 0 with
    | none => .error .unmanageable
    | some gates =>
      let pipeline := gates.pipeline c.admission
      .ok
        { uptime := uptime
          now := 0
          config := c
          gates := gates
          pipeline := pipeline
          coordinator := .create c.readiness.trafficMode
          shutdown := .create
          workers := []
          runs := []
          phase := .idle
          journal := [.info "Admission pipeline built"
            [("stages", .text (quotedNames pipeline.names))]] }

def note (s : Service) (entries : Journal) : Service := { s with journal := s.journal ++ entries }

def startWorker (s : Service) (worker : Nat) : Except Worker.Error Unit × Service :=
  match s.workers[worker]? with
  | none => (.ok (), s)
  | some w =>
    match w.start with
    | (.ok (), started, journal) =>
      (.ok (),
        { s with
          workers := s.workers.set worker started
          runs := s.runs ++ [(worker, w.runs.length)] }.note journal)
    | (.error e, w, journal) =>
      (.error e, { s with workers := s.workers.set worker w }.note journal)

def addWorker (s : Service) (w : Worker) (started : Bool) : Service :=
  let s' := { s with workers := s.workers ++ [w] }
  if started then (s'.startWorker s.workers.length).2 else s'

def command (s : Service) (c : Readiness.Command) : Except Readiness.Error Unit × Service :=
  let (answer, coordinator, journal) := s.coordinator.perform s.now c
  (answer, { s with coordinator := coordinator }.note journal)

def request (s : Service) (code : Int) : Service :=
  let (shutdown, journal) := s.shutdown.request code
  { s with shutdown := shutdown }.note journal

end Service

end Gatehouse
