import Gatehouse.Clock
import Gatehouse.Readiness.Coordinator
import Gatehouse.Shutdown.Basic
import Gatehouse.Worker.Exit

/-!
# Workers

A worker runs one long-lived task at a time. Each start makes a new run with a token of its own;
the run may first wait for the service to be ready, then invokes the body, and however the body
ends the exit is counted and the worker is stopped. A failure can ask for the shutdown of the
process. To stop a worker is to take the current run, cancel its token and wait for its end; who
gives up puts the run back, so that a later stop can wait for it.

* `Worker.start`: makes a run, unless one is unfinished.
* `Worker.poll`: what a run does at an instant.
* `Worker.beginStop`, `Worker.giveUp`: the two halves of a stop.
-/

namespace Gatehouse

namespace Worker

open Readiness (Signal)

structure Options where
  waitForReadiness : Bool
  waitForTrafficReady : Bool
  escalateOnFatalError : Bool
  deriving DecidableEq, Repr

inductive State where
  | idle
  | running
  | stopping
  | stopped
  deriving DecidableEq, Repr

def State.name : State → String
  | .idle => "Idle"
  | .running => "Running"
  | .stopping => "Stopping"
  | .stopped => "Stopped"

inductive Result where
  | ok
  | error (text : String)
  | panic
  deriving DecidableEq, Repr

/-- What one invocation of a body does. -/
structure Plan where
  /-- How long it takes by itself; `none` is for ever. -/
  duration : Option Nat
  result : Result
  /-- How it ends at once when its token is cancelled; `none` ignores the token. -/
  onCancel : Option Result
  /-- The invocation itself panics, so that there is nothing that could run. -/
  panicsAtOnce : Bool
  deriving DecidableEq, Repr

/-- What the invocations of a body do: there is a plan for the first one, and the last plan is for
all further ones. -/
structure Plans where
  first : Plan
  further : List Plan
  deriving DecidableEq, Repr

/-- What the invocation does before which there were `n` others. -/
def Plans.nth (plans : Plans) (n : Nat) : Plan := (plans.further.take n).getLastD plans.first

@[simp]
theorem Plans.nth_only (plan : Plan) (n : Nat) : Plans.nth ⟨plan, []⟩ n = plan := by
  rw [nth, List.take_nil]
  rfl

inductive Stage where
  | awaiting (signals : List Signal)
  | body (plan : Plan) (endsAt : Option Nat)
  | ended
  deriving DecidableEq, Repr

structure Run where
  stage : Stage
  cancelled : Bool
  deriving DecidableEq, Repr

inductive Error where
  | alreadyRunning
  | missingReadiness
  | missingShutdown
  | stopAbandoned (cause : Cause)
  deriving DecidableEq, Repr

def Error.message (name : String) : Error → String
  | .alreadyRunning => "worker '" ++ name ++ "' is already running"
  | .missingReadiness =>
    "worker '" ++ name ++ "' waits for readiness but has no readiness coordinator"
  | .missingShutdown => "worker '" ++ name ++ "' escalates fatal errors but has no shutdown handle"
  | .stopAbandoned cause => "stopping worker '" ++ name ++ "' gave up: " ++ cause.message

def fatalExitCode : Int := 1

end Worker

open Worker in
/-- A background task of the service, with all of its runs. -/
structure Worker where
  name : String
  options : Options
  body : Plans
  hasReadiness : Bool
  hasShutdown : Bool
  state : State
  runs : List Run
  /-- The run that a stop would take. -/
  current : Option Nat
  calls : Nat
  deriving DecidableEq, Repr

namespace Worker

open Readiness (Coordinator Signal)

def create (name : String) (options : Options) (body : Plans)
    (hasReadiness hasShutdown : Bool) : Worker :=
  ⟨name, options, body, hasReadiness, hasShutdown, .idle, [], none, 0⟩

def nameField (w : Worker) : String × FieldValue := ("worker", .text w.name)

def checkCollaborators (w : Worker) : Except Error Unit :=
  if (w.options.waitForReadiness || w.options.waitForTrafficReady) && !w.hasReadiness then
    .error .missingReadiness
  else if w.options.escalateOnFatalError && !w.hasShutdown then .error .missingShutdown
  else .ok ()

/-- Whether a run has ended. A run that was never made counts as ended. -/
def isEnded (w : Worker) (run : Nat) : Bool :=
  match w.runs[run]? with
  | some r => r.stage == .ended
  | none => true

def isBusy (w : Worker) : Bool :=
  match w.current with
  | some run => !w.isEnded run
  | none => false

def awaited (w : Worker) : List Signal :=
  if w.hasReadiness then
    (if w.options.waitForReadiness then [.allReady] else []) ++
      (if w.options.waitForTrafficReady then [.trafficReady] else [])
  else []

/-- Makes a new run, unless the current one is unfinished. -/
def start (w : Worker) : Except Error Unit × Worker × Journal :=
  match w.checkCollaborators with
  | .error e => (.error e, w, [])
  | .ok () =>
    if w.isBusy then (.error .alreadyRunning, w, [])
    else
      (.ok (),
        { w with
          state := .idle
          runs := w.runs ++ [⟨.awaiting w.awaited, false⟩]
          current := some w.runs.length },
        [.debug "Worker started" [w.nameField]])

def setRun (w : Worker) (run : Nat) (f : Run → Run) : Worker :=
  { w with runs := w.runs.modify run f }

/-- The first half of a stop: takes the current run and cancels its token. The answer is the run
to wait for, `none` where there is no run at all. -/
def beginStop (w : Worker) : Option Nat × Worker :=
  match w.current with
  | none => (none, w)
  | some run =>
    let w' := { w.setRun run (fun r => { r with cancelled := true }) with current := none }
    if !w.isEnded run && (w.state == .idle || w.state == .running) then
      (some run, { w' with state := .stopping })
    else (some run, w')

/-- The end of a stop that gives up: the run is put back. -/
def giveUp (w : Worker) (run : Nat) (cause : Cause) : Worker × Journal :=
  ({ w with current := some run },
    [.warn "Worker did not stop in time" [w.nameField, ("cause", .text cause.message)]])

/-- What the next invocation does. -/
def nextPlan (w : Worker) : Plan := w.body.nth w.calls

/-- Ends a run: its exit is counted, and the worker is stopped. -/
def finish (w : Worker) (run : Nat) (exit : Exit) : Worker × Journal :=
  ({ w.setRun run (fun r => { r with stage := .ended }) with state := .stopped },
    [.measure (.workerExit w.name exit)])

def Result.failure? : Result → Option String
  | .ok => none
  | .error text => some text
  | .panic => some "worker panicked"

/-- Ends a run whose body has ended, and asks for shutdown where a failure has to and the worker was
given one to ask. -/
def bodyEnded (w : Worker) (run : Nat) (result : Result) (s : Shutdown) :
    Worker × Shutdown × Journal :=
  match result.failure? with
  | none =>
    let (w', journal) := w.finish run .ok
    (w', s, .info "Worker finished" [w.nameField] :: journal)
  | some text =>
    if w.options.escalateOnFatalError then
      let event := .error "Worker failed, requesting shutdown" [w.nameField, ("error", .text text)]
      let (w', journal) := w.finish run .escalated
      if w.hasShutdown then
        let (s, requested) := s.request fatalExitCode
        (w', s, event :: (requested ++ journal))
      else (w', s, event :: journal)
    else
      let (w', journal) := w.finish run .failed
      (w', s, .error "Worker failed" [w.nameField, ("error", .text text)] :: journal)

/-- Looks at a run whose body runs: cancellation of its token goes before its own end. -/
def pollBody (w : Worker) (run : Nat) (plan : Plan) (endsAt : Option Nat) (cancelled : Bool)
    (now : Nat) (s : Shutdown) : Worker × Shutdown × Journal :=
  match if cancelled then plan.onCancel else none with
  | some result => w.bodyEnded run result s
  | none =>
    match endsAt with
    | some t => if t ≤ now then w.bodyEnded run plan.result s else (w, s, [])
    | none => (w, s, [])

/-- Invokes the body. An invocation that panics at once takes the whole run with it, and nothing
more is told about it. -/
def beginBody (w : Worker) (run : Nat) (cancelled : Bool) (now : Nat) (s : Shutdown) :
    Worker × Shutdown × Journal :=
  let plan := w.nextPlan
  let endsAt := plan.duration.map fun d => now + d
  let state := if w.state == .idle then .running else w.state
  let event := .info "Worker running" [w.nameField]
  if plan.panicsAtOnce then
    ({ w.setRun run (fun r => { r with stage := .ended }) with
        state := state, calls := w.calls + 1 }, s, [event])
  else
    let w := { w.setRun run (fun r => { r with stage := .body plan endsAt }) with
      state := state, calls := w.calls + 1 }
    let (w, s, journal) := w.pollBody run plan endsAt cancelled now s
    (w, s, event :: journal)

def waitEvent (w : Worker) (signal : Signal) : Entry :=
  let message := match signal with
    | .allReady => "Stopped while waiting for readiness"
    | .trafficReady => "Stopped while waiting for traffic readiness"
  .debug message [w.nameField, ("error", .text Cause.cancelled.message)]

/-- Goes through the signals that a run waits for. One that has fired is passed even if the token
was cancelled; one that has not ends the run if it was. -/
def pollSignals (w : Worker) (run : Nat) (fired : Signal → Bool) (cancelled : Bool) (now : Nat)
    (s : Shutdown) : List Signal → Worker × Shutdown × Journal
  | [] => w.beginBody run cancelled now s
  | signal :: rest =>
    if fired signal then w.pollSignals run fired cancelled now s rest
    else if cancelled then
      let (w', journal) := w.finish run .cancelledBeforeStart
      (w', s, w.waitEvent signal :: journal)
    else
      (w.setRun run fun r => { r with stage := .awaiting (signal :: rest) }, s, [])

def poll (w : Worker) (run : Nat) (fired : Signal → Bool) (now : Nat) (s : Shutdown) :
    Worker × Shutdown × Journal :=
  match w.runs[run]? with
  | none => (w, s, [])
  | some r =>
    match r.stage with
    | .awaiting signals => w.pollSignals run fired r.cancelled now s signals
    | .body plan endsAt => w.pollBody run plan endsAt r.cancelled now s
    | .ended => (w, s, [])

def Run.due (r : Run) : Option Nat :=
  match r.stage with
  | .body _ endsAt => endsAt
  | _ => none

def due (w : Worker) : Option Nat := Clock.earliest (w.runs.map Run.due)

end Worker

end Gatehouse
