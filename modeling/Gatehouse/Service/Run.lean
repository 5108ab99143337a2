import Gatehouse.Clock
import Gatehouse.Service.Basic

/-!
# The run of a service

A run checks its workers before anything else, registers the listener, starts the workers in
order, serves until shutdown is requested, and then stops the workers one after the other under
one deadline. A worker that cannot be started ends the run in the same way. Time is virtual: at
every instant the workers go as far as they can, and then the run does.

* `Service.begin`: everything before the service serves.
* `Service.progress`: what the run does at an instant.
* `Service.perform`: a step of somebody beside the run, and everything that follows from it.
-/

namespace Gatehouse.Service

def finish (s : Service) (result : Result) : Service := { s with phase := .ended s.now result }

/-- How long a service gives its workers to stop. -/
def drainTimeout (s : Service) : Nat := Duration.ofSeconds s.config.listener.drainTimeoutSecs.toNat

/-- The deadline of a stop that begins now, if the clock will ever show it. -/
def drainDeadline? (s : Service) : Option Nat :=
  (Instant.after? (s.uptime + s.now) s.drainTimeout).map (· - s.uptime)

/-- Begins to stop workers by one deadline. If there can be none, the run panics before it has
stopped any. -/
def beginStopping (s : Service) (workers : List Nat) (failure : Option RunError) : Service :=
  match s.drainDeadline? with
  | some deadline => { s with phase := .stopping ⟨deadline, none, workers, failure⟩ }
  | none => s.finish (.error .panicked)

/-- Only the run itself changes, none of what it runs. -/
theorem beginStopping_eq (s : Service) (workers : List Nat) (failure : Option RunError) :
    ∃ phase, s.beginStopping workers failure = { s with phase := phase } := by
  unfold beginStopping
  split <;> exact ⟨_, rfl⟩

def missingCollaborator? (workers : List Worker) : Option RunError :=
  workers.findSome? fun w =>
    match w.checkCollaborators with
    | .ok () => none
    | .error e => some (.worker w.name e)

/-- Starts workers in order. The first one that cannot be started is told, with its number. -/
def startAll (s : Service) : List Nat → Service × Option (Nat × Worker.Error)
  | [] => (s, none)
  | worker :: rest =>
    match s.startWorker worker with
    | (.ok (), s) => startAll s rest
    | (.error e, s) => (s, some (worker, e))

def nameOf (s : Service) (worker : Nat) : String := ((s.workers[worker]?).map (·.name)).getD ""

/-- Everything before the service serves, on a listener that is bound. -/
def beginOn (s : Service) : Service :=
  match missingCollaborator? s.workers with
  | some e => s.finish (.error e)
  | none =>
    let s := (s.command (.add serverComponent)).2
    match s.startAll (List.range s.workers.length) with
    | (s, some (worker, e)) =>
      let name := s.nameOf worker
      let s := s.note [.error "Worker failed to start"
        [("worker", .text name), ("error", .text (e.message name))]]
      (s.request Worker.fatalExitCode).beginStopping (List.range worker) (some (.worker name e))
    | (s, none) =>
      let s := (s.command (.mark serverComponent)).2
      { s with phase := .serving }.note [.info "HTTP server starting" []]

/-- Binds the configured address first, which works for the addresses of this host. -/
def begin (s : Service) (isLocal : String → Bool) : Service :=
  let address := s.config.listener.bindAddress
  if isLocal address then s.beginOn else s.finish (.error (.bind address))

def pollRun (s : Service) (worker run : Nat) : Service :=
  match s.workers[worker]? with
  | none => s
  | some w =>
    let (w, shutdown, journal) := w.poll run s.coordinator.fired s.now s.shutdown
    { s with workers := s.workers.set worker w, shutdown := shutdown }.note journal

def pollRuns (s : Service) : Service := s.runs.foldl (fun s (worker, run) => s.pollRun worker run) s

/-- The end of the run when every worker has been stopped or given up. -/
def conclude (s : Service) (failure : Option RunError) : Service :=
  match failure with
  | some e => s.finish (.error e)
  | none =>
    let code := s.shutdown.exitCode.getD 0
    (s.finish (.ok code)).note [.info "Shutdown complete" [("exit_code", .number code)]]

/-- Waits for the run of a worker to end. One that has not ended by the deadline is given up. -/
def awaitRun (s : Service) (p : Stopping) (worker run : Nat) : Service :=
  match s.workers[worker]? with
  | none => { s with phase := .stopping { p with waiting := none } }
  | some w =>
    if w.isEnded run then { s with phase := .stopping { p with waiting := none } }
    else if p.deadline ≤ s.now then
      let (w, journal) := w.giveUp run .deadlineExceeded
      let error := Worker.Error.stopAbandoned .deadlineExceeded
      { s with
        workers := s.workers.set worker w
        phase := .stopping { p with waiting := none } }.note
        (journal ++ [Entry.warn "Worker stop abandoned" [("error", .text (error.message w.name))]])
    else { s with phase := .stopping { p with waiting := some (worker, run) } }

/-- What the run of the service does at an instant: one move of its own. -/
def progress (s : Service) : Service :=
  match s.phase with
  | .idle => s
  | .serving =>
    if s.shutdown.isTriggered then
      (s.note [.info "HTTP server stopped" []]).beginStopping (List.range s.workers.length) none
    else s
  | .stopping p =>
    match p.waiting, p.remaining with
    | some (worker, run), _ => s.awaitRun p worker run
    | none, [] => s.conclude p.failure
    | none, worker :: rest =>
      let p := { p with remaining := rest }
      match s.workers[worker]? with
      | none => { s with phase := .stopping p }
      | some w =>
        match w.beginStop with
        | (none, w) => { s with workers := s.workers.set worker w, phase := .stopping p }
        | (some run, w) => { s with workers := s.workers.set worker w }.awaitRun p worker run
  | .ended _ _ => s

def work (s : Service) : Nat :=
  match s.phase with
  | .idle => 2 * s.workers.length + 3
  | .serving => 2 * s.workers.length + 2
  | .stopping p => 2 * p.remaining.length + (if p.waiting.isSome then 1 else 0) + 1
  | .ended _ _ => 0

def moveOn (s : Service) : Service :=
  let s' := s.progress
  if s'.work < s.work then moveOn s' else s'
termination_by s.work

/-- Lets everything happen that happens now: the workers first, then the run, until the run has to
wait for the workers or for time to pass. -/
def settle (s : Service) : Service :=
  let s' := s.pollRuns.moveOn
  if s'.work < s.work then settle s' else s'
termination_by s.work

def isOver (s : Service) : Bool :=
  match s.phase with
  | .ended _ _ => true
  | _ => false

/-- The earliest instant at which something goes on by itself. Nothing does when the run is over. -/
def due (s : Service) : Option Nat :=
  let deadline := match s.phase with
    | .stopping p => some p.deadline
    | _ => none
  if s.isOver then none else Clock.earlier deadline (Clock.earliest (s.workers.map Worker.due))

def fire (t : Nat) (s : Service) : Service := if s.isOver then s else settle { s with now := t }

inductive Step where
  | command (command : Readiness.Command)
  | request (code : Int)
  | advance (d : Nat)

/-- What a step answers, and what it finds of the readiness of the service. -/
structure StepAnswer where
  answer : Option (Except Readiness.Error Unit)
  ready : Bool
  trafficReady : Bool

def answer (s : Service) (answer : Option (Except Readiness.Error Unit)) : StepAnswer :=
  ⟨answer, s.coordinator.isReady, s.coordinator.isTrafficReady⟩

/-- The instant at which a run that nobody ends is given up. -/
def patience : Nat := Duration.ofMillis 10000000

/-- Carries out a step and lets its consequences happen. There is an answer unless the run is over
or given up before the step is. -/
def perform (s : Service) (step : Step) : Option StepAnswer × Service :=
  if s.isOver || patience ≤ s.now then (none, s)
  else match step with
    | .command c =>
      let (result, s) := s.command c
      (some (s.answer (some result)), s.settle)
    | .request code =>
      let s := s.request code
      (some (s.answer none), s.settle)
    | .advance d =>
      let target := s.now + d
      let s := Clock.runUntil due fire s.now (min target patience) s.settle
      (if s.isOver || patience < target then none else some (s.answer none), s)

def isServing (s : Service) : Bool :=
  match s.phase with
  | .serving => true
  | _ => false

/-- A whole run beside some steps, and the answers of those that were done before its end. The run
goes first as far as it can. As soon as it serves, the first step is taken, even before any worker
gets to go on; beside a run that never serves no step is taken. -/
def run (s : Service) (isLocal : String → Bool) (steps : List Step) : List StepAnswer × Service :=
  let s := (s.begin isLocal).moveOn
  let (answers, s) := (if s.isServing then steps else []).foldl (fun (answers, s) step =>
    let (answer, s) := s.perform step
    (answers ++ answer.toList, s)) ([], s)
  let s := s.settle
  (answers, Clock.runUntil due fire s.now patience s)

end Gatehouse.Service
