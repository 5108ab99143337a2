import Gatehouse.Proofs.Clock
import Gatehouse.Worker.Supervision

/-!
# Starting and stopping a worker, one move at a time

A step of the supervision settles: every stop has a look at the worker, then every run goes on,
then the stops look again. The tasks behind them know of no such order. A move concerns one of
them only: a start, a new stop, one look of one stop, one look at one run, or something that
happens outside of the worker. Made in any order, moves give every interleaving of the starts, the
stops and the runs.

* `Supervision.move`: a single move.
* `settle_keeps`: what looking at one of them keeps, settling keeps.
* `Supervision.Orderly`: what comes of moves among which no start meets a stop that still waits.
* `Orderly.perform`: a whole step is a sequence of moves.
-/

namespace Gatehouse.Worker

/-- The run that a stop has taken and waits for. -/
def Stop.awaits? (s : Stop) : Option Nat :=
  match s.stage with
  | .waiting run => some run
  | _ => none

namespace Supervision

/-- The runs that stops have taken and wait for. -/
def taken (r : Supervision) : List Nat := r.stops.filterMap Stop.awaits?

/-- A single thing that happens around a worker. -/
inductive Move where
  | start
  | stop (id : String) (scope : Option Scope)
  | visit (index : Nat)
  | forsake (index : Nat)
  | poll (run : Nat)
  | request (code : Int)
  | readiness (command : Readiness.Command) (moment : Nat)
  | scope (command : Scope.Command)
  | clock (now : Nat)

/-- A stop whose scope has ended gives up. Its run may have ended as well: nothing says which of
the two a stop sees first. -/
def forsake (w : Worker) (cause : Option Cause) (s : Stop) : Stop × Worker × Journal :=
  match s.stage, cause with
  | .waiting run, some cause =>
    let (w, journal) := w.giveUp run cause
    ({ s with stage := .ended (.error (.stopAbandoned cause)) }, w, journal)
  | _, _ => (s, w, [])

/-- Does something with one of the stops; where there is none, nothing happens. -/
def onStop (r : Supervision) (index : Nat)
    (f : Worker → Option Cause → Stop → Stop × Worker × Journal) : Supervision :=
  match r.stops[index]? with
  | none => r
  | some s =>
    let (s, w, journal) := f r.worker (r.cause? s) s
    { r with worker := w, stops := r.stops.set index s, journal := r.journal ++ journal }

/-- Looks at one run. -/
def pollRun (r : Supervision) (run : Nat) : Supervision :=
  let (w, s, journal) := r.worker.poll run r.coordinator.fired r.now r.shutdown
  { r with worker := w, shutdown := s, journal := r.journal ++ journal }

def move (r : Supervision) : Move → Supervision
  | .start =>
    let (_, w, journal) := r.worker.start
    { r with worker := w, journal := r.journal ++ journal }
  | .stop id scope => { r with stops := r.stops ++ [⟨id, scope, .asked⟩] }
  | .visit index => r.onStop index visitStop
  | .forsake index => r.onStop index forsake
  | .poll run => r.pollRun run
  | .request code =>
    let (s, journal) := r.shutdown.request code
    { r with shutdown := s, journal := r.journal ++ journal }
  | .readiness command moment =>
    let (_, c, journal) := r.coordinator.perform moment command
    { r with coordinator := c, journal := r.journal ++ journal }
  | .scope command => { r with directory := r.directory.perform r.now command }
  | .clock now => { r with now := now }

/-- What supervision can come to by moves in any order, as long as no start is made while a stop
waits for a run. -/
inductive Orderly (begun : Supervision) : Supervision → Prop where
  | begun : Orderly begun begun
  | move {r : Supervision} (h : Orderly begun r) (m : Move) (hStart : m = .start → r.taken = []) :
      Orderly begun (r.move m)

/-- Something is done with the stop behind the first few. -/
theorem onStop_append (r : Supervision) (before : List Stop) (s : Stop) (rest : List Stop)
    (f : Worker → Option Cause → Stop → Stop × Worker × Journal) :
    ({ r with stops := before ++ s :: rest } : Supervision).onStop before.length f =
      { r with
        worker := (f r.worker (r.cause? s) s).2.1
        stops := before ++ (f r.worker (r.cause? s) s).1 :: rest
        journal := r.journal ++ (f r.worker (r.cause? s) s).2.2 } := by
  simp only [onStop, List.getElem?_append_right (Nat.le_refl _), Nat.sub_self,
    List.getElem?_cons_zero, List.set_append_right _ _ (Nat.le_refl _), List.set_cons_zero]
  rfl

/-! ## Letting everything happen -/

section Settle

variable {P : Supervision → Prop} {r : Supervision}

/-- Every stop has a look, those behind the first few. -/
theorem visits_keeps (hVisit : ∀ r index, P r → P (r.move (.visit index)))
    (before rest : List Stop) (h : P { r with stops := before ++ rest }) :
    P (rest.foldl (fun r s =>
        let (s, w, journal) := visitStop r.worker (r.cause? s) s
        { r with worker := w, stops := r.stops ++ [s], journal := r.journal ++ journal })
        { r with stops := before }) := by
  induction rest generalizing r before with
  | nil =>
    rw [List.append_nil] at h
    exact h
  | cons s rest ih =>
    have hLook := hVisit _ before.length h
    simp only [Supervision.move, onStop_append] at hLook
    rw [List.append_cons] at hLook
    exact @ih { r with worker := _, journal := _ } _ hLook

theorem visitStops_keeps (hVisit : ∀ r index, P r → P (r.move (.visit index))) (h : P r) :
    P r.visitStops := visits_keeps hVisit [] r.stops h

theorem pollRuns_keeps (hPoll : ∀ r run, P r → P (r.move (.poll run))) (h : P r) :
    P r.pollRuns := by
  unfold Supervision.pollRuns
  generalize List.range r.worker.runs.length = runs
  induction runs generalizing r with
  | nil => exact h
  | cons run runs ih => exact ih (hPoll r run h)

/-- What looking at a stop and looking at a run keep, settling keeps. -/
theorem settle_keeps (hVisit : ∀ r index, P r → P (r.move (.visit index)))
    (hPoll : ∀ r run, P r → P (r.move (.poll run))) (h : P r) : P r.settle := by
  unfold Supervision.settle
  split
  · exact visitStops_keeps hVisit (pollRuns_keeps hPoll (visitStops_keeps hVisit h))
  · exact visitStops_keeps hVisit (pollRuns_keeps hPoll h)

end Settle

namespace Orderly

variable {begun r : Supervision}

theorem settle (h : Orderly begun r) : Orderly begun r.settle :=
  settle_keeps (fun _ index h => h.move (.visit index) nofun)
    (fun _ run h => h.move (.poll run) nofun) h

theorem fire (h : Orderly begun r) (now : Nat) : Orderly begun (Supervision.fire now r) :=
  (h.move (.clock now) nofun).settle

theorem runUntil (h : Orderly begun r) (now target : Nat) :
    Orderly begun (Clock.runUntil Supervision.due Supervision.fire now target r) :=
  Clock.runUntil_keeps (fun now _ h => h.fire now) h now target

/-- A whole step, with everything that follows from it, is a sequence of moves. -/
theorem perform (h : Orderly begun r) (step : Step) (hStart : step = .start → r.taken = []) :
    Orderly begun (r.act step).2.settle := by
  cases step with
  | check => exact h.settle
  | start => exact (h.move .start fun _ => hStart rfl).settle
  | stop id scope => exact (h.move (.stop id (scope.bind r.directory.find?)) nofun).settle
  | request code => exact (h.move (.request code) nofun).settle
  | command command moment => exact (h.move (.readiness command moment) nofun).settle
  | scope command => exact (h.move (.scope command) nofun).settle
  | advance d => exact (h.runUntil r.now (r.now + d)).settle

end Orderly

end Supervision

end Gatehouse.Worker
