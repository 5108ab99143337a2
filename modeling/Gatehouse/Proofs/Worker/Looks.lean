import Mathlib.Data.List.Basic
import Gatehouse.Proofs.Telemetry.Readings
import Gatehouse.Worker.Basic

/-!
# What a look at a run does

A look at a run may invoke its body, and may end it. Both can be read off the run, the signals
that have fired and the clock, before the look. When a run ends, its exit is measured, the worker
is stopped and a failure asks for shutdown, except where the invocation of the body panicked.

* `Run.invokes`, `Run.ending?`: what a look makes a run do.
* `looked_poll`: all that a look does.
-/

namespace Gatehouse.Worker

open Readiness (Signal)

/-- How a run ends. -/
inductive Ending where
  /-- It was stopped in front of a signal that had not fired. -/
  | heldBack
  /-- The invocation of its body panicked. -/
  | atOnce
  /-- Its body came to a result. -/
  | body (result : Result)
  deriving DecidableEq, Repr

namespace Ending

def isFailure : Ending → Bool
  | .heldBack => false
  | .atOnce => true
  | .body result => result.failure?.isSome

/-- Under which exit an ending is to be counted. Every panic is a failure like an error. -/
def exit (e : Ending) (o : Options) : Exit :=
  if e = .heldBack then .cancelledBeforeStart
  else if e.isFailure then if o.escalateOnFatalError then .escalated else .failed
  else .ok

/-- What is measured at an ending. -/
def measurements (e : Ending) (w : Worker) : List Measurement :=
  if e = .atOnce then [] else [.workerExit w.name (e.exit w.options)]

/-- Whether an ending asks for shutdown. -/
def requests (e : Ending) (w : Worker) : Bool :=
  e ≠ .atOnce && e.isFailure && w.options.escalateOnFatalError && w.hasShutdown

end Ending

/-- What an invocation of a body has come to. Cancellation of its token goes before its own end. -/
def Plan.outcome? (p : Plan) (endsAt : Option Nat) (cancelled : Bool) (now : Nat) : Option Result :=
  match if cancelled then p.onCancel else none with
  | some result => some result
  | none => if endsAt.any (· ≤ now) then some p.result else none

namespace Run

/-- Whether a look at a run invokes its body. -/
def invokes (r : Run) (fired : Signal → Bool) : Bool :=
  match r.stage with
  | .awaiting signals => signals.all fired
  | _ => false

/-- How a look at a run ends it, if it does. The plan is that of the next invocation. -/
def ending? (r : Run) (next : Plan) (fired : Signal → Bool) (now : Nat) : Option Ending :=
  match r.stage with
  | .awaiting signals =>
    if signals.all fired then
      if next.panicsAtOnce then some .atOnce
      else (next.outcome? (next.duration.map (now + ·)) r.cancelled now).map .body
    else if r.cancelled then some .heldBack else none
  | .body plan endsAt => (plan.outcome? endsAt r.cancelled now).map .body
  | .ended => none

/-- Where a run stands after a look that does not end it. -/
def goesOn (r : Run) (next : Plan) (fired : Signal → Bool) (now : Nat) : Stage :=
  match r.stage with
  | .awaiting signals =>
    if signals.all fired then .body next (next.duration.map (now + ·))
    else .awaiting (signals.dropWhile fired)
  | stage => stage

/-- A run after a look at it. -/
def after (r : Run) (next : Plan) (fired : Signal → Bool) (now : Nat) : Run :=
  if (r.ending? next fired now).isSome then { r with stage := .ended }
  else { r with stage := r.goesOn next fired now }

end Run

/-- All that a look at the run `k` does to its worker. -/
structure Looked (w : Worker) (k : Nat) (r : Run) (fired : Signal → Bool) (now : Nat) (s : Shutdown)
    (out : Worker × Shutdown × Journal) : Prop where
  worker : out.1 = { w with
    state := out.1.state
    runs := w.runs.set k (r.after w.nextPlan fired now)
    calls := w.calls + (r.invokes fired).toNat }
  state : ∀ e ∈ r.ending? w.nextPlan fired now, e ≠ .atOnce → out.1.state = .stopped
  shutdown : out.2.1 =
    if (r.ending? w.nextPlan fired now).any (·.requests w) then (s.request fatalExitCode).1 else s
  measurements : out.2.2.measurements =
    (r.ending? w.nextPlan fired now).toList.flatMap (·.measurements w)

variable {w : Worker} {k : Nat} {r : Run}

theorem setRun_of_getElem? (hRun : w.runs[k]? = some r) (f : Run → Run) :
    w.setRun k f = { w with runs := w.runs.set k (f r) } := by
  rw [setRun, List.modify_eq_set_getElem?, hRun]
  rfl

/-! ## Ends of runs -/

/-- What the end of a run leaves, when it is told of it. -/
structure Closes (w : Worker) (k : Nat) (r : Run) (e : Ending) (s : Shutdown)
    (out : Worker × Shutdown × Journal) : Prop where
  worker : out.1 = { w with state := .stopped, runs := w.runs.set k { r with stage := .ended } }
  shutdown : out.2.1 = if e.requests w then (s.request fatalExitCode).1 else s
  measurements : out.2.2.measurements = e.measurements w

/-- It does not matter what else is logged. -/
theorem Closes.log {e : Ending} {s : Shutdown} {out : Worker × Shutdown × Journal}
    (h : Closes w k r e s out) (event : LogEvent) :
    Closes w k r e s (out.1, out.2.1, .log event :: out.2.2) :=
  ⟨h.worker, h.shutdown, h.measurements⟩

theorem finish_eq (hRun : w.runs[k]? = some r) (exit : Exit) :
    w.finish k exit =
      ({ w with state := .stopped, runs := w.runs.set k { r with stage := .ended } },
        [.measure (.workerExit w.name exit)]) := by
  rw [finish, setRun_of_getElem? hRun]

theorem measurements_request (s : Shutdown) (code : Int) :
    Journal.measurements (s.request code).2 = [] := by
  unfold Shutdown.request
  dsimp only
  split
  · rfl
  · unfold Shutdown.requestEvent
    split <;> rfl

theorem closes_heldBack (hRun : w.runs[k]? = some r) (signal : Signal) (s : Shutdown) :
    Closes w k r .heldBack s
      ((w.finish k .cancelledBeforeStart).1, s,
        w.waitEvent signal :: (w.finish k .cancelledBeforeStart).2) := by
  rw [finish_eq hRun]
  exact ⟨rfl, rfl, rfl⟩

theorem closes_bodyEnded (hRun : w.runs[k]? = some r) (result : Result) (s : Shutdown) :
    Closes w k r (.body result) s (w.bodyEnded k result s) := by
  unfold bodyEnded
  simp only [finish_eq hRun]
  cases hFailure : result.failure? with
  | none =>
    have hOk : (Ending.body result).isFailure = false := by
      rw [Ending.isFailure, hFailure]
      rfl
    refine ⟨rfl, ?_, ?_⟩
    · simp [Ending.requests, hOk]
    · simp [Ending.measurements, Ending.exit, hOk, Journal.measurements, Entry.info]
  | some text =>
    have hFailed : (Ending.body result).isFailure = true := by
      rw [Ending.isFailure, hFailure]
      rfl
    by_cases hEscalates : w.options.escalateOnFatalError = true
    · by_cases hShutdown : w.hasShutdown = true
      · simp only [if_pos hEscalates, if_pos hShutdown]
        refine ⟨rfl, ?_, ?_⟩
        · simp [Ending.requests, hFailed, hEscalates, hShutdown]
        · have hQuiet := measurements_request s fatalExitCode
          simp only [Journal.measurements] at hQuiet
          simp [Ending.measurements, Ending.exit, hFailed, hEscalates, Journal.measurements,
            Entry.error, hQuiet]
      · simp only [if_pos hEscalates, if_neg hShutdown]
        refine ⟨rfl, ?_, ?_⟩
        · simp [Ending.requests, hShutdown]
        · simp [Ending.measurements, Ending.exit, hFailed, hEscalates, Journal.measurements,
            Entry.error]
    · simp only [if_neg hEscalates]
      refine ⟨rfl, ?_, ?_⟩
      · simp [Ending.requests, hEscalates]
      · simp [Ending.measurements, Ending.exit, hFailed, hEscalates, Journal.measurements,
          Entry.error]

/-! ## Looks at a run -/

theorem pollBody_eq (w : Worker) (k : Nat) (plan : Plan) (endsAt : Option Nat) (cancelled : Bool)
    (now : Nat) (s : Shutdown) :
    w.pollBody k plan endsAt cancelled now s =
      match plan.outcome? endsAt cancelled now with
      | some result => w.bodyEnded k result s
      | none => (w, s, []) := by
  unfold pollBody Plan.outcome?
  cases hCancel : if cancelled then plan.onCancel else none with
  | some result => rfl
  | none =>
    cases endsAt with
    | none => rfl
    | some t =>
      by_cases hDue : t ≤ now
      · simp [hDue]
      · simp [hDue]

theorem pollSignals_of_all {fired : Signal → Bool} (cancelled : Bool) (now : Nat) (s : Shutdown)
    {signals : List Signal} (hAll : signals.all fired = true) :
    w.pollSignals k fired cancelled now s signals = w.beginBody k cancelled now s := by
  induction signals with
  | nil => rfl
  | cons signal rest ih =>
    rw [List.all_cons, Bool.and_eq_true] at hAll
    rw [pollSignals, if_pos hAll.1]
    exact ih hAll.2

/-- A run stops at the first signal that has not fired. -/
theorem pollSignals_of_not_all {fired : Signal → Bool} (cancelled : Bool) (now : Nat) (s : Shutdown)
    {signals : List Signal} (hNot : signals.all fired = false) :
    ∃ signal rest, signals.dropWhile fired = signal :: rest ∧ fired signal = false ∧
      w.pollSignals k fired cancelled now s signals =
        if cancelled then
          ((w.finish k .cancelledBeforeStart).1, s,
            w.waitEvent signal :: (w.finish k .cancelledBeforeStart).2)
        else (w.setRun k fun r => { r with stage := .awaiting (signal :: rest) }, s, []) := by
  induction signals with
  | nil => cases hNot
  | cons signal rest ih =>
    cases hFired : fired signal with
    | false =>
      refine ⟨signal, rest, ?_, hFired, ?_⟩
      · rw [List.dropWhile_cons_of_neg (by simp [hFired])]
      · rw [pollSignals, if_neg (by simp [hFired])]
    | true =>
      have hRest : rest.all fired = false := by
        rw [List.all_cons, hFired, Bool.true_and] at hNot
        exact hNot
      obtain ⟨signal', rest', hDrop, hHeld, hPoll⟩ := ih hRest
      refine ⟨signal', rest', ?_, hHeld, ?_⟩
      · rw [List.dropWhile_cons_of_pos hFired]
        exact hDrop
      · rw [pollSignals, if_pos hFired]
        exact hPoll

theorem Run.after_of_some {next : Plan} {fired : Signal → Bool} {now : Nat} {e : Ending}
    (hEnding : r.ending? next fired now = some e) :
    r.after next fired now = { r with stage := .ended } := by
  rw [Run.after, hEnding]
  rfl

theorem Run.after_of_none {next : Plan} {fired : Signal → Bool} {now : Nat}
    (hEnding : r.ending? next fired now = none) :
    r.after next fired now = { r with stage := r.goesOn next fired now } := by
  rw [Run.after, hEnding]
  rfl

/-- A look that leaves its run unfinished. -/
theorem looked_of_none {fired : Signal → Bool} {now : Nat} {s : Shutdown}
    {out : Worker × Shutdown × Journal} (hEnding : r.ending? w.nextPlan fired now = none)
    (hWorker : out.1 = { w with
      state := out.1.state
      runs := w.runs.set k { r with stage := r.goesOn w.nextPlan fired now }
      calls := w.calls + (r.invokes fired).toNat })
    (hShutdown : out.2.1 = s) (hQuiet : out.2.2.measurements = []) :
    Looked w k r fired now s out := by
  refine ⟨?_, ?_, ?_, ?_⟩
  · rw [Run.after_of_none hEnding]
    exact hWorker
  · intro e he
    rw [hEnding] at he
    cases he
  · rw [hEnding]
    exact hShutdown
  · rw [hEnding]
    exact hQuiet

/-- A look that ends a run and is told of it. -/
theorem Closes.looked {fired : Signal → Bool} {now : Nat} {s : Shutdown} {e : Ending}
    {w' : Worker} {r' : Run} {out : Worker × Shutdown × Journal} (h : Closes w' k r' e s out)
    (hEnding : r.ending? w.nextPlan fired now = some e)
    (hBefore : w' = { w with
      state := w'.state
      runs := w.runs.set k r'
      calls := w.calls + (r.invokes fired).toNat })
    (hRun : r'.cancelled = r.cancelled) : Looked w k r fired now s out := by
  have hName : w'.name = w.name := by rw [hBefore]
  have hOptions : w'.options = w.options := by rw [hBefore]
  have hShutdown : w'.hasShutdown = w.hasShutdown := by rw [hBefore]
  refine ⟨?_, ?_, ?_, ?_⟩
  · rw [h.worker, hBefore, Run.after_of_some hEnding, List.set_set, hRun]
  · intro _ _ _
    rw [h.worker]
  · rw [h.shutdown, hEnding]
    simp [Ending.requests, hOptions, hShutdown]
  · rw [h.measurements, hEnding]
    simp [Ending.measurements, hName, hOptions]

theorem set_of_getElem? (hRun : w.runs[k]? = some r) : w.runs.set k r = w.runs := by
  obtain ⟨hLess, rfl⟩ := List.getElem?_eq_some_iff.mp hRun
  exact List.set_getElem_self hLess

theorem looked_beginBody (hRun : w.runs[k]? = some r) {signals : List Signal}
    (hStage : r.stage = .awaiting signals) {fired : Signal → Bool}
    (hAll : signals.all fired = true) (now : Nat) (s : Shutdown) :
    Looked w k r fired now s (w.beginBody k r.cancelled now s) := by
  have hInvokes : r.invokes fired = true := by
    rw [Run.invokes, hStage]
    exact hAll
  unfold beginBody
  dsimp only
  simp only [setRun_of_getElem? hRun]
  split
  · next hAtOnce =>
    have hEnding : r.ending? w.nextPlan fired now = some .atOnce := by
      simp only [Run.ending?, hStage]
      rw [if_pos hAll, if_pos hAtOnce]
    refine ⟨?_, ?_, ?_, ?_⟩
    · rw [Run.after_of_some hEnding, hInvokes]
      rfl
    · intro e he hNe
      rw [hEnding] at he
      exact absurd (Option.some.inj he).symm hNe
    · rw [hEnding]
      rfl
    · rw [hEnding]
      rfl
  · next hGoes =>
    have hEnding : r.ending? w.nextPlan fired now =
        (w.nextPlan.outcome? (w.nextPlan.duration.map (now + ·)) r.cancelled now).map .body := by
      simp only [Run.ending?, hStage]
      rw [if_pos hAll, if_neg hGoes]
    rw [pollBody_eq]
    cases hOutcome : w.nextPlan.outcome? (w.nextPlan.duration.map (now + ·)) r.cancelled now with
    | some result =>
      rw [hOutcome] at hEnding
      have hLess : k < w.runs.length := (List.getElem?_eq_some_iff.mp hRun).1
      have hCloses := closes_bodyEnded
        (w := { w with
          state := if w.state == .idle then .running else w.state
          runs := w.runs.set k
            { r with stage := .body w.nextPlan (w.nextPlan.duration.map (now + ·)) }
          calls := w.calls + 1 })
        (List.getElem?_set_self hLess) result s
      refine (hCloses.log ⟨.info, "Worker running", [w.nameField]⟩).looked hEnding ?_ rfl
      rw [hInvokes]
      rfl
    | none =>
      rw [hOutcome] at hEnding
      refine looked_of_none hEnding ?_ rfl rfl
      rw [Run.goesOn, hStage, hInvokes]
      dsimp only
      rw [if_pos hAll]
      rfl

/-- A look at a run some of whose signals have not fired. -/
theorem looked_signals (hRun : w.runs[k]? = some r) {signals : List Signal}
    (hStage : r.stage = .awaiting signals) {fired : Signal → Bool}
    (hAll : signals.all fired = false) (now : Nat) (s : Shutdown) :
    Looked w k r fired now s (w.pollSignals k fired r.cancelled now s signals) := by
  have hInvokes : r.invokes fired = false := by
    rw [Run.invokes, hStage]
    exact hAll
  obtain ⟨signal, rest, hDrop, -, hPoll⟩ :=
    pollSignals_of_not_all (w := w) (k := k) r.cancelled now s hAll
  rw [hPoll]
  split
  · next hCancelled =>
    have hEnding : r.ending? w.nextPlan fired now = some .heldBack := by
      simp only [Run.ending?, hStage]
      rw [if_neg (by simp [hAll]), if_pos hCancelled]
    apply (closes_heldBack hRun signal s).looked hEnding
    · rw [hInvokes, set_of_getElem? hRun]
      rfl
    · rfl
  · next hCancelled =>
    have hEnding : r.ending? w.nextPlan fired now = none := by
      simp only [Run.ending?, hStage]
      rw [if_neg (by simp [hAll]), if_neg hCancelled]
    rw [setRun_of_getElem? hRun]
    apply looked_of_none hEnding
    · rw [Run.goesOn, hStage, hInvokes]
      dsimp only
      rw [if_neg (by simp [hAll]), hDrop]
      rfl
    · rfl
    · rfl

/-- A look at a run whose body was invoked before. -/
theorem looked_body (hRun : w.runs[k]? = some r) {plan : Plan} {endsAt : Option Nat}
    (hStage : r.stage = .body plan endsAt) (fired : Signal → Bool) (now : Nat) (s : Shutdown) :
    Looked w k r fired now s (w.pollBody k plan endsAt r.cancelled now s) := by
  have hInvokes : r.invokes fired = false := by rw [Run.invokes, hStage]
  have hEnding : r.ending? w.nextPlan fired now =
      (plan.outcome? endsAt r.cancelled now).map .body := by rw [Run.ending?, hStage]
  rw [pollBody_eq]
  cases hOutcome : plan.outcome? endsAt r.cancelled now with
  | some result =>
    rw [hOutcome] at hEnding
    apply (closes_bodyEnded hRun result s).looked hEnding
    · rw [hInvokes, set_of_getElem? hRun]
      rfl
    · rfl
  | none =>
    rw [hOutcome] at hEnding
    have hGoesOn : r.goesOn w.nextPlan fired now = r.stage := by rw [Run.goesOn, hStage]
    apply looked_of_none hEnding
    · rw [hGoesOn, hInvokes, set_of_getElem? hRun]
      rfl
    · rfl
    · rfl

/-- All that a look does, by where the run stands. -/
theorem looked_poll (hRun : w.runs[k]? = some r) (fired : Signal → Bool) (now : Nat)
    (s : Shutdown) : Looked w k r fired now s (w.poll k fired now s) := by
  unfold poll
  simp only [hRun]
  split
  · next signals hStage =>
    cases hAll : signals.all fired with
    | true =>
      rw [pollSignals_of_all r.cancelled now s hAll]
      exact looked_beginBody hRun hStage hAll now s
    | false => exact looked_signals hRun hStage hAll now s
  · next plan endsAt hStage => exact looked_body hRun hStage fired now s
  · next hStage =>
    have hInvokes : r.invokes fired = false := by rw [Run.invokes, hStage]
    have hEnding : r.ending? w.nextPlan fired now = none := by rw [Run.ending?, hStage]
    have hGoesOn : r.goesOn w.nextPlan fired now = r.stage := by rw [Run.goesOn, hStage]
    apply looked_of_none hEnding
    · rw [hGoesOn, hInvokes, set_of_getElem? hRun]
      rfl
    · rfl
    · rfl

end Gatehouse.Worker
