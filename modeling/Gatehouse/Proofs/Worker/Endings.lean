import Gatehouse.Proofs.Worker.Deeds

/-!
# How the end of a run is booked

Whoever reads the exits of a worker, its state or the shutdown wants every end of a run in them:
one exit, named for how the run ended, a worker that is stopped, and shutdown asked for just where
a failure is fatal. That is so however a run ends, with one exception. Where the invocation of the
body itself panics, the run ends and nothing of this happens.

* `Supervision.Booked`: what the end of a run is to leave behind.
* `booked_iff`: an end is booked unless the invocation of the body panicked.
* `not_always_booked`: a fatal failure that nobody hears of.
-/

namespace Gatehouse.Worker

open Readiness (Signal)

variable {w : Worker} {k : Nat}

theorem isEnded_eq (w : Worker) (k : Nat) :
    w.isEnded k = match w.stage? k with
      | some stage => stage == .ended
      | none => true := by
  unfold isEnded stage?
  cases w.runs[k]? <;> rfl

theorem hasShutdown_of_able (hAble : w.checkCollaborators = .ok ())
    (hEscalates : w.options.escalateOnFatalError = true) : w.hasShutdown = true := by
  unfold checkCollaborators at hAble
  split at hAble
  · cases hAble
  · split at hAble
    · cases hAble
    · next hNot => simpa [hEscalates] using hNot

theorem Run.ending?_eq_some {r : Run} {next : Plan} {fired : Signal → Bool} {now : Nat}
    (hBefore : r.stage ≠ .ended) (hAfter : (r.after next fired now).stage = .ended) :
    ∃ e, r.ending? next fired now = some e := by
  cases hEnding : r.ending? next fired now with
  | some e => exact ⟨e, rfl⟩
  | none =>
    rw [after_of_none hEnding] at hAfter
    simp only [goesOn] at hAfter
    split at hAfter
    · split at hAfter <;> cases hAfter
    · exact absurd hAfter hBefore

namespace Deed

def isEndOf (k : Nat) : Deed → Bool
  | .begins _ => false
  | .ends run _ => run = k

def ending? : Deed → Option Ending
  | .begins _ => none
  | .ends _ e => some e

end Deed

/-- A run that has ended has ended once. -/
theorem History.countP_isEndOf {stage : Stage} {log : List Deed} (h : History k (some stage) log) :
    log.countP (·.isEndOf k) = (stage == .ended).toNat := by
  cases h with
  | awaiting signals => rfl
  | body plan endsAt => rfl
  | heldBack => simp [Deed.isEndOf]
  | ended hBegan => simp [Deed.isEndOf]

namespace Supervision

variable {r : Supervision} {log : List Deed} {e : Event} {ending : Ending}

/-- The bookkeeping at the end of a run: one exit is measured, under the name of the worker and by
how the run ended, the worker is stopped, and shutdown is asked for if the body failed and its
failures are fatal, and only then. -/
structure Booked (r : Supervision) (ending : Ending) (r' : Supervision) : Prop where
  exit : r'.journal.measurements =
    r.journal.measurements ++ [.workerExit r.worker.name (ending.exit r.worker.options)]
  state : r'.worker.state = .stopped
  shutdown : r'.shutdown =
    if ending.isFailure ∧ r.worker.options.escalateOnFatalError then
      (r.shutdown.request fatalExitCode).1
    else r.shutdown

/-- A run ends by its own deed. -/
theorem exists_ending (hBefore : r.worker.isEnded k = false)
    (hAfter : (r.occur e).worker.isEnded k = true) : ∃ ending, .ends k ending ∈ r.deeds e := by
  rw [isEnded_eq] at hBefore hAfter
  by_cases hPoll : ∃ j, e = .move (.poll j)
  · obtain ⟨j, rfl⟩ := hPoll
    cases hRun : r.worker.runs[j]? with
    | none =>
      rw [(occur_poll_of_none hRun).1, hBefore] at hAfter
      cases hAfter
    | some run =>
      rw [stage?_poll hRun] at hAfter
      by_cases hSame : k = j
      · subst hSame
        rw [stage?, hRun] at hBefore
        rw [if_pos rfl] at hAfter
        obtain ⟨ending, hEnding⟩ :=
          Run.ending?_eq_some (ne_of_beq_false hBefore) (eq_of_beq hAfter)
        refine ⟨ending, ?_⟩
        rw [deeds_poll hRun, Run.deeds, hEnding]
        exact List.mem_append_right _ (List.mem_singleton.mpr rfl)
      · rw [if_neg hSame, hBefore] at hAfter
        cases hAfter
  · rcases (Aside.occur r fun j hEq => hPoll ⟨j, hEq⟩).stages k with hSame | ⟨hNone, -⟩
    · rw [hSame, hBefore] at hAfter
      cases hAfter
    · rw [hNone] at hBefore
      cases hBefore

/-- A run that ends was unfinished, and has ended. -/
theorem isEnded_of_ends (h : .ends k ending ∈ r.deeds e) :
    r.worker.isEnded k = false ∧ (r.occur e).worker.isEnded k = true := by
  obtain ⟨rfl, run, hRun, hEnding⟩ := mem_deeds_ends h
  constructor
  · rw [isEnded, hRun]
    refine beq_false_of_ne fun hStage => ?_
    rw [Run.ending?, hStage] at hEnding
    cases hEnding
  · rw [isEnded_eq, stage?_poll hRun, if_pos rfl, Run.after_of_some hEnding]
    rfl

/-- What a look leaves that ends a run, by how it ends. -/
theorem occur_of_ends (h : .ends k ending ∈ r.deeds e) :
    (r.occur e).journal.measurements = r.journal.measurements ++ ending.measurements r.worker ∧
      (ending ≠ .atOnce → (r.occur e).worker.state = .stopped) ∧
      (r.occur e).shutdown =
        if ending.requests r.worker then (r.shutdown.request fatalExitCode).1 else r.shutdown := by
  obtain ⟨rfl, run, hRun, hEnding⟩ := mem_deeds_ends h
  have hLooked := looked_poll hRun r.coordinator.fired r.now r.shutdown
  simp only [occur, move, pollRun]
  refine ⟨?_, ?_, ?_⟩
  · rw [Journal.measurements_append, hLooked.measurements, hEnding, Option.toList_some,
      List.flatMap_singleton]
  · exact hLooked.state ending hEnding
  · rw [hLooked.shutdown, hEnding, Option.any_some]

theorem booked_of_ends (hAble : r.worker.checkCollaborators = .ok ())
    (h : .ends k ending ∈ r.deeds e) (hNot : ending ≠ .atOnce) :
    Booked r ending (r.occur e) := by
  obtain ⟨hMeasured, hStopped, hShutdown⟩ := occur_of_ends h
  refine ⟨?_, hStopped hNot, ?_⟩
  · rw [hMeasured, Ending.measurements, if_neg hNot]
  · rw [hShutdown, Ending.requests]
    by_cases hEscalates : r.worker.options.escalateOnFatalError = true
    · simp [hNot, hEscalates, hasShutdown_of_able hAble hEscalates]
    · simp [hEscalates]

/-- Nothing is measured and nobody is asked where the invocation of the body panics. -/
theorem unheard_of_ends (h : .ends k .atOnce ∈ r.deeds e) :
    (r.occur e).journal.measurements = r.journal.measurements ∧
      (r.occur e).shutdown = r.shutdown := by
  obtain ⟨hMeasured, -, hShutdown⟩ := occur_of_ends h
  exact ⟨hMeasured.trans (List.append_nil _), hShutdown⟩

theorem shutdown_onStop {look : Worker → Option Cause → Stop → Stop × Worker × Journal}
    (r : Supervision) (index : Nat) : (r.onStop index look).shutdown = r.shutdown := by
  cases hStop : r.stops[index]? with
  | none => rw [onStop_of_none hStop]
  | some s => rw [onStop_of_some hStop]

/-- Nobody asks for shutdown but a request and a run. -/
theorem shutdown_occur (r : Supervision) (hPoll : ∀ k, e ≠ .move (.poll k))
    (hRequest : ∀ code, e ≠ .move (.request code)) : (r.occur e).shutdown = r.shutdown := by
  cases e with
  | scopeFirst index => exact shutdown_onStop r index
  | move m =>
    cases m with
    | visit index => exact shutdown_onStop r index
    | forsake index => exact shutdown_onStop r index
    | poll k => exact absurd rfl (hPoll k)
    | request code => exact absurd rfl (hRequest code)
    | start | stop _ _ | readiness _ _ | scope _ | clock _ => rfl

/-- An event that ends no run measures nothing, and asks for shutdown only if that is all it
does. -/
theorem quiet_of_no_end (hNone : ∀ k ending, .ends k ending ∉ r.deeds e) :
    (r.occur e).journal.measurements = r.journal.measurements ∧
      ((∀ code, e ≠ .move (.request code)) → (r.occur e).shutdown = r.shutdown) := by
  by_cases hPoll : ∃ k, e = .move (.poll k)
  · obtain ⟨k, rfl⟩ := hPoll
    cases hRun : r.worker.runs[k]? with
    | none =>
      rw [(occur_poll_of_none hRun).1]
      exact ⟨rfl, fun _ => rfl⟩
    | some run =>
      have hLooked := looked_poll hRun r.coordinator.fired r.now r.shutdown
      have hEnding : run.ending? r.worker.nextPlan r.coordinator.fired r.now = none := by
        cases hEnding : run.ending? r.worker.nextPlan r.coordinator.fired r.now with
        | none => rfl
        | some ending =>
          refine absurd ?_ (hNone k ending)
          rw [deeds_poll hRun, Run.deeds, hEnding]
          exact List.mem_append_right _ (List.mem_singleton.mpr rfl)
      simp only [occur, move, pollRun]
      rw [Journal.measurements_append, hLooked.measurements, hLooked.shutdown, hEnding]
      exact ⟨List.append_nil _, fun _ => rfl⟩
  · have hNot : ∀ k, e ≠ .move (.poll k) := fun k hEq => hPoll ⟨k, hEq⟩
    exact ⟨(Aside.occur r hNot).measurements, shutdown_occur r hNot⟩

section

variable {allowed : Event → Prop} {name : String} {options : Options} {body : Plans}
  {hasReadiness hasShutdown : Bool} {mode : Config.TrafficMode}

/-- A run is only made by a worker that has all that its options need. -/
theorem Recorded.able
    (h : Recorded allowed
      (.create (Worker.create name options body hasReadiness hasShutdown) mode) r log)
    (hRun : r.worker.isEnded k = false) : r.worker.checkCollaborators = .ok () := by
  by_contra hUnable
  have hSame : r.worker.asMade.checkCollaborators = (Worker.create name options body hasReadiness
      hasShutdown).asMade.checkCollaborators := congrArg checkCollaborators h.asMade
  change r.worker.checkCollaborators =
    (Worker.create name options body hasReadiness hasShutdown).checkCollaborators at hSame
  have hBarred : r.Barred := by
    clear hRun
    rw [hSame] at hUnable
    clear hSame
    induction h with
    | begun => exact ⟨hUnable, rfl, fun _ => rfl⟩
    | next h e hAllowed ih => exact ih.occur e
  rw [hBarred.allEnded k] at hRun
  cases hRun

/-- Every run that has ended has one end on the record. -/
theorem Recorded.countP_isEndOf
    (h : Recorded allowed
      (.create (Worker.create name options body hasReadiness hasShutdown) mode) r log)
    (hMade : k < r.worker.runs.length) : log.countP (·.isEndOf k) = (r.worker.isEnded k).toNat := by
  have hHistory := h.faithful.history k
  rw [stage?, List.getElem?_eq_getElem hMade, Option.map_some] at hHistory
  have hCount := hHistory.countP_isEndOf
  rw [List.countP_filter] at hCount
  rw [isEnded, List.getElem?_eq_getElem hMade]
  dsimp only
  rw [← hCount]
  apply List.countP_congr
  intro d _
  cases d with
  | begins run => rfl
  | ends run e =>
    show decide (run = k) = true ↔ (decide (run = k) && decide (run = k)) = true
    rw [Bool.and_self]

/-- Where no invocation panicked, the exits are those of the ends on the record. -/
theorem Recorded.measurements_eq
    (h : Recorded allowed
      (.create (Worker.create name options body hasReadiness hasShutdown) mode) r log)
    (hNone : ∀ k, .ends k .atOnce ∉ log) :
    r.journal.measurements =
      (log.filterMap Deed.ending?).map fun ending => .workerExit name (ending.exit options) := by
  have hName : r.worker.asMade.name = name := congrArg Worker.name h.asMade
  have hOptions : r.worker.asMade.options = options := congrArg Worker.options h.asMade
  change r.worker.name = name at hName
  change r.worker.options = options at hOptions
  rw [h.faithful.measurements]
  clear h
  induction log with
  | nil => rfl
  | cons d log ih =>
    have hRest := ih fun k hMem => hNone k (List.mem_cons_of_mem d hMem)
    rw [List.flatMap_cons, hRest]
    cases d with
    | begins k => rfl
    | ends k ending =>
      have hNot : ending ≠ .atOnce := by
        rintro rfl
        exact hNone k List.mem_cons_self
      rw [Deed.measurements, Ending.measurements, if_neg hNot, hName, hOptions]
      rfl

/-- However the starts, the stops and the runs of a worker come after each other, each run that has
ended has ended once. Its end is booked as it should be, unless the invocation of its body
panicked; in that case nothing is measured and nobody is asked for shutdown. What ends no run
measures nothing, and asks for shutdown only if it is a request itself. -/
theorem booked_iff
    (h : Recorded (fun _ => True)
      (.create (Worker.create name options body hasReadiness hasShutdown) mode) r log) :
    (∀ k < r.worker.runs.length, log.countP (·.isEndOf k) = (r.worker.isEnded k).toNat) ∧
      ((∀ k, .ends k .atOnce ∉ log) → r.journal.measurements =
        (log.filterMap Deed.ending?).map fun ending => .workerExit name (ending.exit options)) ∧
      (∀ e k, r.worker.isEnded k = false → (r.occur e).worker.isEnded k = true →
        ∃ ending, .ends k ending ∈ r.deeds e ∧
          (Booked r ending (r.occur e) ↔ ending ≠ .atOnce) ∧
          (ending = .atOnce → (r.occur e).journal.measurements = r.journal.measurements ∧
            (r.occur e).shutdown = r.shutdown)) ∧
      ∀ e, (∀ k, r.worker.isEnded k = false → (r.occur e).worker.isEnded k = false) →
        (r.occur e).journal.measurements = r.journal.measurements ∧
          ((∀ code, e ≠ .move (.request code)) → (r.occur e).shutdown = r.shutdown) := by
  refine ⟨fun k hMade => h.countP_isEndOf hMade, h.measurements_eq, ?_, ?_⟩
  · intro e k hBefore hAfter
    obtain ⟨ending, hEnds⟩ := exists_ending hBefore hAfter
    refine ⟨ending, hEnds, ⟨?_, booked_of_ends (h.able hBefore) hEnds⟩, ?_⟩
    · rintro hBooked rfl
      have hMeasured := hBooked.exit
      rw [(unheard_of_ends hEnds).1] at hMeasured
      have hLength := congrArg List.length hMeasured
      rw [List.length_append, List.length_singleton] at hLength
      omega
    · rintro rfl
      exact unheard_of_ends hEnds
  · intro e hStays
    apply quiet_of_no_end
    intro k ending hEnds
    obtain ⟨hBefore, hAfter⟩ := isEnded_of_ends hEnds
    rw [hStays k hBefore] at hAfter
    cases hAfter

end

/-! ## A failure that is heard of, and one that is not -/

/-- A worker whose failures are fatal. -/
def fragile (body : Plans) : Worker :=
  Worker.create "indexer" ⟨false, false, true⟩ body false true

/-- Its first run, just made. -/
def fragileStarted (body : Plans) : Supervision :=
  (create (fragile body) .standalone).occur (.move .start)

theorem recorded_fragileStarted (body : Plans) :
    Recorded (fun _ => True) (create (fragile body) .standalone) (fragileStarted body) [] :=
  Recorded.begun.next (.move .start) trivial

/-- A body that panics, either while it runs or when it is invoked. -/
def panicking (atOnce : Bool) : Plans := ⟨⟨some 0, .panic, none, atOnce⟩, []⟩

theorem booked_iff_panicking :
    Recorded (fun _ => True) (create (fragile (panicking false)) .standalone)
        (fragileStarted (panicking false)) [] ∧
      Booked (fragileStarted (panicking false)) (.body .panic)
        ((fragileStarted (panicking false)).occur (.move (.poll 0))) := by
  have hRecorded := recorded_fragileStarted (panicking false)
  obtain ⟨ending, hEnds, hBooked, -⟩ :=
    (booked_iff hRecorded).2.2.1 (.move (.poll 0)) 0 rfl rfl
  obtain rfl : ending = .body .panic := by
    rcases List.mem_cons.mp hEnds with hFirst | hRest
    · cases hFirst
    · rcases List.mem_singleton.mp hRest with hLast
      cases hLast
      rfl
  exact ⟨hRecorded, hBooked.mpr nofun⟩

/-- The run of a worker whose invocation panics ends, and however it is said to have ended, its end
is not booked. -/
theorem not_always_booked :
    ¬ ∀ (name : String) (options : Options) (body : Plans) (hasReadiness hasShutdown : Bool)
        (mode : Config.TrafficMode) (r : Supervision) (log : List Deed) (e : Event) (k : Nat),
      Recorded (fun _ => True)
          (create (Worker.create name options body hasReadiness hasShutdown) mode) r log →
        r.worker.isEnded k = false → (r.occur e).worker.isEnded k = true →
          ∃ ending, Booked r ending (r.occur e) := by
  intro hAlways
  obtain ⟨ending, hBooked⟩ := hAlways "indexer" ⟨false, false, true⟩ (panicking true) false true
    .standalone (fragileStarted (panicking true)) [] (.move (.poll 0)) 0
    (recorded_fragileStarted (panicking true)) rfl rfl
  have hState : State.running = .stopped := hBooked.state
  cases hState

end Supervision

end Gatehouse.Worker
