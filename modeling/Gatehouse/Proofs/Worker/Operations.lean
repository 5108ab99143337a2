import Mathlib.Data.List.TakeWhile
import Gatehouse.Proofs.Worker.Deeds

/-!
# Operations on a worker, one at a time

Between two operations everything runs that can run: the stops and the runs look around, in any
order, until none of them has anything to do. A step of the supervision is such an operation.

* `Supervision.Quiet`: nobody has anything to do.
* `Supervision.Operated`: what comes of certain operations, each left to run until it is quiet.
* `quiet_settle`: settling makes it quiet.
* `Operated.perform`: a whole step is a sequence of operations.
-/

namespace Gatehouse.Worker

open Readiness (Signal)

variable {w : Worker} {k j : Nat}

/-- A run that waits has a signal to wait for, and a token that is not cancelled. -/
def Run.AtRest (r : Run) (fired : Signal → Bool) : Prop :=
  ∀ signals, r.stage = .awaiting signals →
    r.cancelled = false ∧ ∃ signal ∈ signals.head?, fired signal = false

/-- Once a run was looked at, it is at rest. -/
theorem Run.atRest_after (r : Run) (next : Plan) (fired : Signal → Bool) (now : Nat) :
    (r.after next fired now).AtRest fired := by
  intro signals hWaits
  cases hEnding : r.ending? next fired now with
  | some e =>
    rw [after_of_some hEnding] at hWaits
    cases hWaits
  | none =>
    rw [after_of_none hEnding] at hWaits ⊢
    simp only [goesOn] at hWaits
    split at hWaits
    · next before hStage =>
      split at hWaits
      · cases hWaits
      · next hNot =>
        obtain rfl : before.dropWhile fired = signals := by
          injection hWaits
        simp only [ending?, hStage, if_neg hNot] at hEnding
        refine ⟨?_, ?_⟩
        · cases hCancelled : r.cancelled with
          | false => rfl
          | true =>
            rw [hCancelled] at hEnding
            cases hEnding
        · have hFirst := List.head?_dropWhile_not fired before
          cases hDrop : before.dropWhile fired with
          | nil => exact absurd (List.all_eq_true.mpr (List.dropWhile_eq_nil_iff.mp hDrop)) hNot
          | cons signal rest =>
            rw [hDrop] at hFirst
            exact ⟨signal, rfl, hFirst⟩
    · next hStage =>
      exact absurd hWaits (hStage signals)

namespace Supervision

/-- What the tasks do by themselves: a stop looks at the worker and its scope, or a run goes on. -/
inductive Event.IsLook : Event → Prop where
  | scopeFirst (index : Nat) : IsLook (.scopeFirst index)
  | visit (index : Nat) : IsLook (.move (.visit index))
  | forsake (index : Nat) : IsLook (.move (.forsake index))
  | poll (run : Nat) : IsLook (.move (.poll run))

/-- Nobody has anything to do: every stop has looked and waits for a run that is unfinished, and
every run that waits has reason to. -/
structure Quiet (r : Supervision) : Prop where
  asked : ∀ s ∈ r.stops, s.stage ≠ .asked
  prompt : r.Prompt
  runs : ∀ run ∈ r.worker.runs, run.AtRest r.coordinator.fired

/-- What supervision can come to by certain operations, one at a time, each of which is left to run
until it is quiet, with all deeds on the way. -/
inductive Operated (allowed : Move → Prop) (begun : Supervision) :
    Supervision → List Deed → Prop where
  | begun : Operated allowed begun begun []
  | operate {r r' : Supervision} {log more : List Deed} (h : Operated allowed begun r log)
      (m : Move) (hOperation : ¬ (Event.move m).IsLook) (hAllowed : allowed m)
      (hLooks : Recorded Event.IsLook (r.move m) r' more) (hQuiet : r'.Quiet) :
      Operated allowed begun r' (log ++ more)

variable {r : Supervision}

/-! ## Settling -/

theorem asked_visitStop (w : Worker) (cause : Option Cause) (s : Stop) :
    (visitStop w cause s).1.stage ≠ .asked := by
  intro hAsked
  cases hStage : s.stage with
  | asked =>
    rw [visitStop_take] at hAsked
    cases hCurrent : w.current with
    | none =>
      rw [take_of_current_none hStage hCurrent] at hAsked
      cases hAsked
    | some run =>
      obtain ⟨w', hTaken, -⟩ := take_of_current hStage hCurrent
      rw [hTaken] at hAsked
      have hOutcome := outcome_visitStop w' cause (s := { s with stage := .waiting run }) rfl
      generalize visitStop w' cause { s with stage := .waiting run } = seen at hOutcome hAsked
      cases hOutcome <;> cases hAsked
  | waiting run =>
    have hOutcome := outcome_visitStop w cause hStage
    generalize visitStop w cause s = seen at hOutcome hAsked
    cases hOutcome <;> cases hAsked
  | ended result =>
    rw [Look.visit.of_ended w cause hStage, hStage] at hAsked
    cases hAsked

/-- A stop that has looked before leaves all runs alone. -/
theorem runs_visitStop (w : Worker) (cause : Option Cause) {s : Stop} (hNot : s.stage ≠ .asked) :
    (visitStop w cause s).2.1.runs = w.runs := by
  cases hStage : s.stage with
  | asked => exact absurd hStage hNot
  | waiting run =>
    have hOutcome := outcome_visitStop w cause hStage
    generalize visitStop w cause s = seen at hOutcome
    cases hOutcome <;> rfl
  | ended result => rw [Look.visit.of_ended w cause hStage]

/-- A stop has its look, when all of those before it have had theirs. -/
def visitNext (r : Supervision) (s : Stop) : Supervision :=
  let (s, w, journal) := visitStop r.worker (r.cause? s) s
  { r with worker := w, stops := r.stops ++ [s], journal := r.journal ++ journal }

theorem asked_visitStops (r : Supervision) : ∀ s ∈ r.visitStops.stops, s.stage ≠ .asked := by
  have hFold : ∀ (rest : List Stop) (r : Supervision), (∀ s ∈ r.stops, s.stage ≠ .asked) →
      ∀ s ∈ (rest.foldl visitNext r).stops, s.stage ≠ .asked := by
    intro rest
    induction rest with
    | nil => exact fun r h => h
    | cons s rest ih =>
      intro r h
      apply ih
      intro s' hMem
      rcases List.mem_append.mp hMem with hOld | hNew
      · exact h s' hOld
      · obtain rfl := List.mem_singleton.mp hNew
        exact asked_visitStop r.worker (r.cause? s) s
  exact hFold r.stops { r with stops := [] } nofun

/-- Stops that have all looked before leave the runs and the signals alone. -/
theorem runs_visitStops (hNot : ∀ s ∈ r.stops, s.stage ≠ .asked) :
    r.visitStops.worker.runs = r.worker.runs ∧ r.visitStops.coordinator = r.coordinator := by
  have hFold : ∀ (rest : List Stop) (r : Supervision), (∀ s ∈ rest, s.stage ≠ .asked) →
      (rest.foldl visitNext r).worker.runs = r.worker.runs ∧
        (rest.foldl visitNext r).coordinator = r.coordinator := by
    intro rest
    induction rest with
    | nil => exact fun r _ => ⟨rfl, rfl⟩
    | cons s rest ih =>
      intro r hNot
      obtain ⟨hRuns, hCoordinator⟩ :=
        ih (r.visitNext s) fun s' hMem => hNot s' (List.mem_cons_of_mem s hMem)
      have hHere := runs_visitStop r.worker (r.cause? s) (hNot s List.mem_cons_self)
      exact ⟨hRuns.trans hHere, hCoordinator⟩
  exact hFold r.stops { r with stops := [] } hNot

/-- Every run that is looked at is at rest after it, and the others stay as they were. -/
theorem atRest_pollRun (hRest : k = j ∨ ∀ run ∈ r.worker.runs[k]?, run.AtRest r.coordinator.fired) :
    ∀ run ∈ (r.pollRun j).worker.runs[k]?, run.AtRest r.coordinator.fired := by
  intro run hRun
  cases hLooked : r.worker.runs[j]? with
  | none =>
    have hSame : r.pollRun j = r := (occur_poll_of_none hLooked).1
    rw [hSame] at hRun
    rcases hRest with rfl | hRest
    · rw [hLooked] at hRun
      cases hRun
    · exact hRest run hRun
  | some run' =>
    have hLook := looked_poll hLooked r.coordinator.fired r.now r.shutdown
    have hLess : j < r.worker.runs.length := (List.getElem?_eq_some_iff.mp hLooked).1
    simp only [pollRun] at hRun
    rw [hLook.worker] at hRun
    dsimp only at hRun
    by_cases hSame : k = j
    · subst hSame
      rw [List.getElem?_set_self hLess] at hRun
      obtain rfl := Option.some.inj hRun
      exact run'.atRest_after _ _ _
    · rw [List.getElem?_set_ne (Ne.symm hSame)] at hRun
      exact hRest.resolve_left hSame run hRun

theorem atRest_pollRuns (r : Supervision) :
    (∀ run ∈ r.pollRuns.worker.runs, run.AtRest r.coordinator.fired) ∧
      r.pollRuns.coordinator = r.coordinator ∧ r.pollRuns.stops = r.stops := by
  have hFold : ∀ (ks : List Nat) (r : Supervision),
      (∀ k, k ∈ ks ∨ (∀ run ∈ r.worker.runs[k]?, run.AtRest r.coordinator.fired) →
        ∀ run ∈ (ks.foldl pollRun r).worker.runs[k]?, run.AtRest r.coordinator.fired) ∧
      (ks.foldl pollRun r).worker.runs.length = r.worker.runs.length ∧
      (ks.foldl pollRun r).coordinator = r.coordinator ∧
      (ks.foldl pollRun r).stops = r.stops := by
    intro ks
    induction ks with
    | nil => exact fun r => ⟨fun k h => h.resolve_left List.not_mem_nil, rfl, rfl, rfl⟩
    | cons j ks ih =>
      intro r
      obtain ⟨hRest, hLength, hCoordinator, hStops⟩ := ih (r.pollRun j)
      refine ⟨?_, ?_, hCoordinator, hStops⟩
      · intro k h
        refine hRest k ?_
        rcases h with hMem | hOld
        · rcases List.mem_cons.mp hMem with rfl | hLater
          · exact .inr (atRest_pollRun (.inl rfl))
          · exact .inl hLater
        · exact .inr (atRest_pollRun (.inr hOld))
      · exact hLength.trans (length_poll r.worker j r.coordinator.fired r.now r.shutdown)
  obtain ⟨hRest, hLength, hCoordinator, hStops⟩ := hFold (List.range r.worker.runs.length) r
  refine ⟨?_, hCoordinator, hStops⟩
  intro run hMem
  obtain ⟨k, hRun⟩ := List.mem_iff_getElem?.mp hMem
  have hLess : k < r.worker.runs.length := by
    rw [← hLength]
    exact (List.getElem?_eq_some_iff.mp hRun).1
  exact hRest k (.inl (List.mem_range.mpr hLess)) run hRun

/-- Settling leaves nothing to do. -/
theorem quiet_settle (r : Supervision) : r.settle.Quiet := by
  have hAsked : ∀ s ∈ (if r.stops.any Stop.isNew then r.visitStops else r).stops,
      s.stage ≠ .asked := by
    split
    · exact asked_visitStops r
    · next hNone =>
      intro s hMem hAsked
      refine hNone (List.any_eq_true.mpr ⟨s, hMem, ?_⟩)
      rw [Stop.isNew, hAsked]
  refine ⟨?_, prompt_settle r, ?_⟩
  · exact asked_visitStops _
  · unfold settle
    dsimp only
    generalize (if r.stops.any Stop.isNew then r.visitStops else r) = r₁ at hAsked
    obtain ⟨hRest, hCoordinator, hStops⟩ := atRest_pollRuns r₁
    obtain ⟨hRuns, hSame⟩ := runs_visitStops (r := r₁.pollRuns) (by rw [hStops]; exact hAsked)
    intro run hMem
    rw [hRuns] at hMem
    rw [hSame, hCoordinator]
    exact hRest run hMem

/-! ## Whole steps -/

theorem recorded_settle (r : Supervision) : ∃ more, Recorded Event.IsLook r r.settle more := by
  have hNext : ∀ (q : Supervision) (e : Event), e.IsLook →
      (∃ more, Recorded Event.IsLook r q more) → ∃ more, Recorded Event.IsLook r (q.occur e) more :=
    fun q e hLook ⟨more, h⟩ => ⟨_, h.next e hLook⟩
  exact settle_keeps (P := fun q => ∃ more, Recorded Event.IsLook r q more)
    (fun q index => hNext q _ (.visit index)) (fun q run => hNext q _ (.poll run)) ⟨[], .begun⟩

/-- The operation behind a step, if it is one. -/
def operation? (r : Supervision) : Step → Option Move
  | .start => some .start
  | .stop id scope => some (.stop id (scope.bind r.directory.find?))
  | .request code => some (.request code)
  | .command command moment => some (.readiness command moment)
  | .scope command => some (.scope command)
  | .check => none
  | .advance _ => none

namespace Operated

variable {allowed : Move → Prop} {begun : Supervision} {log : List Deed}

theorem settle (h : Operated allowed begun r log) (m : Move) (hOperation : ¬ (Event.move m).IsLook)
    (hAllowed : allowed m) : ∃ more, Operated allowed begun (r.move m).settle (log ++ more) := by
  obtain ⟨more, hLooks⟩ := recorded_settle (r.move m)
  exact ⟨more, h.operate m hOperation hAllowed hLooks (quiet_settle _)⟩

/-- At most the time goes on. -/
theorem clock (h : Operated allowed begun r log) (hClock : ∀ now, allowed (.clock now)) (now : Nat) :
    ∃ more, Operated allowed begun (Supervision.fire now r) (log ++ more) :=
  h.settle (.clock now) nofun (hClock now)

/-- A step, with everything that follows from it, is a sequence of operations. -/
theorem perform (h : Operated allowed begun r log) (hClock : ∀ now, allowed (.clock now))
    (step : Step) (hAllowed : ∀ m ∈ r.operation? step, allowed m) :
    ∃ more, Operated allowed begun (r.act step).2.settle (log ++ more) := by
  cases step with
  | check => exact h.clock hClock r.now
  | start => exact h.settle .start nofun (hAllowed _ rfl)
  | stop id scope => exact h.settle (.stop id _) nofun (hAllowed _ rfl)
  | request code => exact h.settle (.request code) nofun (hAllowed _ rfl)
  | command command moment => exact h.settle (.readiness command moment) nofun (hAllowed _ rfl)
  | scope command => exact h.settle (.scope command) nofun (hAllowed _ rfl)
  | advance d =>
    have hFire : ∀ now q, (∃ more, Operated allowed begun q (log ++ more)) →
        ∃ more, Operated allowed begun (Supervision.fire now q) (log ++ more) := by
      rintro now q ⟨before, h⟩
      obtain ⟨more, hFired⟩ := h.clock hClock now
      rw [List.append_assoc] at hFired
      exact ⟨before ++ more, hFired⟩
    have hRun : ∃ more, Operated allowed begun
        (Clock.runUntil Supervision.due Supervision.fire r.now (r.now + d) r) (log ++ more) :=
      Clock.runUntil_keeps hFire ⟨[], by rwa [List.append_nil]⟩ r.now (r.now + d)
    exact hFire _ _ hRun

end Operated

end Supervision

end Gatehouse.Worker
