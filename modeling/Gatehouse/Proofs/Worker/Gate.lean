import Gatehouse.Proofs.Worker.Overlap

/-!
# The gate in front of a body

A run of a worker that waits for readiness has the all-ready signal in front of its body. Until the
signal has fired no such run gets past it: it waits, or it ends there because it is stopped.

* `Untouched`: the body was never invoked, and no run is past the gate.
* `untouched_start`, `untouched_poll`, `untouched_beginStop`: what a worker does before the signal.
-/

namespace Gatehouse.Worker

open Readiness (Signal)

/-- A run has not got past the gate: it has ended, or the all-ready signal is still in front of
it. -/
def Run.Before (r : Run) : Prop :=
  r.stage = .ended ∨ ∃ signals, r.stage = .awaiting signals ∧ Signal.allReady ∈ signals

/-- The body of a worker was never invoked, and will not be before the all-ready signal. -/
structure Untouched (w : Worker) : Prop where
  calls : w.calls = 0
  runs : ∀ r ∈ w.runs, r.Before

variable {w : Worker} {run : Nat} {fired : Signal → Bool}

theorem untouched_create (name : String) (options : Options) (body : Plans)
    (hasReadiness hasShutdown : Bool) :
    (create name options body hasReadiness hasShutdown).Untouched :=
  ⟨rfl, nofun⟩

theorem untouched_setRun (h : w.Untouched) {f : Run → Run} (hf : ∀ r, r.Before → (f r).Before) :
    (w.setRun run f).Untouched := by
  refine ⟨h.calls, fun r hMem => ?_⟩
  obtain ⟨i, hRun⟩ := List.mem_iff_getElem?.mp hMem
  simp only [setRun, List.getElem?_modify] at hRun
  split at hRun
  · obtain ⟨r', hRun', rfl⟩ := Option.map_eq_some_iff.mp hRun
    exact hf r' (h.runs r' (List.mem_of_getElem? hRun'))
  · obtain ⟨r', hRun', rfl⟩ := Option.map_eq_some_iff.mp hRun
    exact h.runs r' (List.mem_of_getElem? hRun')

theorem options_start (w : Worker) : w.start.2.1.options = w.options := by
  unfold start
  split
  · rfl
  · split <;> rfl

/-- A start needs a readiness to wait for, and puts its signal in front of the run. -/
theorem untouched_start (h : w.Untouched) (hWaits : w.options.waitForReadiness = true) :
    w.start.2.1.Untouched := by
  unfold start
  split
  · exact h
  · next hAble =>
    split
    · exact h
    · refine ⟨h.calls, fun r hMem => ?_⟩
      rcases List.mem_append.mp hMem with hOld | hNew
      · exact h.runs r hOld
      · obtain rfl := List.mem_singleton.mp hNew
        have hGiven : w.hasReadiness = true := by
          cases hReadiness : w.hasReadiness with
          | true => rfl
          | false => simp [checkCollaborators, hWaits, hReadiness] at hAble
        exact .inr ⟨w.awaited, rfl, by simp [awaited, hGiven, hWaits]⟩

theorem untouched_finish (h : w.Untouched) (exit : Exit) : (w.finish run exit).1.Untouched := by
  have hEnded : (w.setRun run fun r => { r with stage := .ended }).Untouched :=
    untouched_setRun h fun _ _ => .inl rfl
  exact ⟨hEnded.calls, hEnded.runs⟩

/-- The run stops in front of the all-ready signal, wherever it stands among the others. -/
theorem untouched_pollSignals (h : w.Untouched) (hNot : fired .allReady = false)
    (cancelled : Bool) (now : Nat) (s : Shutdown) {signals : List Signal}
    (hGate : .allReady ∈ signals) :
    (w.pollSignals run fired cancelled now s signals).1.Untouched := by
  induction signals with
  | nil => cases hGate
  | cons signal rest ih =>
    unfold pollSignals
    split
    · next hFired =>
      refine ih ((List.mem_cons.mp hGate).resolve_left fun hSame => ?_)
      rw [← hSame, hNot] at hFired
      cases hFired
    · split
      · exact untouched_finish h .cancelledBeforeStart
      · exact untouched_setRun h fun _ _ => .inr ⟨signal :: rest, rfl, hGate⟩

theorem untouched_poll (h : w.Untouched) (hNot : fired .allReady = false) (run now : Nat)
    (s : Shutdown) : (w.poll run fired now s).1.Untouched := by
  unfold poll
  split
  · exact h
  · next r hRun =>
    rcases h.runs r (List.mem_of_getElem? hRun) with hEnded | ⟨signals, hAwaiting, hGate⟩
    · simp only [hEnded]
      exact h
    · simp only [hAwaiting]
      exact untouched_pollSignals h hNot r.cancelled now s hGate

theorem options_beginStop (w : Worker) : w.beginStop.2.options = w.options := by
  unfold beginStop
  split
  · rfl
  · dsimp only
    split <;> rfl

theorem untouched_beginStop (h : w.Untouched) : w.beginStop.2.Untouched := by
  unfold beginStop
  split
  · exact h
  · next run _ =>
    have hCancelled : (w.setRun run fun r => { r with cancelled := true }).Untouched :=
      untouched_setRun h fun _ hBefore => hBefore
    dsimp only
    split <;> exact ⟨hCancelled.calls, hCancelled.runs⟩

end Gatehouse.Worker
