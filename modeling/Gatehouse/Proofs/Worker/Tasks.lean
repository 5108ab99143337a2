import Gatehouse.Proofs.Worker.Deeds
import Mathlib.Logic.Relation

/-!
# A run on its way to its end

A run that has been started waits for its signals, or its body was invoked. Whatever happens to the
worker from there on, the run leaves the worker stopped when it ends, unless the invocation of the
body panics. A look at a run leaves the handle of the worker and the tokens of its runs alone; a
stop takes the handle and cancels the token, and a stop that gives up puts the handle back.

* `Stands`, `Works`: where the run stands.
* `GoesOn`: what a look at a run and the end of a body leave; `goesOn_poll`, `goesOn_bodyEnded`.
* `LeftAlone`: what becomes of a worker that nobody starts and nobody stops.
* `beginStop_of_current`: what the beginning of a stop leaves.
* `lt_of_due_poll`: no timer is left behind by a look.
-/

namespace Gatehouse.Worker

open Readiness (Signal)

/-- No invocation of the body panics, whatever its number. -/
def Invokable (w : Worker) : Prop :=
  ∀ calls, ({ w with calls := calls } : Worker).nextPlan.panicsAtOnce = false

/-- At this stage a run of the worker can only end in a way that stops it, or has so ended. -/
def Stands (w : Worker) : Stage → Prop
  | .awaiting _ => w.Invokable
  | .body _ _ => True
  | .ended => w.state = .stopped

def Works (w : Worker) (k : Nat) : Prop := ∃ r, w.runs[k]? = some r ∧ w.Stands r.stage

/-- What a look at a run, or the end of a body, leaves of a worker. -/
structure GoesOn (w w' : Worker) : Prop where
  current : w'.current = w.current
  ended : ∀ k, w.isEnded k = true → w'.isEnded k = true
  cancelled : ∀ k, w'.isCancelled k = w.isCancelled k
  works : ∀ k, w.Works k → w'.Works k

variable {w w' : Worker} {j k : Nat} {r r' : Run}

theorem GoesOn.refl (w : Worker) : GoesOn w w := ⟨rfl, fun _ => id, fun _ => rfl, fun _ => id⟩

theorem GoesOn.trans {w'' : Worker} (h : GoesOn w w') (h' : GoesOn w' w'') : GoesOn w w'' :=
  ⟨h'.current.trans h.current, fun k hk => h'.ended k (h.ended k hk),
    fun k => (h'.cancelled k).trans (h.cancelled k), fun k hk => h'.works k (h.works k hk)⟩

theorem isEnded_of_getElem? (hRun : w.runs[k]? = some r) : w.isEnded k = (r.stage == .ended) := by
  simp [isEnded, hRun]

theorem Works.state_of_isEnded (h : w.Works k) (hEnded : w.isEnded k = true) :
    w.state = .stopped := by
  obtain ⟨r, hRun, hStands⟩ := h
  rw [isEnded_of_getElem? hRun, beq_iff_eq] at hEnded
  rwa [hEnded] at hStands

theorem Stands.of_eq {stage : Stage} (h : w.Stands stage) (hBody : w'.body = w.body)
    (hState : w.state = .stopped → w'.state = .stopped) : w'.Stands stage := by
  cases stage with
  | awaiting signals =>
    intro calls
    rw [← h calls, nextPlan, nextPlan]
    simp only [hBody]
  | body plan endsAt => trivial
  | ended => exact hState h

/-- One run goes on, and the worker with it. -/
theorem goesOn_of_set (hRun : w.runs[j]? = some r) (hRuns : w'.runs = w.runs.set j r')
    (hCurrent : w'.current = w.current) (hCancelled : r'.cancelled = r.cancelled)
    (hEnded : r.stage = .ended → r'.stage = .ended) (hBody : w'.body = w.body)
    (hState : w.state = .stopped → w'.state = .stopped)
    (hStands : w.Stands r.stage → w'.Stands r'.stage) : GoesOn w w' := by
  have hKnown : j < w.runs.length := (List.getElem?_eq_some_iff.mp hRun).1
  have hSame : w'.runs[j]? = some r' := by rw [hRuns, List.getElem?_set_self hKnown]
  have hOther : ∀ k, k ≠ j → w'.runs[k]? = w.runs[k]? := fun k hNe => by
    rw [hRuns, List.getElem?_set_ne hNe.symm]
  refine ⟨hCurrent, fun k hk => ?_, fun k => ?_, fun k hk => ?_⟩
  · by_cases hNe : k = j
    · subst hNe
      rw [isEnded_of_getElem? hRun, beq_iff_eq] at hk
      rw [isEnded_of_getElem? hSame, beq_iff_eq]
      exact hEnded hk
    · rw [isEnded, hOther k hNe]
      exact hk
  · by_cases hNe : k = j
    · subst hNe
      simp [isCancelled, hSame, hRun, hCancelled]
    · simp [isCancelled, hOther k hNe]
  · obtain ⟨before, hBefore, hHere⟩ := hk
    by_cases hNe : k = j
    · subst hNe
      obtain rfl : r = before := Option.some.inj (hRun.symm.trans hBefore)
      exact ⟨r', hSame, hStands hHere⟩
    · exact ⟨before, (hOther k hNe).trans hBefore, hHere.of_eq hBody hState⟩

/-! ## Looks and ends -/

theorem stopped_bodyEnded (w : Worker) (k : Nat) (result : Result) (s : Shutdown) :
    (w.bodyEnded k result s).1.state = .stopped := by
  unfold bodyEnded
  split
  · rfl
  · split
    · dsimp only
      split <;> rfl
    · rfl

theorem stopped_pollBody (hStopped : w.state = .stopped) (k : Nat) (plan : Plan)
    (endsAt : Option Nat) (cancelled : Bool) (now : Nat) (s : Shutdown) :
    (w.pollBody k plan endsAt cancelled now s).1.state = .stopped := by
  rw [pollBody_eq]
  split
  · exact stopped_bodyEnded w k _ s
  · exact hStopped

/-- No look takes a worker out of its end. -/
theorem stopped_poll (hStopped : w.state = .stopped) (k : Nat) (fired : Signal → Bool) (now : Nat)
    (s : Shutdown) : (w.poll k fired now s).1.state = .stopped := by
  unfold poll
  split
  · exact hStopped
  · next r hRun =>
    split
    · next signals hStage =>
      generalize signals = waited
      induction waited with
      | nil =>
        simp only [pollSignals, beginBody, hStopped]
        split
        · rfl
        · exact stopped_pollBody rfl k _ _ _ now s
      | cons signal rest ih =>
        unfold pollSignals
        split
        · exact ih
        · split
          · rfl
          · exact hStopped
    · exact stopped_pollBody hStopped k _ _ _ now s
    · exact hStopped

theorem goesOn_poll (w : Worker) (k : Nat) (fired : Signal → Bool) (now : Nat) (s : Shutdown) :
    GoesOn w (w.poll k fired now s).1 := by
  cases hRun : w.runs[k]? with
  | none =>
    have hNothing : w.poll k fired now s = (w, s, []) := by simp [poll, hRun]
    rw [hNothing]
    exact .refl w
  | some r =>
    have hLooked := looked_poll hRun fired now s
    have hCurrent : (w.poll k fired now s).1.current = w.current := by rw [hLooked.worker]
    have hBody : (w.poll k fired now s).1.body = w.body := by rw [hLooked.worker]
    have hRuns : (w.poll k fired now s).1.runs = w.runs.set k (r.after w.nextPlan fired now) := by
      rw [hLooked.worker]
    have hState : w.state = .stopped → (w.poll k fired now s).1.state = .stopped :=
      (stopped_poll · k fired now s)
    refine goesOn_of_set hRun hRuns hCurrent ?_ ?_ hBody hState ?_
    · unfold Run.after
      split <;> rfl
    · intro hEnded
      have hNone : r.ending? w.nextPlan fired now = none := by rw [Run.ending?, hEnded]
      rw [Run.after_of_none hNone, Run.goesOn, hEnded]
    · intro hStands
      cases hEnding : r.ending? w.nextPlan fired now with
      | none =>
        rw [Run.after_of_none hEnding]
        unfold Run.goesOn
        split
        · next hStage =>
          split
          · trivial
          · rw [hStage] at hStands
            exact hStands.of_eq hBody hState
        · exact hStands.of_eq hBody hState
      | some e =>
        have hResult : e ≠ .atOnce := by
          rintro rfl
          unfold Run.ending? at hEnding
          split at hEnding
          · next hStage =>
            rw [hStage] at hStands
            have hGoes : w.nextPlan.panicsAtOnce = false := hStands w.calls
            simp only [hGoes, Bool.false_eq_true, if_false] at hEnding
            split at hEnding
            · obtain ⟨result, -, hSame⟩ := Option.map_eq_some_iff.mp hEnding
              cases hSame
            · split at hEnding <;> cases hEnding
          · obtain ⟨result, -, hSame⟩ := Option.map_eq_some_iff.mp hEnding
            cases hSame
          · cases hEnding
        rw [Run.after_of_some hEnding]
        exact hLooked.state e hEnding hResult

/-- A body may end at any time and with any result, whatever was planned. -/
theorem goesOn_bodyEnded (hRun : w.runs[k]? = some r) (result : Result) (s : Shutdown) :
    GoesOn w (w.bodyEnded k result s).1 := by
  have hCloses := closes_bodyEnded hRun result s
  have hStopped := stopped_bodyEnded w k result s
  have hRuns : (w.bodyEnded k result s).1.runs = w.runs.set k { r with stage := .ended } := by
    rw [hCloses.worker]
  exact goesOn_of_set hRun hRuns (by rw [hCloses.worker]) rfl (fun _ => rfl)
    (by rw [hCloses.worker]) (fun _ => hStopped) fun _ => hStopped

/-! ## Nobody starts or stops the worker -/

/-- What a worker does by itself. -/
inductive OwnStep (w : Worker) : Worker → Prop where
  | poll (run : Nat) (fired : Signal → Bool) (now : Nat) (s : Shutdown) :
    OwnStep w (w.poll run fired now s).1
  | bodyEnded {run : Nat} {plan : Plan} {endsAt : Option Nat}
    (hBody : (w.runs[run]?).map Run.stage = some (.body plan endsAt)) (result : Result)
    (s : Shutdown) : OwnStep w (w.bodyEnded run result s).1

/-- What becomes of a worker that nobody starts and nobody stops: its runs go on by themselves. -/
abbrev LeftAlone : Worker → Worker → Prop := Relation.ReflTransGen OwnStep

theorem OwnStep.goesOn (h : OwnStep w w') : GoesOn w w' := by
  cases h with
  | poll run fired now s => exact goesOn_poll w run fired now s
  | bodyEnded hBody result s =>
    obtain ⟨r, hRun, -⟩ := Option.map_eq_some_iff.mp hBody
    exact goesOn_bodyEnded hRun result s

/-- No run is added, and the worker keeps its name. -/
theorem OwnStep.same (h : OwnStep w w') : w'.name = w.name ∧ w'.runs.length = w.runs.length := by
  cases h with
  | poll run fired now s =>
    cases hRun : w.runs[run]? with
    | none => simp [Worker.poll, hRun]
    | some r =>
      rw [(looked_poll hRun fired now s).worker]
      exact ⟨rfl, List.length_set⟩
  | bodyEnded hBody result s =>
    obtain ⟨r, hRun, -⟩ := Option.map_eq_some_iff.mp hBody
    rw [(closes_bodyEnded hRun result s).worker]
    exact ⟨rfl, List.length_set⟩

theorem LeftAlone.goesOn (h : LeftAlone w w') : GoesOn w w' := by
  induction h with
  | refl => exact .refl w
  | tail _ hStep ih => exact ih.trans hStep.goesOn

theorem LeftAlone.same (h : LeftAlone w w') :
    w'.name = w.name ∧ w'.runs.length = w.runs.length := by
  induction h with
  | refl => exact ⟨rfl, rfl⟩
  | tail _ hStep ih => exact ⟨hStep.same.1.trans ih.1, hStep.same.2.trans ih.2⟩

/-! ## Stops -/

/-- The beginning of a stop, where there is a run to take. -/
theorem beginStop_eq (hCurrent : w.current = some k) (hRun : w.runs[k]? = some r) :
    w.beginStop = (some k, { w with
      state := if !w.isEnded k && (w.state == .idle || w.state == .running) then .stopping
        else w.state
      runs := w.runs.set k { r with cancelled := true }
      current := none }) := by
  unfold beginStop
  rw [hCurrent]
  simp only [setRun_of_getElem? hRun]
  split <;> rfl

theorem isCancelled_set (hKnown : k < w.runs.length) :
    isCancelled { w with runs := w.runs.set k { r with cancelled := true } } k = true := by
  simp [isCancelled, hKnown]

/-- The beginning of a stop takes the run and cancels its token. -/
theorem beginStop_of_current (hCurrent : w.current = some k) (h : w.Works k) :
    ∃ w', w.beginStop = (some k, w') ∧ w'.current = none ∧ w'.isCancelled k = true ∧
      w'.Works k := by
  obtain ⟨r, hRun, hStands⟩ := h
  have hKnown : k < w.runs.length := (List.getElem?_eq_some_iff.mp hRun).1
  have hSet := List.getElem?_set_self (a := { r with cancelled := true }) hKnown
  refine ⟨_, beginStop_eq hCurrent hRun, rfl, isCancelled_set hKnown, _, hSet, ?_⟩
  refine hStands.of_eq rfl fun hStopped => ?_
  simp [hStopped]

/-! ## Timers -/

theorem lt_of_due_after {next : Plan} {fired : Signal → Bool} {now t : Nat}
    (h : (r.after next fired now).due = some t) : now < t := by
  have hLater : ∀ (plan : Plan) (endsAt : Option Nat) (cancelled : Bool),
      (plan.outcome? endsAt cancelled now).map Ending.body = none → endsAt = some t → now < t := by
    intro plan endsAt cancelled hNone hEnds
    by_contra hPast
    have hDue : t ≤ now := Nat.le_of_not_lt hPast
    rw [Option.map_eq_none_iff, hEnds] at hNone
    unfold Plan.outcome? at hNone
    split at hNone
    · cases hNone
    · simp [hDue] at hNone
  cases hEnding : r.ending? next fired now with
  | some e =>
    rw [Run.after_of_some hEnding] at h
    cases h
  | none =>
    rw [Run.after_of_none hEnding] at h
    cases hStage : r.stage with
    | ended => simp [Run.due, Run.goesOn, hStage] at h
    | body plan endsAt =>
      simp only [Run.ending?, hStage] at hEnding
      simp only [Run.due, Run.goesOn, hStage] at h
      exact hLater plan endsAt _ hEnding h
    | awaiting signals =>
      simp only [Run.ending?, hStage] at hEnding
      simp only [Run.due, Run.goesOn, hStage] at h
      cases hAll : signals.all fired with
      | false => simp [hAll] at h
      | true =>
        simp only [hAll, if_true] at h hEnding
        split at hEnding
        · cases hEnding
        · exact hLater next _ _ hEnding h

/-- A look at one run leaves the others as they are. -/
theorem getElem?_poll_of_ne (hNe : j ≠ k) (fired : Signal → Bool) (now : Nat) (s : Shutdown) :
    (w.poll k fired now s).1.runs[j]? = w.runs[j]? := by
  cases hRun : w.runs[k]? with
  | none => simp [poll, hRun]
  | some r =>
    rw [(looked_poll hRun fired now s).worker]
    exact List.getElem?_set_ne hNe.symm

/-- After a look at a run its timer, if it has one, is still ahead. -/
theorem lt_of_due_poll {fired : Signal → Bool} {now t : Nat} {s : Shutdown}
    (hRun : (w.poll k fired now s).1.runs[k]? = some r) (hDue : r.due = some t) : now < t := by
  cases hBefore : w.runs[k]? with
  | none =>
    have hNothing : w.poll k fired now s = (w, s, []) := by simp [poll, hBefore]
    rw [hNothing, hBefore] at hRun
    cases hRun
  | some before =>
    have hLooked := looked_poll hBefore fired now s
    have hKnown : k < w.runs.length := (List.getElem?_eq_some_iff.mp hBefore).1
    rw [hLooked.worker] at hRun
    simp only [List.getElem?_set_self hKnown, Option.some.injEq] at hRun
    rw [← hRun] at hDue
    exact lt_of_due_after hDue

end Gatehouse.Worker
