import Gatehouse.Proofs.Readiness.Waits
import Gatehouse.Proofs.Worker.Operations

/-!
# Which signals let a body be invoked

A run waits for the signals that the options of its worker name, readiness before traffic
readiness, and goes on to its body when all of them have fired. A signal stays fired, while a stop
cancels one run only. So long as one of the signals has not fired no run is past them, and the one
run that is unfinished is the one that a stop takes.

* `Supervision.Opened`: all signals have fired that stand in front of a body.
* `Supervision.Gated`: what the stages, the deeds and the cancellations say about the signals.
* `invoked_as_signalled`: when a body is invoked, and when it never will be.
-/

namespace Gatehouse.Worker

open Readiness (Signal)

variable {w : Worker} {k : Nat}

/-- A look at a run that waits passes the signals that have fired. -/
theorem Run.stage_after {r : Run} {next : Plan} {fired : Signal → Bool} {now : Nat}
    {signals : List Signal} (hAfter : (r.after next fired now).stage = .awaiting signals) :
    ∃ before, r.stage = .awaiting before ∧ signals = before.dropWhile fired := by
  cases hEnding : r.ending? next fired now with
  | some e =>
    rw [after_of_some hEnding] at hAfter
    cases hAfter
  | none =>
    rw [after_of_none hEnding] at hAfter
    simp only [goesOn] at hAfter
    split at hAfter
    · next before hStage =>
      split at hAfter
      · cases hAfter
      · injection hAfter with hDrop
        exact ⟨before, hStage, hDrop.symm⟩
    · next hStage => exact absurd hAfter (hStage signals)

theorem Run.mem_deeds_begins {r : Run} {next : Plan} {fired : Signal → Bool} {now j : Nat}
    (h : .begins j ∈ r.deeds k next fired now) :
    j = k ∧ ∃ signals, r.stage = .awaiting signals ∧ signals.all fired = true := by
  rcases List.mem_append.mp h with hBegins | hEnds
  · split at hBegins
    · next hInvokes =>
      injection List.mem_singleton.mp hBegins with hSame
      refine ⟨hSame, ?_⟩
      rw [invokes] at hInvokes
      split at hInvokes
      · next signals hStage => exact ⟨signals, hStage, hInvokes⟩
      · cases hInvokes
    · cases hBegins
  · obtain ⟨e, -, hEq⟩ := List.mem_map.mp hEnds
    cases hEq

theorem Run.cancelled_of_heldBack {r : Run} {next : Plan} {fired : Signal → Bool} {now : Nat}
    (h : r.ending? next fired now = some .heldBack) : r.cancelled = true := by
  unfold ending? at h
  split at h
  · split at h
    · split at h
      · cases h
      · obtain ⟨result, -, hBody⟩ := Option.map_eq_some_iff.mp h
        cases hBody
    · split at h
      · next hCancelled => exact hCancelled
      · cases h
  · obtain ⟨result, -, hBody⟩ := Option.map_eq_some_iff.mp h
    cases hBody
  · cases h

namespace Supervision

variable {r r' : Supervision} {log : List Deed} {e : Event}

/-- All signals have fired that a run waits for before its body is invoked. -/
def Opened (r : Supervision) : Prop :=
  ∀ signal ∈ r.worker.awaited, r.coordinator.fired signal = true

/-- How far the runs have got, and why. -/
structure Gated (r : Supervision) (log : List Deed) : Prop where
  waits : ∀ k signals, r.worker.stage? k = some (.awaiting signals) →
    ∃ passed, r.worker.awaited = passed ++ signals ∧
      ∀ signal ∈ passed, r.coordinator.fired signal = true
  begins : ∀ k, .begins k ∈ log → r.Opened
  heldBack : ∀ k, .ends k .heldBack ∈ log → r.worker.isCancelled k = true
  taken : ∀ k ∈ r.taken, r.worker.isCancelled k = true
  current : ∀ k ∈ r.worker.current, k < r.worker.runs.length

/-! ## What events keep of it -/

theorem awaited_occur (r : Supervision) (e : Event) :
    (r.occur e).worker.awaited = r.worker.awaited := by
  have hSame : (r.occur e).worker.asMade.awaited = r.worker.asMade.awaited :=
    congrArg awaited (asMade_occur r e)
  exact hSame

theorem coordinator_onStop (r : Supervision) (index : Nat)
    (look : Worker → Option Cause → Stop → Stop × Worker × Journal) :
    (r.onStop index look).coordinator = r.coordinator := by
  cases hStop : r.stops[index]? with
  | none => rw [onStop_of_none hStop]
  | some s => rw [onStop_of_some hStop]

/-- A signal that has fired stays so. -/
theorem fired_occur (r : Supervision) (e : Event) {signal : Signal}
    (h : r.coordinator.fired signal = true) : (r.occur e).coordinator.fired signal = true := by
  cases e with
  | scopeFirst index =>
    rw [occur, coordinator_onStop]
    exact h
  | move m =>
    cases m with
    | visit index =>
      rw [occur, move, coordinator_onStop]
      exact h
    | forsake index =>
      rw [occur, move, coordinator_onStop]
      exact h
    | readiness command moment => exact Readiness.Coordinator.fired_next _ (command, moment) h
    | start | stop _ _ | poll _ | request _ | scope _ | clock _ => exact h

theorem Opened.occur (h : r.Opened) (e : Event) : (r.occur e).Opened := by
  intro signal hAwaited
  rw [awaited_occur] at hAwaited
  exact fired_occur r e (h signal hAwaited)

/-! ## Which runs stops have cancelled -/

theorem lt_length_of_isCancelled (h : w.isCancelled k = true) : k < w.runs.length := by
  by_contra hOut
  rw [isCancelled, List.getElem?_eq_none (by omega)] at h
  cases h

theorem current_beginStop (w : Worker) : w.beginStop.2.current = none := by
  unfold beginStop
  split
  · next hNone => exact hNone
  · dsimp only
    split <;> rfl

/-- A stop cancels the run that it takes. -/
theorem isCancelled_beginStop (hCurrent : w.current = some k) (hMade : k < w.runs.length) :
    w.beginStop.2.isCancelled k = true := by
  have hCancelled : (w.setRun k fun r => { r with cancelled := true }).isCancelled k = true := by
    rw [isCancelled, setRun, List.getElem?_modify_eq, List.getElem?_eq_getElem hMade]
    rfl
  unfold beginStop
  rw [hCurrent]
  dsimp only
  split <;> exact hCancelled

theorem take_snd {s : Stop} (hAsked : s.stage = .asked) (w : Worker) :
    (take w s).2 = w.beginStop.2 := by
  simp only [take, hAsked]
  split <;> next hBegin => rw [hBegin]

/-- Which runs a look hands to the worker or leaves with the stop, when the stop waits. -/
theorem Look.hands_of_waiting {look : Worker → Option Cause → Stop → Stop × Worker × Journal}
    (hLook : Look look) (w : Worker) (cause : Option Cause) {s : Stop}
    (hStage : s.stage = .waiting k) :
    (∀ j ∈ (look w cause s).2.1.current, w.current = some j ∨ j = k) ∧
      (∀ j ∈ (look w cause s).1.awaits?, j = k) ∧ (look w cause s).1.stage ≠ .asked ∧
      (look w cause s).2.1.runs = w.runs := by
  rcases hLook.outcome w cause hStage with hSame | hOutcome
  · rw [hSame]
    refine ⟨fun j hj => .inl hj, ?_, ?_, rfl⟩
    · intro j hj
      rw [Stop.awaits?, hStage] at hj
      exact (Option.some.inj hj).symm
    · rw [hStage]
      intro hAsked
      cases hAsked
  · generalize look w cause s = seen at hOutcome
    cases hOutcome with
    | waits hRun =>
      refine ⟨fun j hj => .inl hj, fun j hj => (Option.some.inj hj).symm, ?_, rfl⟩
      intro hAsked
      cases hAsked
    | sees hRun =>
      refine ⟨fun j hj => .inl hj, ?_, ?_, rfl⟩
      · intro j hj
        cases hj
      · intro hAsked
        cases hAsked
    | givesUp hCause =>
      refine ⟨fun j hj => .inr (Option.some.inj hj).symm, ?_, ?_, rfl⟩
      · intro j hj
        cases hj
      · intro hAsked
        cases hAsked

/-- A new stop is looked at like one that waits for the run that it takes. -/
theorem Look.hands_of_asked {look : Worker → Option Cause → Stop → Stop × Worker × Journal}
    (hLook : Look look) (w : Worker) (cause : Option Cause) {s : Stop} (hAsked : s.stage = .asked) :
    look w cause s = (s, w, []) ∨
      (w.current = none ∧ look w cause s = ({ s with stage := .ended (.ok ()) }, w, [])) ∨
      ∃ k, w.current = some k ∧ (∀ j ∈ (look w cause s).2.1.current, j = k) ∧
        (∀ j ∈ (look w cause s).1.awaits?, j = k) ∧ (look w cause s).1.stage ≠ .asked ∧
        (look w cause s).2.1.runs = w.beginStop.2.runs := by
  rcases hLook.asked w cause hAsked with hSame | hTakes
  · exact .inl hSame
  · rw [hTakes]
    cases hCurrent : w.current with
    | none =>
      rw [take_of_current_none hAsked hCurrent, hLook.of_ended w cause rfl]
      exact .inr (.inl ⟨rfl, rfl⟩)
    | some k =>
      have hWorker := take_snd hAsked w
      obtain ⟨w', hTaken, -⟩ := take_of_current hAsked hCurrent
      rw [hTaken] at hWorker ⊢
      obtain rfl : w' = w.beginStop.2 := hWorker
      obtain ⟨hNow, hAwaits, hStage, hRuns⟩ :=
        hLook.hands_of_waiting w.beginStop.2 cause (s := { s with stage := .waiting k }) rfl
      refine .inr (.inr ⟨k, rfl, ?_, hAwaits, hStage, hRuns⟩)
      intro j hj
      rcases hNow j hj with hHad | hGiven
      · rw [current_beginStop] at hHad
        cases hHad
      · exact hGiven

namespace Gated

theorem mem_taken : k ∈ r.taken ↔ ∃ s ∈ r.stops, s.awaits? = some k := List.mem_filterMap

theorem create (name : String) (options : Options) (body : Plans)
    (hasReadiness hasShutdown : Bool) (mode : Config.TrafficMode) :
    Gated (.create (Worker.create name options body hasReadiness hasShutdown) mode) [] :=
  ⟨nofun, nofun, nofun, nofun, nofun⟩

/-- What leaves the stops and the handle alone, apart from what all events but a look at a run
leave. -/
theorem aside (h : Gated r log) (hAside : Aside r r')
    (hFired : ∀ signal, r.coordinator.fired signal = true → r'.coordinator.fired signal = true)
    (hTaken : ∀ k ∈ r'.taken, r'.worker.isCancelled k = true)
    (hCurrent : ∀ k ∈ r'.worker.current, k < r'.worker.runs.length) : Gated r' log := by
  have hAwaited : r'.worker.awaited = r.worker.awaited := by
    have hSame : r'.worker.asMade.awaited = r.worker.asMade.awaited :=
      congrArg awaited hAside.asMade
    exact hSame
  refine ⟨?_, ?_, ?_, hTaken, hCurrent⟩
  · intro k signals hWaits
    rw [hAwaited]
    rcases hAside.stages k with hSame | ⟨-, hNew⟩
    · rw [hSame] at hWaits
      obtain ⟨passed, hSplit, hPassed⟩ := h.waits k signals hWaits
      exact ⟨passed, hSplit, fun signal hMem => hFired signal (hPassed signal hMem)⟩
    · rw [hNew] at hWaits
      cases hWaits
      exact ⟨[], rfl, nofun⟩
  · intro k hBegins signal hMem
    rw [hAwaited] at hMem
    exact hFired signal (h.begins k hBegins signal hMem)
  · intro k hEnds
    exact hAside.cancelled k (h.heldBack k hEnds)

/-- After a look at a stop, the run that it waits for is cancelled, and the handle is that of a
run. -/
theorem hands (h : Gated r log) {look : Worker → Option Cause → Stop → Stop × Worker × Journal}
    (hLook : Look look) {s : Stop} (hMem : s ∈ r.stops) (cause : Option Cause) :
    (∀ k ∈ (look r.worker cause s).1.awaits?,
        (look r.worker cause s).2.1.isCancelled k = true) ∧
      ∀ k ∈ (look r.worker cause s).2.1.current, k < r.worker.runs.length := by
  have hBefore : ∀ k, s.awaits? = some k → r.worker.isCancelled k = true := by
    intro k hAwaits
    exact h.taken k (mem_taken.mpr ⟨s, hMem, hAwaits⟩)
  cases hStage : s.stage with
  | asked =>
    rcases hLook.hands_of_asked r.worker cause hStage with
      hSame | ⟨-, hSame⟩ | ⟨run, hCurrent, hNow, hAwaits, -, hRuns⟩
    · rw [hSame]
      exact ⟨hBefore, h.current⟩
    · rw [hSame]
      exact ⟨nofun, h.current⟩
    · have hRun := h.current run hCurrent
      refine ⟨?_, ?_⟩
      · intro k hk
        rw [hAwaits k hk, isCancelled, hRuns]
        exact isCancelled_beginStop hCurrent hRun
      · intro k hk
        rw [hNow k hk]
        exact hRun
  | waiting run =>
    have hRun : r.worker.isCancelled run = true := hBefore run (by rw [Stop.awaits?, hStage])
    obtain ⟨hNow, hAwaits, -⟩ := hLook.hands_of_waiting r.worker cause hStage
    refine ⟨?_, ?_⟩
    · intro k hk
      rw [hAwaits k hk]
      exact (hLook.handled r.worker cause s).1.cancelled run hRun
    · intro k hk
      rcases hNow k hk with hHad | rfl
      · exact h.current k hHad
      · exact lt_length_of_isCancelled hRun
  | ended result =>
    rw [hLook.of_ended r.worker cause hStage]
    exact ⟨hBefore, h.current⟩

theorem onStop (h : Gated r log) {look : Worker → Option Cause → Stop → Stop × Worker × Journal}
    (hLook : Look look) (index : Nat) : Gated (r.onStop index look) log := by
  have hAside := Aside.onStop hLook r index
  cases hStop : r.stops[index]? with
  | none =>
    rw [onStop_of_none hStop]
    exact h
  | some s =>
    obtain ⟨hAwaited, hCurrent⟩ := h.hands hLook (List.mem_of_getElem? hStop) (r.cause? s)
    rw [onStop_of_some hStop] at hAside ⊢
    apply h.aside hAside (fun _ hFired => hFired)
    · intro k hk
      obtain ⟨s', hMem, hAwaits⟩ := mem_taken.mp hk
      rcases List.mem_or_eq_of_mem_set hMem with hOld | rfl
      · exact (hLook.handled r.worker (r.cause? s) s).1.cancelled k
          (h.taken k (mem_taken.mpr ⟨s', hOld, hAwaits⟩))
      · exact hAwaited k hAwaits
    · intro k hk
      exact Nat.lt_of_lt_of_le (hCurrent k hk) (hLook.onward r.worker (r.cause? s) s).made

theorem poll (h : Gated r log) (j : Nat) :
    Gated (r.occur (.move (.poll j))) (log ++ r.deeds (.move (.poll j))) := by
  cases hRun : r.worker.runs[j]? with
  | none =>
    obtain ⟨hSame, hNone⟩ := occur_poll_of_none hRun
    rw [hSame, hNone, List.append_nil]
    exact h
  | some run =>
    have hLasts : Lasts r.worker (r.occur (.move (.poll j))).worker :=
      lasts_poll r.worker j r.coordinator.fired r.now r.shutdown
    have hLength : (r.occur (.move (.poll j))).worker.runs.length = r.worker.runs.length :=
      length_poll r.worker j r.coordinator.fired r.now r.shutdown
    have hStage : r.worker.stage? j = some run.stage := by rw [stage?, hRun, Option.map_some]
    rw [deeds_poll hRun]
    refine ⟨?_, ?_, ?_, ?_, ?_⟩
    · intro k signals hWaits
      rw [awaited_occur]
      rw [stage?_poll hRun] at hWaits
      split at hWaits
      · obtain ⟨before, hBefore, rfl⟩ := Run.stage_after (Option.some.inj hWaits)
        rw [hBefore] at hStage
        obtain ⟨passed, hSplit, hPassed⟩ := h.waits j before hStage
        refine ⟨passed ++ before.takeWhile r.coordinator.fired, ?_, ?_⟩
        · rw [List.append_assoc, List.takeWhile_append_dropWhile]
          exact hSplit
        · intro signal hMem
          rcases List.mem_append.mp hMem with hOld | hNew
          · exact hPassed signal hOld
          · exact List.mem_takeWhile_imp hNew
      · exact h.waits k signals hWaits
    · intro k hBegins
      rcases List.mem_append.mp hBegins with hOld | hNew
      · exact (h.begins k hOld).occur _
      · obtain ⟨-, signals, hWaits, hAll⟩ := Run.mem_deeds_begins hNew
        rw [hWaits] at hStage
        obtain ⟨passed, hSplit, hPassed⟩ := h.waits j signals hStage
        intro signal hMem
        rw [awaited_occur, hSplit] at hMem
        rcases List.mem_append.mp hMem with hEarlier | hLater
        · exact hPassed signal hEarlier
        · exact List.all_eq_true.mp hAll signal hLater
    · intro k hEnds
      rw [isCancelled_poll hRun]
      rcases List.mem_append.mp hEnds with hOld | hNew
      · exact h.heldBack k hOld
      · rw [← deeds_poll hRun] at hNew
        obtain ⟨hEq, run', hRun', hEnding⟩ := mem_deeds_ends hNew
        obtain rfl : j = k := by
          injection hEq with hMove
          injection hMove
        rw [isCancelled, hRun', Option.any_some]
        exact Run.cancelled_of_heldBack hEnding
    · intro k hTaken
      rw [isCancelled_poll hRun]
      exact h.taken k hTaken
    · intro k hCurrent
      rw [hLasts.current] at hCurrent
      rw [hLength]
      exact h.current k hCurrent

theorem start (h : Gated r log) : Gated (r.move .start) log := by
  refine h.aside (Aside.start r) (fun _ hFired => hFired) ?_ ?_
  · intro k hTaken
    exact (Aside.start r).cancelled k (h.taken k hTaken)
  · intro k hk
    simp only [move] at hk ⊢
    by_cases hAble : r.worker.checkCollaborators = .ok ()
    · cases hBusy : r.worker.isBusy with
      | true =>
        rw [start_of_busy hAble hBusy] at hk ⊢
        exact h.current k hk
      | false =>
        rw [start_of_not_busy hAble hBusy] at hk ⊢
        obtain rfl : r.worker.runs.length = k := Option.some.inj hk
        rw [List.length_append]
        exact Nat.lt_succ_self _
    · rw [start_of_unable hAble] at hk ⊢
      exact h.current k hk

theorem occur (h : Gated r log) (e : Event) : Gated (r.occur e) (log ++ r.deeds e) := by
  by_cases hPoll : ∃ j, e = .move (.poll j)
  · obtain ⟨j, rfl⟩ := hPoll
    exact h.poll j
  · have hNot : ∀ j, e ≠ .move (.poll j) := fun j hEq => hPoll ⟨j, hEq⟩
    have hAside := Aside.occur r hNot
    rw [deeds_of_not_poll r hNot, List.append_nil]
    cases e with
    | scopeFirst index => exact h.onStop .scopeFirst index
    | move m =>
      cases m with
      | start => exact h.start
      | visit index => exact h.onStop .visit index
      | forsake index => exact h.onStop .forsake index
      | poll j => exact absurd rfl (hNot j)
      | stop id scope =>
        refine h.aside hAside (fun _ hFired => hFired) ?_ h.current
        intro k hTaken
        obtain ⟨s, hMem, hAwaits⟩ := mem_taken.mp hTaken
        rcases List.mem_append.mp hMem with hOld | hNew
        · exact h.taken k (mem_taken.mpr ⟨s, hOld, hAwaits⟩)
        · obtain rfl := List.mem_singleton.mp hNew
          cases hAwaits
      | readiness command moment =>
        exact h.aside hAside (fun _ hFired => fired_occur r (.move (.readiness command moment)) hFired)
          h.taken h.current
      | request _ | scope _ | clock _ => exact h.aside hAside (fun _ hFired => hFired) h.taken h.current

end Gated

theorem Recorded.gated {allowed : Event → Prop} {name : String} {options : Options}
    {body : Plans} {hasReadiness hasShutdown : Bool} {mode : Config.TrafficMode}
    (h : Recorded allowed
      (.create (Worker.create name options body hasReadiness hasShutdown) mode) r log) :
    Gated r log := by
  induction h with
  | begun => exact .create name options body hasReadiness hasShutdown mode
  | next h e hAllowed ih => exact ih.occur e

end Supervision

end Gatehouse.Worker
