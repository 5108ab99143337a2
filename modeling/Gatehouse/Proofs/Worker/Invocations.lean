import Gatehouse.Proofs.Worker.Endings
import Gatehouse.Proofs.Worker.Operations
import Gatehouse.Proofs.Worker.Signals

/-!
# When the body of a worker is invoked

One operation after the other is done to a worker, and everything that can run runs in between. As
long as one of the signals in front of the body has not fired, the one run that is unfinished is
the one that a stop takes, and a stop ends it for good. Once all have fired no run waits any more,
and one that no stop has cancelled before has invoked its body, once.

* `Steady`: what supervision is like between two operations.
* `Steady.operated`: what operations keep.
* `invoked_as_signalled`: when the body is invoked.
-/

namespace Gatehouse.Worker

open Readiness (Signal)

variable {k : Nat}

/-- A run that has ended does nothing more. -/
theorem History.rigid {stage : Option Stage} {mine more : List Deed}
    (h : History k (some .ended) mine) (h' : History k stage (mine ++ more)) : more = [] := by
  generalize hAll : mine ++ more = all at h'
  cases h with
  | heldBack =>
    cases h' with
    | heldBack => exact (List.cons.inj hAll).2
    | unmade | awaiting signals | body plan endsAt | ended hBegan => cases hAll
  | ended hBegan =>
    cases h' with
    | ended hBegan' => exact (List.cons.inj (List.cons.inj hAll).2).2
    | unmade | awaiting signals | body plan endsAt | heldBack => cases hAll

theorem History.count_begins {stage : Option Stage} {mine : List Deed} (h : History k stage mine) :
    mine.count (.begins k) ≤ 1 := by
  cases h <;> simp

theorem count_begins_eq (log : List Deed) (k : Nat) :
    log.count (.begins k) = (log.filter (·.run = k)).count (.begins k) :=
  (List.count_filter (p := fun d : Deed => d.run = k) (decide_eq_true rfl)).symm

namespace Supervision

variable {begun r r' : Supervision} {log more : List Deed} {signals : List Signal}

/-- Supervision of a worker that was never started. -/
def Unstarted (r : Supervision) : Prop :=
  ∃ name options body hasReadiness hasShutdown mode,
    r = .create (Worker.create name options body hasReadiness hasShutdown) mode

/-- What supervision is like between two operations. As long as a signal has not fired that runs
wait for, at most one of them is unfinished. -/
structure Steady (begun r : Supervision) (log : List Deed) : Prop where
  unstarted : begun.Unstarted
  recorded : Recorded (fun _ => True) begun r log
  quiet : r.Quiet
  guarded : r.worker.checkCollaborators = .ok () → ¬ r.Opened → r.Guarded

namespace Steady

theorem faithful (h : Steady begun r log) : Faithful r log := by
  obtain ⟨name, options, body, hasReadiness, hasShutdown, mode, hBegun⟩ := h.unstarted
  exact (hBegun ▸ h.recorded).faithful

theorem gated (h : Steady begun r log) : Gated r log := by
  obtain ⟨name, options, body, hasReadiness, hasShutdown, mode, hBegun⟩ := h.unstarted
  exact (hBegun ▸ h.recorded).gated

theorem able (h : Steady begun r log) (hRun : r.worker.isEnded k = false) :
    r.worker.checkCollaborators = .ok () := by
  obtain ⟨name, options, body, hasReadiness, hasShutdown, mode, hBegun⟩ := h.unstarted
  exact (hBegun ▸ h.recorded).able hRun

theorem create (hUnstarted : begun.Unstarted) : Steady begun begun [] := by
  refine ⟨hUnstarted, .begun, ?_, ?_⟩
  · obtain ⟨name, options, body, hasReadiness, hasShutdown, mode, rfl⟩ := hUnstarted
    exact ⟨nofun, nofun, nofun⟩
  · obtain ⟨name, options, body, hasReadiness, hasShutdown, mode, rfl⟩ := hUnstarted
    exact fun hAble _ => guarded_create hAble mode

/-- A run that waits has a signal in front of it that has not fired, and is not cancelled. -/
theorem of_waits (h : Steady begun r log)
    (hWaits : r.worker.stage? k = some (.awaiting signals)) :
    r.worker.isCancelled k = false ∧ (∃ signal ∈ signals.head?, r.coordinator.fired signal = false) ∧
      ¬ r.Opened := by
  obtain ⟨run, hRun, hStage⟩ := Option.map_eq_some_iff.mp hWaits
  obtain ⟨hFree, signal, hHead, hNot⟩ := h.quiet.runs run (List.mem_of_getElem? hRun) signals hStage
  refine ⟨?_, ⟨signal, hHead, hNot⟩, ?_⟩
  · rw [isCancelled, hRun]
    exact hFree
  · intro hOpened
    obtain ⟨passed, hSplit, -⟩ := h.gated.waits k signals hWaits
    have hAwaited : signal ∈ r.worker.awaited := by
      rw [hSplit]
      exact List.mem_append_right _ (List.mem_of_mem_head? hHead)
    rw [hOpened signal hAwaited] at hNot
    cases hNot

/-- No run is past the signals before all of them have fired. -/
theorem waits_of_unfinished (h : Steady begun r log) (hClosed : ¬ r.Opened)
    (hRun : r.worker.isEnded k = false) : ∃ signals, r.worker.stage? k = some (.awaiting signals) := by
  have hHistory := h.faithful.history k
  rw [isEnded_eq] at hRun
  cases hStage : r.worker.stage? k with
  | none =>
    rw [hStage] at hRun
    cases hRun
  | some stage =>
    rw [hStage] at hHistory hRun
    cases stage with
    | awaiting signals => exact ⟨signals, rfl⟩
    | body plan endsAt =>
      generalize hMine : log.filter (·.run = k) = mine at hHistory
      cases hHistory
      have hBegins : .begins k ∈ log := by
        have hMem : .begins k ∈ log.filter (·.run = k) := by
          rw [hMine]
          exact List.mem_singleton.mpr rfl
        exact List.mem_of_mem_filter hMem
      exact absurd (h.gated.begins k hBegins) hClosed
    | ended => cases hRun

theorem taken_eq_nil (h : Steady begun r log) (hClosed : ¬ r.Opened) : r.taken = [] := by
  apply List.eq_nil_iff_forall_not_mem.mpr
  intro k hTaken
  obtain ⟨s, hMem, hAwaits⟩ := Gated.mem_taken.mp hTaken
  have hCancelled := h.gated.taken k hTaken
  obtain ⟨signals, hWaits⟩ := h.waits_of_unfinished hClosed (h.quiet.prompt s hMem k hAwaits)
  rw [(h.of_waits hWaits).1] at hCancelled
  cases hCancelled

/-- The one run that waits is the one that a stop would take. -/
theorem current_of_waits (h : Steady begun r log)
    (hWaits : r.worker.stage? k = some (.awaiting signals)) : r.worker.current = some k := by
  have hClosed := (h.of_waits hWaits).2.2
  have hRun : r.worker.isEnded k = false := by
    rw [isEnded_eq, hWaits]
    rfl
  have hHandle := (h.guarded (h.able hRun) hClosed).handle k hRun
  rw [handles, h.taken_eq_nil hClosed, List.append_nil, Option.mem_toList] at hHandle
  exact hHandle

theorem operate (h : Steady begun r log) (m : Move) (hOperation : ¬ (Event.move m).IsLook)
    (hLooks : Recorded Event.IsLook (r.move m) r' more) (hQuiet : r'.Quiet) :
    Steady begun r' (log ++ more) := by
  have hFirst : Recorded (fun _ => True) begun (r.move m) log := by
    have hNext := h.recorded.next (.move m) trivial
    rw [deeds_of_not_poll r, List.append_nil] at hNext
    · exact hNext
    · rintro k hPoll
      rw [hPoll] at hOperation
      exact hOperation (.poll k)
  have hRecorded := hFirst.trans (hLooks.mono fun _ _ => trivial)
  refine ⟨h.unstarted, hRecorded, hQuiet, ?_⟩
  intro hAble hClosed
  have hMade : r'.worker.asMade = r.worker.asMade := hRecorded.asMade.trans h.recorded.asMade.symm
  have hAbleBefore : r.worker.checkCollaborators = .ok () := by
    have hSame : r'.worker.asMade.checkCollaborators = r.worker.asMade.checkCollaborators :=
      congrArg checkCollaborators hMade
    exact hSame.symm.trans hAble
  have hLater : (r.move m).Opened → r'.Opened := by
    clear hRecorded hMade hClosed hQuiet hAble
    intro hOpened
    induction hLooks with
    | begun => exact hOpened
    | next _ e _ ih => exact ih.occur e
  have hClosedBefore : ¬ r.Opened := fun hOpened => hClosed (hLater (hOpened.occur (.move m)))
  have hGuarded : (r.move m).Guarded :=
    (h.guarded hAbleBefore hClosedBefore).move m fun _ => h.taken_eq_nil hClosedBefore
  clear hRecorded hMade hClosed hQuiet hLater hAble
  induction hLooks with
  | begun => exact hGuarded
  | next _ e hLook ih =>
    refine ih.occur e ?_
    rintro rfl
    cases hLook

theorem operated {allowed : Move → Prop} (h : Steady begun r log)
    (hOperated : Operated allowed r r' more) : Steady begun r' (log ++ more) := by
  induction hOperated with
  | begun => rwa [List.append_nil]
  | operate _ m hOperation _ hLooks hQuiet ih =>
    rw [← List.append_assoc]
    exact ih.operate m hOperation hLooks hQuiet

end Steady

/-! ## A stop in front of a signal -/

/-- A look that changes neither its stop nor the worker changes nothing that matters here. -/
theorem onStop_of_idle {look : Worker → Option Cause → Stop → Stop × Worker × Journal} {index : Nat}
    {s : Stop} (hStop : r.stops[index]? = some s)
    (hIdle : look r.worker (r.cause? s) s = (s, r.worker, [])) : r.onStop index look = r := by
  obtain ⟨hLess, rfl⟩ := List.getElem?_eq_some_iff.mp hStop
  rw [onStop_of_some hStop, hIdle]
  simp only [List.set_getElem_self, List.append_nil]

/-- Until it has had its first look, a new stop finds the run that it is meant for; with that look
it cancels it. -/
theorem cancelled_of_stop {id : String} {scope : Option Scope}
    (hEnded : ∀ s ∈ r.stops, ∃ result, s.stage = .ended result)
    (hCurrent : r.worker.current = some k) (hMade : k < r.worker.runs.length)
    (hLooks : Recorded Event.IsLook (r.move (.stop id scope)) r' more) :
    r'.worker.isCancelled k = true ∨
      r'.stops = r.stops ++ [⟨id, scope, .asked⟩] ∧ r'.worker.current = some k ∧
        k < r'.worker.runs.length := by
  induction hLooks with
  | begun => exact .inr ⟨rfl, hCurrent, hMade⟩
  | @next q _ _ e hLook ih =>
    rcases ih with hCancelled | ⟨hStops, hNow, hLess⟩
    · exact .inl (isCancelled_occur q e hCancelled)
    · have hStopLook : ∀ (index : Nat) {look : Worker → Option Cause → Stop → Stop × Worker × Journal},
          Look look → (q.onStop index look).worker.isCancelled k = true ∨
            (q.onStop index look).stops = r.stops ++ [⟨id, scope, .asked⟩] ∧
              (q.onStop index look).worker.current = some k ∧
                k < (q.onStop index look).worker.runs.length := by
        intro index look hLook
        cases hStop : q.stops[index]? with
        | none =>
          rw [onStop_of_none hStop]
          exact .inr ⟨hStops, hNow, hLess⟩
        | some s =>
          have hMem := List.mem_of_getElem? hStop
          rw [hStops] at hMem
          rcases List.mem_append.mp hMem with hOld | hNew
          · obtain ⟨result, hResult⟩ := hEnded s hOld
            rw [onStop_of_idle hStop (hLook.of_ended q.worker (q.cause? s) hResult)]
            exact .inr ⟨hStops, hNow, hLess⟩
          · have hAsked : s.stage = .asked := by rw [List.mem_singleton.mp hNew]
            rcases hLook.hands_of_asked q.worker (q.cause? s) hAsked with
              hIdle | ⟨hNone, -⟩ | ⟨run, hRun, -, -, -, hRuns⟩
            · rw [onStop_of_idle hStop hIdle]
              exact .inr ⟨hStops, hNow, hLess⟩
            · rw [hNow] at hNone
              cases hNone
            · refine .inl ?_
              rw [onStop_of_some hStop]
              dsimp only
              rw [isCancelled, hRuns]
              exact isCancelled_beginStop hNow hLess
      cases hLook with
      | scopeFirst index => exact hStopLook index .scopeFirst
      | visit index => exact hStopLook index .visit
      | forsake index => exact hStopLook index .forsake
      | poll j =>
        refine .inr ⟨hStops, ?_, ?_⟩
        · exact (lasts_poll q.worker j q.coordinator.fired q.now q.shutdown).current.trans hNow
        · exact (length_poll q.worker j q.coordinator.fired q.now q.shutdown).symm ▸ hLess

/-- Looks make no run, and they fire no signal. -/
theorem made_of_looks {q : Supervision} (hLooks : Recorded Event.IsLook r q more) :
    (∀ k, r.worker.stage? k = none → q.worker.stage? k = none) ∧ q.coordinator = r.coordinator := by
  induction hLooks with
  | begun => exact ⟨fun _ h => h, rfl⟩
  | @next q _ _ e hLook ih =>
    have hStopLook : ∀ (index : Nat) {look : Worker → Option Cause → Stop → Stop × Worker × Journal},
        Look look → (∀ k, q.worker.stage? k = none → (q.onStop index look).worker.stage? k = none) ∧
          (q.onStop index look).coordinator = q.coordinator := by
      intro index look hLook
      refine ⟨?_, coordinator_onStop q index look⟩
      intro k hNone
      cases hStop : q.stops[index]? with
      | none =>
        rw [onStop_of_none hStop]
        exact hNone
      | some s =>
        rw [onStop_of_some hStop]
        exact ((hLook.handled q.worker (q.cause? s) s).1.stages k).trans hNone
    have hHere : (∀ k, q.worker.stage? k = none → (q.occur e).worker.stage? k = none) ∧
        (q.occur e).coordinator = q.coordinator := by
      cases hLook with
      | scopeFirst index => exact hStopLook index .scopeFirst
      | visit index => exact hStopLook index .visit
      | forsake index => exact hStopLook index .forsake
      | poll j =>
        refine ⟨?_, rfl⟩
        intro k hNone
        cases hRun : q.worker.runs[j]? with
        | none =>
          rw [(occur_poll_of_none hRun).1]
          exact hNone
        | some run =>
          rw [stage?_poll hRun]
          split
          · next hSame =>
            rw [hSame, stage?, hRun] at hNone
            cases hNone
          · exact hNone
    exact ⟨fun k hNone => hHere.1 k (ih.1 k hNone), hHere.2.trans ih.2⟩

namespace Steady

/-- A run that was cancelled before all signals had fired was held back. -/
theorem heldBack (h : Steady begun r log) (hClosed : ¬ r.Opened)
    (hCancelled : r.worker.isCancelled k = true) :
    log.filter (·.run = k) = [.ends k .heldBack] := by
  have hHistory := h.faithful.history k
  have hEnded : r.worker.isEnded k = true := by
    by_contra hRun
    obtain ⟨signals, hWaits⟩ := h.waits_of_unfinished hClosed (Bool.eq_false_iff.mpr hRun)
    rw [(h.of_waits hWaits).1] at hCancelled
    cases hCancelled
  rw [isEnded_eq] at hEnded
  cases hStage : r.worker.stage? k with
  | none =>
    rw [stage?, List.getElem?_eq_getElem (lt_length_of_isCancelled hCancelled)] at hStage
    cases hStage
  | some stage =>
    rw [hStage] at hEnded hHistory
    obtain rfl : stage = .ended := eq_of_beq hEnded
    generalize hMine : log.filter (·.run = k) = mine at hHistory
    cases hHistory with
    | heldBack => rfl
    | ended hBegan =>
      have hBegins : .begins k ∈ log.filter (·.run = k) := by
        rw [hMine]
        exact List.mem_cons_self
      exact absurd (h.gated.begins k (List.mem_of_mem_filter hBegins)) hClosed

/-- A run that has ended, or that is not made, has no deeds before there is more to it. -/
theorem filter_eq_nil (h : Steady begun r log) (h' : Steady begun r' (log ++ more))
    (hRest : r.worker.stage? k = some .ended ∨
      r.worker.stage? k = none ∧ r'.worker.stage? k = none) :
    more.filter (·.run = k) = [] := by
  have hBefore := h.faithful.history k
  have hAfter := h'.faithful.history k
  rw [List.filter_append] at hAfter
  rcases hRest with hEnded | ⟨hNone, hNone'⟩
  · rw [hEnded] at hBefore
    exact hBefore.rigid hAfter
  · rw [hNone'] at hAfter
    generalize hAll : log.filter (·.run = k) ++ more.filter (·.run = k) = all at hAfter
    cases hAfter
    exact (List.append_eq_nil_iff.mp hAll).2

/-- Before the signals have fired, only the run with the handle is there to do anything. -/
theorem run_eq_of_mem (h : Steady begun r log) (h' : Steady begun r' (log ++ more))
    (hClosed : ¬ r.Opened) (hCurrent : r.worker.current = some k)
    (hUnmade : ∀ j, r.worker.stage? j = none → r'.worker.stage? j = none) {d : Deed}
    (hMem : d ∈ more) : d.run = k := by
  by_contra hOther
  have hRest : more.filter (·.run = d.run) = [] := by
    apply h.filter_eq_nil h'
    cases hStage : r.worker.stage? d.run with
    | none => exact .inr ⟨rfl, hUnmade d.run hStage⟩
    | some stage =>
      refine .inl ?_
      by_contra hUnfinished
      have hRun : r.worker.isEnded d.run = false := by
        rw [isEnded_eq, hStage]
        exact beq_false_of_ne fun hEnded => hUnfinished (congrArg some hEnded)
      obtain ⟨signals, hWaits⟩ := h.waits_of_unfinished hClosed hRun
      have hCurrent' := h.current_of_waits hWaits
      rw [hCurrent] at hCurrent'
      exact hOther (Option.some.inj hCurrent').symm
  have hIn : d ∈ more.filter (·.run = d.run) :=
    List.mem_filter.mpr ⟨hMem, decide_eq_true rfl⟩
  rw [hRest] at hIn
  cases hIn

/-- Before the signals have fired, no stop is under way. -/
theorem stops_ended (h : Steady begun r log) (hClosed : ¬ r.Opened) :
    ∀ s ∈ r.stops, ∃ result, s.stage = .ended result := by
  intro s hMem
  cases hStage : s.stage with
  | asked => exact absurd hStage (h.quiet.asked s hMem)
  | waiting run =>
    have hTaken : run ∈ r.taken :=
      Gated.mem_taken.mpr ⟨s, hMem, by rw [Stop.awaits?, hStage]⟩
    rw [h.taken_eq_nil hClosed] at hTaken
    cases hTaken
  | ended result => exact ⟨result, rfl⟩

/-- A stop that comes while a run waits ends that run, and does nothing else. -/
theorem stop (h : Steady begun r log)
    (hWaits : r.worker.stage? k = some (.awaiting signals)) {id : String} {scope : Option Scope}
    (hLooks : Recorded Event.IsLook (r.move (.stop id scope)) r' more) (hQuiet : r'.Quiet) :
    more = [.ends k .heldBack] := by
  have hClosed := (h.of_waits hWaits).2.2
  have hCurrent := h.current_of_waits hWaits
  have hAfter := h.operate (.stop id scope) nofun hLooks hQuiet
  obtain ⟨hUnmade, hCoordinator⟩ := made_of_looks hLooks
  have hStillClosed : ¬ r'.Opened := by
    intro hOpened
    refine hClosed fun signal hMem => ?_
    have hSame : r'.worker.asMade.awaited = r.worker.asMade.awaited :=
      congrArg awaited (hAfter.recorded.asMade.trans h.recorded.asMade.symm)
    have hFired := hOpened signal (hSame.symm ▸ hMem)
    rwa [hCoordinator] at hFired
  have hCancelled : r'.worker.isCancelled k = true := by
    rcases cancelled_of_stop (h.stops_ended hClosed) hCurrent (h.gated.current k hCurrent) hLooks with
      hCancelled | ⟨hNew, -⟩
    · exact hCancelled
    · refine absurd rfl (hQuiet.asked ⟨id, scope, .asked⟩ ?_)
      rw [hNew]
      exact List.mem_append_right _ (List.mem_singleton.mpr rfl)
  have hMine : more.filter (·.run = k) = [.ends k .heldBack] := by
    have hAll := hAfter.heldBack hStillClosed hCancelled
    have hBefore := h.faithful.history k
    rw [hWaits] at hBefore
    rw [List.filter_append] at hAll
    generalize log.filter (·.run = k) = mine at hBefore hAll
    cases hBefore
    exact hAll
  rw [← hMine]
  symm
  apply List.filter_eq_self.mpr
  intro d hMem
  exact decide_eq_true (h.run_eq_of_mem hAfter hClosed hCurrent hUnmade hMem)

end Steady

/-! ## A run that no stop has cancelled -/

/-- The run `k` is not cancelled, and no new stop is about to do so. -/
structure Unstopped (r : Supervision) (k : Nat) : Prop where
  asked : ∀ s ∈ r.stops, s.stage ≠ .asked
  made : k < r.worker.runs.length
  free : r.worker.isCancelled k = false

namespace Unstopped

theorem onStop (h : Unstopped r k)
    {look : Worker → Option Cause → Stop → Stop × Worker × Journal} (hLook : Look look)
    (index : Nat) : Unstopped (r.onStop index look) k := by
  cases hStop : r.stops[index]? with
  | none =>
    rw [onStop_of_none hStop]
    exact h
  | some s =>
    cases hStage : s.stage with
    | asked => exact absurd hStage (h.asked s (List.mem_of_getElem? hStop))
    | waiting run =>
      obtain ⟨-, -, hAsked, hRuns⟩ := hLook.hands_of_waiting r.worker (r.cause? s) hStage
      rw [onStop_of_some hStop]
      refine ⟨?_, ?_, ?_⟩
      · intro s' hMem
        rcases List.mem_or_eq_of_mem_set hMem with hOld | rfl
        · exact h.asked s' hOld
        · exact hAsked
      · rw [hRuns]
        exact h.made
      · rw [isCancelled, hRuns]
        exact h.free
    | ended result =>
      rw [onStop_of_idle hStop (hLook.of_ended r.worker (r.cause? s) hStage)]
      exact h

theorem start (h : Unstopped r k) : Unstopped (r.move .start) k := by
  have hSame : ∀ journal, Unstopped { r with worker := r.worker, journal := journal } k :=
    fun _ => ⟨h.asked, h.made, h.free⟩
  simp only [move]
  by_cases hAble : r.worker.checkCollaborators = .ok ()
  · cases hBusy : r.worker.isBusy with
    | true =>
      rw [start_of_busy hAble hBusy]
      exact hSame _
    | false =>
      rw [start_of_not_busy hAble hBusy]
      refine ⟨h.asked, ?_, ?_⟩
      · rw [List.length_append]
        exact Nat.lt_add_right _ h.made
      · rw [isCancelled, List.getElem?_append_left h.made]
        exact h.free
  · rw [start_of_unable hAble]
    exact hSame _

theorem occur (h : Unstopped r k) {e : Event} (hNot : ∀ id scope, e ≠ .move (.stop id scope)) :
    Unstopped (r.occur e) k := by
  cases e with
  | scopeFirst index => exact h.onStop .scopeFirst index
  | move m =>
    cases m with
    | start => exact h.start
    | stop id scope => exact absurd rfl (hNot id scope)
    | visit index => exact h.onStop .visit index
    | forsake index => exact h.onStop .forsake index
    | poll j =>
      cases hRun : r.worker.runs[j]? with
      | none =>
        rw [(occur_poll_of_none hRun).1]
        exact h
      | some run =>
        refine ⟨h.asked, ?_, (isCancelled_poll hRun k).trans h.free⟩
        exact (length_poll r.worker j r.coordinator.fired r.now r.shutdown).symm ▸ h.made
    | request _ | readiness _ _ | scope _ | clock _ => exact ⟨h.asked, h.made, h.free⟩

theorem looks (h : Unstopped r k) (hLooks : Recorded Event.IsLook r r' more) : Unstopped r' k := by
  induction hLooks with
  | begun => exact h
  | next _ e hLook ih =>
    refine ih.occur ?_
    rintro id scope rfl
    cases hLook

theorem operated (h : Unstopped r k)
    (hOperated : Operated (fun m => ∀ id scope, m ≠ .stop id scope) r r' more) :
    Unstopped r' k := by
  induction hOperated with
  | begun => exact h
  | operate _ m _ hAllowed hLooks _ ih =>
    have hMoved : Unstopped (Supervision.occur _ (.move m)) k :=
      ih.occur fun id scope hEq => hAllowed id scope (Event.move.inj hEq)
    exact hMoved.looks hLooks

/-- A run that was just made, when it was quiet before. -/
theorem of_start (hQuiet : r.Quiet) (hStart : r.worker.start.1 = .ok ()) :
    Unstopped (r.move .start) r.worker.runs.length := by
  simp only [move]
  by_cases hAble : r.worker.checkCollaborators = .ok ()
  · cases hBusy : r.worker.isBusy with
    | true =>
      rw [start_of_busy hAble hBusy] at hStart
      cases hStart
    | false =>
      rw [start_of_not_busy hAble hBusy]
      refine ⟨hQuiet.asked, ?_, ?_⟩
      · rw [List.length_append]
        exact Nat.lt_succ_self _
      · rw [isCancelled, List.getElem?_append_right (Nat.le_refl _), Nat.sub_self]
        rfl
  · unfold Worker.start at hStart
    cases hUnable : r.worker.checkCollaborators with
    | ok => exact absurd hUnable hAble
    | error e =>
      rw [hUnable] at hStart
      cases hStart

end Unstopped

namespace Steady

theorem count_begins (h : Steady begun r log) (k : Nat) : log.count (.begins k) ≤ 1 := by
  rw [count_begins_eq]
  exact (h.faithful.history k).count_begins

/-- A run that is not cancelled has invoked its body, as soon as all signals have fired. -/
theorem begins_of_unstopped (h : Steady begun r log) (hUnstopped : Unstopped r k)
    (hOpened : r.Opened) : .begins k ∈ log := by
  have hHistory := h.faithful.history k
  have hStage : ∃ stage, r.worker.stage? k = some stage := by
    rw [stage?, List.getElem?_eq_getElem hUnstopped.made]
    exact ⟨_, rfl⟩
  obtain ⟨stage, hStage⟩ := hStage
  rw [hStage] at hHistory
  have hMine : .begins k ∈ log.filter (·.run = k) := by
    cases stage with
    | awaiting signals => exact absurd hOpened (h.of_waits hStage).2.2
    | body plan endsAt =>
      generalize log.filter (·.run = k) = mine at hHistory
      cases hHistory
      exact List.mem_cons_self
    | ended =>
      generalize hAll : log.filter (·.run = k) = mine at hHistory
      cases hHistory with
      | heldBack =>
        have hEnds : .ends k .heldBack ∈ log.filter (·.run = k) := by
          rw [hAll]
          exact List.mem_cons_self
        have hCancelled := h.gated.heldBack k (List.mem_of_mem_filter hEnds)
        rw [hUnstopped.free] at hCancelled
        cases hCancelled
      | ended hBegan => exact List.mem_cons_self
  exact List.mem_of_mem_filter hMine

/-- A run that waits has no deeds yet. -/
theorem filter_of_waits (h : Steady begun r log)
    (hWaits : r.worker.stage? k = some (.awaiting signals)) : log.filter (·.run = k) = [] := by
  have hHistory := h.faithful.history k
  rw [hWaits] at hHistory
  generalize log.filter (·.run = k) = mine at hHistory
  cases hHistory
  rfl

/-- A run that was held back never invokes its body. -/
theorem begins_not_mem (h : Steady begun r (log ++ [.ends k .heldBack] ++ more))
    (hBefore : log.filter (·.run = k) = []) :
    .begins k ∉ log ++ [.ends k .heldBack] ++ more := by
  have hHistory := h.faithful.history k
  have hEnd : [Deed.ends k .heldBack].filter (·.run = k) = [.ends k .heldBack] := by
    simp [Deed.run]
  rw [List.filter_append, List.filter_append, hBefore, hEnd, List.nil_append] at hHistory
  have hRest := History.heldBack.rigid hHistory
  intro hBegins
  have hMine : Deed.begins k ∈ (log ++ [Deed.ends k .heldBack] ++ more).filter (·.run = k) :=
    List.mem_filter.mpr ⟨hBegins, decide_eq_true rfl⟩
  rw [List.filter_append, List.filter_append, hBefore, hEnd, hRest] at hMine
  simp at hMine

/-- A run that waits has got past the signals that have fired, in their order. -/
theorem signals_eq (h : Steady begun r log)
    (hWaits : r.worker.stage? k = some (.awaiting signals)) :
    signals ≠ [] ∧ signals = r.worker.awaited.dropWhile r.coordinator.fired := by
  obtain ⟨-, ⟨signal, hHead, hNot⟩, -⟩ := h.of_waits hWaits
  obtain ⟨passed, hSplit, hPassed⟩ := h.gated.waits k signals hWaits
  cases signals with
  | nil => cases hHead
  | cons first rest =>
    obtain rfl : first = signal := Option.some.inj hHead
    refine ⟨nofun, ?_⟩
    rw [hSplit, List.dropWhile_append_of_pos hPassed, List.dropWhile_cons_of_neg]
    rw [hNot]
    exact Bool.false_ne_true

end Steady

/-- One operation after the other is done to a worker with a coordinator, and everything that can run
runs in between. A run invokes its body at most once, and only when all signals have fired that its
options name; until then it waits for the rest of them, readiness before traffic readiness. A stop
that comes meanwhile ends that run as cancelled before its start, and its body is never invoked. A
run whose signals all fire before there is any stop invokes its body exactly once. -/
theorem invoked_as_signalled {name : String} {options : Options} {body : Plans}
    {hasShutdown : Bool} {mode : Config.TrafficMode}
    (h : Operated (fun _ => True)
      (.create (Worker.create name options body true hasShutdown) mode) r log) :
    r.worker.awaited =
        (if options.waitForReadiness then [.allReady] else []) ++
          (if options.waitForTrafficReady then [.trafficReady] else []) ∧
      r.worker.calls = log.countP Deed.isBegin ∧
      (∀ k, log.count (.begins k) ≤ 1 ∧ (.begins k ∈ log → r.Opened)) ∧
      (∀ k signals, r.worker.stage? k = some (.awaiting signals) →
        signals ≠ [] ∧ signals = r.worker.awaited.dropWhile r.coordinator.fired ∧
          ∀ id scope r₁ log₁, Recorded Event.IsLook (r.move (.stop id scope)) r₁ log₁ → r₁.Quiet →
            log₁ = [.ends k .heldBack] ∧
              r₁.journal.measurements =
                r.journal.measurements ++ [.workerExit name .cancelledBeforeStart] ∧
              ∀ r₂ log₂, Operated (fun _ => True) r₁ r₂ log₂ →
                .begins k ∉ log ++ log₁ ++ log₂) ∧
      (r.worker.start.1 = .ok () →
        ∀ r₁ log₁ r₂ log₂ r₃ log₃, Recorded Event.IsLook (r.move .start) r₁ log₁ → r₁.Quiet →
          Operated (fun m => ∀ id scope, m ≠ .stop id scope) r₁ r₂ log₂ → r₂.Opened →
            Operated (fun _ => True) r₂ r₃ log₃ →
              (log ++ log₁ ++ log₂ ++ log₃).count (.begins r.worker.runs.length) = 1) := by
  have hUnstarted : Unstarted (.create (Worker.create name options body true hasShutdown) mode) :=
    ⟨name, options, body, true, hasShutdown, mode, rfl⟩
  have hSteady : Steady (.create (Worker.create name options body true hasShutdown) mode) r log := by
    have hFirst := (Steady.create hUnstarted).operated h
    rwa [List.nil_append] at hFirst
  have hMade : r.worker.asMade = Worker.create name options body true hasShutdown :=
    hSteady.recorded.asMade
  refine ⟨?_, hSteady.faithful.calls, ?_, ?_, ?_⟩
  · have hAwaited : r.worker.asMade.awaited = _ := congrArg awaited hMade
    exact hAwaited
  · intro k
    exact ⟨hSteady.count_begins k, hSteady.gated.begins k⟩
  · intro k signals hWaits
    obtain ⟨hSome, hRest⟩ := hSteady.signals_eq hWaits
    refine ⟨hSome, hRest, ?_⟩
    intro id scope r₁ log₁ hLooks hQuiet
    have hStopped := hSteady.operate (.stop id scope) nofun hLooks hQuiet
    obtain rfl := hSteady.stop hWaits hLooks hQuiet
    refine ⟨rfl, ?_, ?_⟩
    · have hName : r.worker.asMade.name = name := congrArg Worker.name hMade
      change r.worker.name = name at hName
      have hSame := hStopped.recorded.asMade.trans hSteady.recorded.asMade.symm
      have hExit : [Deed.ends k .heldBack].flatMap (·.measurements r.worker) =
          [.workerExit r.worker.name .cancelledBeforeStart] := rfl
      rw [hStopped.faithful.measurements, hSteady.faithful.measurements, List.flatMap_append,
        measurements_congr hSame, hExit, hName]
    · intro r₂ log₂ hOperated
      exact (hStopped.operated hOperated).begins_not_mem (hSteady.filter_of_waits hWaits)
  · intro hStart r₁ log₁ r₂ log₂ r₃ log₃ hLooks hQuiet hUnstopped hOpened hLater
    have hFirst := hSteady.operate .start nofun hLooks hQuiet
    have hSecond := hFirst.operated hUnstopped
    have hThird := hSecond.operated hLater
    have hFree := ((Unstopped.of_start hSteady.quiet hStart).looks hLooks).operated hUnstopped
    have hBegins := hSecond.begins_of_unstopped hFree hOpened
    apply Nat.le_antisymm (hThird.count_begins _)
    exact List.count_pos_iff.mpr (List.mem_append_left _ hBegins)

/-- A worker that waits for both signals. -/
def cautious : Worker :=
  Worker.create "indexer" ⟨true, true, false⟩ ⟨⟨none, .ok, some .ok, false⟩, []⟩ true false

/-- It was started before its one component was ready, and no traffic may come yet. -/
def halfway : Supervision :=
  (((((create cautious .orchestrated).move (.readiness (.add "db") 0)).settle.move
    .start).settle).move (.readiness (.mark "db") 1)).settle

theorem invoked_as_signalled_halfway :
    ∃ log, Operated (fun _ => True) (create cautious .orchestrated) halfway log ∧
      halfway.worker.stage? 0 = some (.awaiting [.trafficReady]) ∧
      halfway.worker.awaited.dropWhile halfway.coordinator.fired = [.trafficReady] ∧
      (halfway.move (.stop "s" none)).settle.journal.measurements =
        [.workerExit "indexer" .cancelledBeforeStart] := by
  have hBegun : Operated (fun _ => True) (create cautious .orchestrated)
      (create cautious .orchestrated) [] := .begun
  obtain ⟨added, hAdded⟩ := hBegun.settle (.readiness (.add "db") 0) nofun trivial
  obtain ⟨started, hStarted⟩ := hAdded.settle .start nofun trivial
  obtain ⟨marked, hMarked⟩ := hStarted.settle (.readiness (.mark "db") 1) nofun trivial
  obtain ⟨-, -, -, hWaiting, -⟩ := invoked_as_signalled hMarked
  have hWaits : halfway.worker.stage? 0 = some (.awaiting [.trafficReady]) := rfl
  obtain ⟨-, hRest, hStop⟩ := hWaiting 0 [.trafficReady] hWaits
  obtain ⟨more, hLooks⟩ := recorded_settle (halfway.move (.stop "s" none))
  obtain ⟨-, hExit, -⟩ := hStop "s" none _ more hLooks (quiet_settle _)
  exact ⟨_, hMarked, hWaits, hRest.symm, hExit⟩

end Supervision

end Gatehouse.Worker
