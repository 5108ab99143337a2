import Gatehouse.Proofs.Readiness.Signals
import Gatehouse.Readiness.Probe

/-!
# Probes among other calls

A readiness probe checks, notifies if it found the service ready, and takes a snapshot to answer
with; others may call the coordinator between the three. A probe that found the service ready
answers so and tells when traffic readiness was recorded, and what it tells is never taken back. A
probe that did not find it ready does not notify, and still answers with what its snapshot shows:
where the signal fires between the two, it reports a ready service that nobody was told of.

* `Probes`: a coordinator, and the probes that have come.
* `Visit.Sound`, `Probes.Sound`: what holds at every point of every run.
* `Probes.fires_between`: whoever found the service not ready can still come to report it ready.
* `probes_notify`: what the answers of the probes say, and for which of them.
-/

namespace Gatehouse.Readiness

open Config (TrafficMode)
open Coordinator (after create next notices)

/-- A probe, what its check found, and whether it recorded traffic readiness itself. -/
structure Visit where
  probe : Probe
  found : Option Bool
  recorded : Bool
  deriving DecidableEq, Repr

structure Probes where
  coordinator : Coordinator
  visits : List Visit

/-- Somebody calls the coordinator, a probe arrives, or a probe makes its next call. -/
inductive Probes.Step where
  | command (call : Call)
  | arrive
  | look (index moment : Nat)

def Visit.look (c : Coordinator) (moment : Nat) (v : Visit) : Visit × Coordinator :=
  let (probe, c', _) := v.probe.step c moment
  (⟨probe, if v.probe = .arrived then some c.isReady else v.found,
    v.recorded || (!c.isTrafficReady && c'.isTrafficReady)⟩, c')

namespace Probes

/-- A new coordinator in orchestrated mode. -/
def start : Probes := ⟨create .orchestrated, []⟩

def step (r : Probes) : Step → Probes
  | .command call => { r with coordinator := r.coordinator.next call }
  | .arrive => { r with visits := r.visits ++ [⟨.arrived, none, false⟩] }
  | .look index moment =>
    match r.visits[index]? with
    | none => r
    | some v =>
      let (v, c) := v.look r.coordinator moment
      ⟨c, r.visits.set index v⟩

def through (r : Probes) (steps : List Step) : Probes := steps.foldl step r

end Probes

/-! ## What stays -/

namespace Coordinator

/-- The signals that have fired are there later, too. -/
structure Onward (c c' : Coordinator) : Prop where
  ready : c.isReady = true → c'.isReady = true
  traffic : ∀ t, c.trafficReadyAt = some t → c'.trafficReadyAt = some t

theorem Onward.isTrafficReady {c c' : Coordinator} (h : c.Onward c')
    (hTraffic : c.isTrafficReady = true) : c'.isTrafficReady = true := by
  obtain ⟨t, hSome⟩ := Option.isSome_iff_exists.mp hTraffic
  exact Option.isSome_iff_exists.mpr ⟨t, h.traffic t hSome⟩

variable {c : Coordinator}

theorem onward_next (hMode : c.mode = .orchestrated) (call : Call) : c.Onward (c.next call) := by
  refine ⟨fun hReady => ?_, fun t hTraffic => ?_⟩
  · rcases allReadyAt_next c call with hKept | ⟨hNot, -⟩
    · rw [isReady, hKept]
      exact hReady
    · rw [hReady] at hNot
      cases hNot
  · rw [trafficReadyAt_next_orchestrated hMode, hTraffic, Option.some_or]

/-- Traffic readiness is recorded for a ready service only. -/
theorem isReady_of_isTrafficReady_next (hMode : c.mode = .orchestrated)
    (h : c.isTrafficReady = true → c.isReady = true) (call : Call)
    (hTraffic : (c.next call).isTrafficReady = true) : (c.next call).isReady = true := by
  refine (onward_next hMode call).ready ?_
  cases hBefore : c.isTrafficReady with
  | true => exact h hBefore
  | false =>
    have hNone : c.trafficReadyAt = none := by simpa [isTrafficReady] using hBefore
    rw [isTrafficReady, trafficReadyAt_next_orchestrated hMode, hNone, Option.none_or] at hTraffic
    obtain ⟨command, moment⟩ := call
    cases hReady : c.isReady with
    | true => rfl
    | false => cases command <;> simp [notices, hReady] at hTraffic

/-- Without a notification traffic readiness stays as it is. -/
theorem notices_eq_nil (c : Coordinator) {calls : List Call} (h : ∀ call ∈ calls, call.1 ≠ .notify) :
    c.notices calls = [] := by
  induction calls generalizing c with
  | nil => rfl
  | cons call calls ih =>
    obtain ⟨command, moment⟩ := call
    have hRest := ih (c.next (command, moment)) fun call hMem => h call (List.mem_cons_of_mem _ hMem)
    cases command with
    | add | mark => exact hRest
    | notify => exact absurd rfl (h _ List.mem_cons_self)

end Coordinator

open Coordinator

/-! ## One probe -/

namespace Visit

/-- What a probe knows about the coordinator at each of its stages. -/
def Sound (c : Coordinator) (v : Visit) : Prop :=
  (v.recorded = true → v.found = some true) ∧
    match v.probe with
    | .arrived => v.found = none
    | .notifying => v.found = some true ∧ c.isReady = true
    | .reporting => v.found.isSome = true ∧
        (v.found = some true → c.isReady = true ∧ c.isTrafficReady = true)
    | .answered s => v.found.isSome = true ∧
        (v.found = some true → s.ready = true ∧ s.trafficNotifiedAt ≠ none) ∧
        ∀ t, s.trafficNotifiedAt = some t → c.trafficReadyAt = some t

variable {c c' : Coordinator} {v : Visit}

theorem Sound.onward (h : v.Sound c) (hOnward : c.Onward c') : v.Sound c' := by
  obtain ⟨probe, found, recorded⟩ := v
  cases probe with
  | arrived => exact h
  | notifying => exact ⟨h.1, h.2.1, hOnward.ready h.2.2⟩
  | reporting =>
    exact ⟨h.1, h.2.1, fun hFound =>
      ⟨hOnward.ready (h.2.2 hFound).1, hOnward.isTrafficReady (h.2.2 hFound).2⟩⟩
  | answered s => exact ⟨h.1, h.2.1, h.2.2.1, fun t hTold => hOnward.traffic t (h.2.2.2 t hTold)⟩

/-! The next call of a probe, stage by stage. -/

theorem look_arrived (hMode : c.mode = .orchestrated) (moment : Nat) (found : Option Bool)
    (recorded : Bool) :
    (⟨.arrived, found, recorded⟩ : Visit).look c moment =
      (⟨if c.isReady then .notifying else .reporting, some c.isReady, recorded⟩, c) := by
  simp [look, Probe.step, hMode]

theorem isTrafficReady_notify (hMode : c.mode = .orchestrated) (hReady : c.isReady = true)
    (moment : Nat) : (c.next (.notify, moment)).isTrafficReady = true := by
  rw [isTrafficReady, trafficReadyAt_next_orchestrated hMode]
  cases c.trafficReadyAt <;> simp [notices, hReady]

theorem look_notifying (hMode : c.mode = .orchestrated) (hReady : c.isReady = true) (moment : Nat)
    (found : Option Bool) (recorded : Bool) :
    (⟨.notifying, found, recorded⟩ : Visit).look c moment =
      (⟨.reporting, found, recorded || !c.isTrafficReady⟩, c.next (.notify, moment)) := by
  have hTraffic := isTrafficReady_notify hMode hReady moment
  have hNotify : (c.notify moment).1 = .ok () := by simp [notify, hMode, hReady]
  simp only [look, Probe.step, next, perform] at hTraffic ⊢
  generalize c.notify moment = answer at hNotify hTraffic ⊢
  obtain ⟨_, c', journal⟩ := answer
  obtain rfl := hNotify
  simp [hTraffic]

theorem look_reporting (moment : Nat) (found : Option Bool) (recorded : Bool) :
    (⟨.reporting, found, recorded⟩ : Visit).look c moment =
      (⟨.answered c.status, found, recorded⟩, c) := by
  simp [look, Probe.step]

theorem look_answered (moment : Nat) (s : Status) (found : Option Bool) (recorded : Bool) :
    (⟨.answered s, found, recorded⟩ : Visit).look c moment = (⟨.answered s, found, recorded⟩, c) := by
  simp [look, Probe.step]

/-- A probe calls the coordinator to check, to notify and for its snapshot; only the second of them
changes anything. -/
theorem look_coordinator (h : v.Sound c) (hMode : c.mode = .orchestrated) (moment : Nat) :
    (v.look c moment).2 = c ∨ (v.look c moment).2 = c.next (.notify, moment) := by
  obtain ⟨probe, found, recorded⟩ := v
  cases probe with
  | arrived => exact .inl (by rw [look_arrived hMode])
  | notifying => exact .inr (by rw [look_notifying hMode h.2.2])
  | reporting => exact .inl (by rw [look_reporting])
  | answered s => exact .inl (by rw [look_answered])

/-- The step lemma of one probe. -/
theorem Sound.look (h : v.Sound c) (hMode : c.mode = .orchestrated) (moment : Nat) :
    (v.look c moment).1.Sound (v.look c moment).2 := by
  obtain ⟨probe, found, recorded⟩ := v
  cases probe with
  | arrived =>
    obtain ⟨hRecorded, hFound⟩ := h
    have hNot : recorded = false := by
      cases recorded with
      | false => rfl
      | true =>
        rw [hFound] at hRecorded
        cases hRecorded rfl
    rw [look_arrived hMode, hNot]
    cases hReady : c.isReady with
    | true => exact ⟨nofun, rfl, hReady⟩
    | false => exact ⟨nofun, rfl, nofun⟩
  | notifying =>
    obtain ⟨-, hFound, hReady⟩ := h
    rw [look_notifying hMode hReady]
    refine ⟨fun _ => hFound, ?_, fun _ => ⟨?_, isTrafficReady_notify hMode hReady moment⟩⟩
    · exact Option.isSome_iff_exists.mpr ⟨true, hFound⟩
    · exact (onward_next hMode (.notify, moment)).ready hReady
  | reporting =>
    obtain ⟨hRecorded, hSome, hKnown⟩ := h
    rw [look_reporting]
    refine ⟨hRecorded, hSome, fun hFound => ⟨(hKnown hFound).1, ?_⟩, fun t hTold => hTold⟩
    exact Option.isSome_iff_ne_none.mp (hKnown hFound).2
  | answered s =>
    rw [look_answered]
    exact h

end Visit

/-! ## Every run -/

namespace Probes

structure Sound (r : Probes) : Prop where
  called : ∃ calls, r.coordinator = (create .orchestrated).after calls
  traffic : r.coordinator.isTrafficReady = true → r.coordinator.isReady = true
  visits : ∀ v ∈ r.visits, v.Sound r.coordinator

variable {r : Probes}

theorem Sound.mode_eq (h : r.Sound) : r.coordinator.mode = .orchestrated := by
  obtain ⟨calls, hCalls⟩ := h.called
  rw [hCalls]
  exact mode_after _ calls

theorem Sound.next (h : r.Sound) (call : Call) :
    Sound { r with coordinator := r.coordinator.next call } := by
  obtain ⟨calls, hCalls⟩ := h.called
  refine ⟨⟨calls ++ [call], ?_⟩, isReady_of_isTrafficReady_next h.mode_eq h.traffic call, ?_⟩
  · rw [after_concat, ← hCalls]
  · exact fun v hMem => (h.visits v hMem).onward (onward_next h.mode_eq call)

/-- The step lemma. -/
theorem Sound.step (h : r.Sound) (s : Step) : (r.step s).Sound := by
  cases s with
  | command call => exact h.next call
  | arrive =>
    refine ⟨h.called, h.traffic, fun v hMem => ?_⟩
    rcases List.mem_append.mp hMem with hMem | hMem
    · exact h.visits v hMem
    · rw [List.mem_singleton.mp hMem]
      exact ⟨nofun, rfl⟩
  | look index moment =>
    simp only [Probes.step]
    cases hVisit : r.visits[index]? with
    | none => exact h
    | some v =>
      have hSound := h.visits v (List.mem_of_getElem? hVisit)
      have hAfter : Sound { r with coordinator := (v.look r.coordinator moment).2 } := by
        rcases v.look_coordinator hSound h.mode_eq moment with hSame | hNotified
        · rw [hSame]
          exact h
        · rw [hNotified]
          exact h.next (.notify, moment)
      refine ⟨hAfter.called, hAfter.traffic, fun v' hMem => ?_⟩
      rcases List.mem_or_eq_of_mem_set hMem with hMem | rfl
      · exact hAfter.visits v' hMem
      · exact hSound.look h.mode_eq moment

theorem sound_start : start.Sound := ⟨⟨[], rfl⟩, nofun, nofun⟩

theorem Sound.through (h : r.Sound) (steps : List Step) : (r.through steps).Sound := by
  induction steps generalizing r with
  | nil => exact h
  | cons s rest ih => exact ih (h.step s)

theorem through_command (r : Probes) (calls : List Call) :
    r.through (calls.map .command) = { r with coordinator := r.coordinator.after calls } := by
  induction calls generalizing r with
  | nil => rfl
  | cons call calls ih => exact ih _

/-! ## Between the check and the snapshot -/

/-- What makes every component ready: all of them are marked, and one more, so that there is one. -/
def finishing (c : Coordinator) : List Call :=
  (.add "last", 0) :: ("last" :: c.components.map (·.name)).map fun name => (.mark name, 0)

theorem allMarked_finishing (mode : TrafficMode) (calls : List Call) :
    AllMarked (calls ++ finishing ((create mode).after calls)) := by
  have hBooks := books_after mode calls
  have hLast : (.add "last", 0) ∈ calls ++ finishing ((create mode).after calls) := by
    simp [finishing]
  refine ⟨⟨"last", by decide, 0, hLast⟩, fun name hName => ?_⟩
  obtain ⟨hNonempty, moment, hMem⟩ := hName
  have hListed : name ∈ "last" :: ((create mode).after calls).components.map (·.name) ∧
      Registered (calls ++ [(.add "last", 0)]) name := by
    rcases List.mem_append.mp hMem with hOld | hNew
    · have hRegistered : Registered calls name := ⟨hNonempty, moment, hOld⟩
      exact ⟨List.mem_cons_of_mem _ ((hBooks.registered name).mp hRegistered),
        registered_concat.mpr (.inl hRegistered)⟩
    · obtain ⟨rfl, -⟩ : name = "last" ∧ moment = 0 := by simpa [finishing] using hNew
      exact ⟨List.mem_cons_self, registered_concat.mpr (.inr ⟨hNonempty, rfl⟩)⟩
  obtain ⟨⟨front, back, hNames⟩, hRegistered⟩ := And.imp_left List.append_of_mem hListed
  refine ⟨calls ++ (.add "last", 0) :: front.map fun name => (.mark name, 0), 0,
    back.map fun name => (.mark name, 0), ?_, ?_⟩
  · simp [finishing, hNames]
  · obtain ⟨hName, added, hAdded⟩ := hRegistered
    exact ⟨hName, added, by simp at hAdded ⊢; tauto⟩

/-- A probe that found the service not ready can still report it ready with nobody notified, as
long as the signal has not fired: if everything is marked before its snapshot. -/
theorem Sound.fires_between (h : r.Sound) {index : Nat} {v : Visit}
    (hVisit : r.visits[index]? = some v) (hReporting : v.probe = .reporting)
    (hNot : r.coordinator.isReady = false) :
    ∃ calls : List Call, (∀ call ∈ calls, call.1 ≠ .notify) ∧
      let later := (r.through (calls.map .command)).step (.look index 0)
      ∃ v' s, later.visits[index]? = some v' ∧ v'.probe = .answered s ∧
        s.ready = true ∧ s.trafficNotifiedAt = none := by
  obtain ⟨calls, hCalls⟩ := h.called
  have hQuiet : ∀ call ∈ finishing r.coordinator, call.1 ≠ .notify := by
    intro call hMem
    simp only [finishing, List.mem_cons, List.mem_map] at hMem
    rcases hMem with rfl | ⟨name, -, rfl⟩ <;> exact nofun
  refine ⟨finishing r.coordinator, hQuiet, ?_⟩
  obtain ⟨probe, found, recorded⟩ := v
  obtain rfl : probe = .reporting := hReporting
  have hKnown : index < r.visits.length := (List.getElem?_eq_some_iff.mp hVisit).1
  rw [through_command]
  simp only [Probes.step, hVisit, Visit.look_reporting, List.getElem?_set_self hKnown]
  refine ⟨_, _, rfl, rfl, ?_, ?_⟩
  · have hAll := allMarked_finishing .orchestrated calls
    have hReady := (isReady_after .orchestrated _).mpr ⟨_, List.prefix_rfl, hAll⟩
    rw [after, List.foldl_append] at hReady
    rw [hCalls]
    exact hReady
  · have hBefore : r.coordinator.trafficReadyAt = none := by
      cases hTraffic : r.coordinator.isTrafficReady with
      | false => simpa [isTrafficReady] using hTraffic
      | true =>
        rw [h.traffic hTraffic] at hNot
        cases hNot
    change (r.coordinator.after (finishing r.coordinator)).trafficReadyAt = none
    rw [trafficReadyAt_after_orchestrated h.mode_eq, notices_eq_nil _ hQuiet, hBefore]
    rfl

end Probes

open Probes in
/-- In every run of probes among other calls on an orchestrated coordinator: a probe that is
answered 503 did not record traffic readiness, a moment that an answer tells is the recorded one
and stays so, and a probe that found the service ready is answered 200 with a moment. So a probe
that is answered 200 without one found the service not ready: the signal fired between its check
and its snapshot. This can happen to every probe that has checked before the signal fired. -/
theorem probes_notify (steps : List Probes.Step) :
    let r := start.through steps
    (∀ v ∈ r.visits, ∀ s, v.probe = .answered s →
      ((Probe.response s).status = 503 → v.recorded = false) ∧
      (∀ t, s.trafficNotifiedAt = some t → r.coordinator.trafficReadyAt = some t) ∧
      (v.found = some true → (Probe.response s).status = 200 ∧ s.trafficNotifiedAt ≠ none) ∧
      ((Probe.response s).status = 200 → s.trafficNotifiedAt = none → v.found = some false)) ∧
    ∀ index v, r.visits[index]? = some v → v.probe = .reporting → r.coordinator.isReady = false →
      ∃ calls : List Call, (∀ call ∈ calls, call.1 ≠ .notify) ∧
        let later := (r.through (calls.map .command)).step (.look index 0)
        ∃ v' s, later.visits[index]? = some v' ∧ v'.probe = .answered s ∧
          (Probe.response s).status = 200 ∧ s.trafficNotifiedAt = none := by
  intro r
  have hSound : r.Sound := sound_start.through steps
  refine ⟨fun v hMem s hAnswered => ?_, fun index v hVisit hReporting hNot => ?_⟩
  · obtain ⟨hRecorded, hStage⟩ := hSound.visits v hMem
    rw [hAnswered] at hStage
    obtain ⟨hSome, hFound, hTold⟩ := hStage
    refine ⟨fun hRefused => ?_, hTold, fun hReady => ?_, fun _ hNull => ?_⟩
    · cases hOwn : v.recorded with
      | false => rfl
      | true =>
        obtain ⟨hReady, -⟩ := hFound (hRecorded hOwn)
        simp [Probe.response, hReady] at hRefused
    · obtain ⟨hShown, hMoment⟩ := hFound hReady
      exact ⟨by simp [Probe.response, hShown], hMoment⟩
    · obtain ⟨found, hIs⟩ := Option.isSome_iff_exists.mp hSome
      cases found with
      | false => exact hIs
      | true => exact absurd hNull (hFound hIs).2
  · obtain ⟨calls, hQuiet, v', s, hLater, hAnswered, hReady, hNull⟩ :=
      hSound.fires_between hVisit hReporting hNot
    exact ⟨calls, hQuiet, v', s, hLater, hAnswered, by simp [Probe.response, hReady], hNull⟩

/-- The component of a service comes up while one probe is about to answer. -/
def earlyProbe : List Probes.Step :=
  [.command (.add "database", 0), .arrive, .look 0 1]

/-- A second probe comes after the component, and before the first has answered. -/
def twoProbes : List Probes.Step :=
  earlyProbe ++ [.command (.mark "database", 2), .arrive, .look 1 3, .look 0 4, .look 1 5, .look 1 6]

theorem probes_notify_two_probes :
    (∃ calls : List Call, (∀ call ∈ calls, call.1 ≠ .notify) ∧
      let later := ((Probes.start.through earlyProbe).through (calls.map .command)).step (.look 0 0)
      ∃ v' s, later.visits[0]? = some v' ∧ v'.probe = .answered s ∧
        (Probe.response s).status = 200 ∧ s.trafficNotifiedAt = none) ∧
    (Probe.response ⟨true, [⟨"database", true, 0, some 2⟩], some 2, some 5⟩).status = 200 ∧
      (Probes.start.through twoProbes).coordinator.trafficReadyAt = some 5 := by
  have hSecond := (probes_notify twoProbes).1
    ⟨.answered ⟨true, [⟨"database", true, 0, some 2⟩], some 2, some 5⟩, some true, true⟩
    (by decide) _ rfl
  refine ⟨?_, (hSecond.2.2.1 rfl).1, hSecond.2.1 5 rfl⟩
  exact (probes_notify earlyProbe).2 0 ⟨.reporting, some false, false⟩ (by decide) rfl (by decide)

/-- A probe that is answered 200 does not always report when traffic readiness was recorded, and
does not always leave it recorded: here the component is marked between check and snapshot. -/
theorem not_always_notified :
    (¬ ∀ (steps : List Probes.Step), ∀ v ∈ (Probes.start.through steps).visits, ∀ s,
      v.probe = .answered s → (Probe.response s).status = 200 →
        s.trafficNotifiedAt ≠ none ∧
          (Probes.start.through steps).coordinator.isTrafficReady = true) ∧
    (Probes.start.through (earlyProbe ++ [.command (.mark "database", 2), .look 0 3])).visits =
      [⟨.answered ⟨true, [⟨"database", true, 0, some 2⟩], some 2, none⟩, some false, false⟩] := by
  refine ⟨fun hAlways => ?_, by decide⟩
  have hNotified := hAlways (earlyProbe ++ [.command (.mark "database", 2), .look 0 3])
    ⟨.answered ⟨true, [⟨"database", true, 0, some 2⟩], some 2, none⟩, some false, false⟩
    (by decide) _ rfl (by decide)
  exact hNotified.1 rfl

end Gatehouse.Readiness
