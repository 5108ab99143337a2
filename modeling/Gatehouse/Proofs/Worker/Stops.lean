import Gatehouse.Proofs.Worker.Courses

/-!
# What the answer of a stop says

A stop takes the run whose handle the worker has, and answers for this run alone. `Ok` says that
the run has ended, or that there was no handle to take; `StopAbandoned` says that its scope ended
while the run was unfinished, and the handle is put back. While one stop waits the worker has no
handle, so that another stop which is made then answers `Ok` at once, with the run unfinished.

* `Supervision.astray`: the unfinished runs that a new stop does not find.
* `Supervision.Standing`: what the stage of a stop says; `standing_of_course` follows a stop from
  its first look on, through any course.
* `unfinishedBefore_of_waiting`: as long as it waits, its run had not ended at any earlier instant.
* `stop_answers_for_its_run`: no run made before an `Ok` is unfinished, unless it was astray at the
  first look; a stop gives up only at an instant at which its scope has ended and its run was
  unfinished.
-/

namespace Gatehouse.Worker

namespace Supervision

/-- The unfinished runs whose handle the worker does not have. -/
def astray (r : Supervision) : List Nat :=
  r.worker.unfinished.filter fun k => r.worker.current != some k

/-- A new stop has its first look at the worker. -/
structure FirstLook (r : Supervision) (index : Nat) (s : Stop) (e : Event) : Prop where
  found : r.stops[index]? = some s
  new : s.stage = .asked
  look : e = .move (.visit index) ∨ e = .scopeFirst index

/-- A stop that is made now, under a scope that has not ended, waits for the run. -/
def Stoppable (r : Supervision) (k : Nat) : Prop :=
  ∀ id scope, r.cause? ⟨id, scope, .asked⟩ = none →
    ((r.move (.stop id scope)).move (.visit r.stops.length)).stops[r.stops.length]? =
      some ⟨id, scope, .waiting k⟩

/-- After its first look, `e₀` at `q`, and before `r` a stop gave up its run: it did so at `p`, by
`e`. -/
structure GaveUp (starts : Supervision → Prop) (q : Supervision) (e₀ : Event) (r : Supervision)
    (index : Nat) (s : Stop) (k : Nat) (c : Cause) (p : Supervision) (e : Event) : Prop where
  before : p = q ∧ e = e₀ ∨
    Course starts (q.occur e₀) p ∧ p.stops[index]? = some { s with stage := .waiting k }
  after : Course starts (p.occur e) r
  reported :
    (p.occur e).stops[index]? = some { s with stage := .ended (.error (.stopAbandoned c)) }
  cause : p.cause? s = some c
  putBack : (p.occur e).worker.current = some k
  stoppable : (p.occur e).worker.isEnded k = false → (p.occur e).Stoppable k

/-- At no instant before that of `p` had a run ended. -/
def UnfinishedBefore (starts : Supervision → Prop) (q : Supervision) (k : Nat)
    (p : Supervision) : Prop :=
  ∀ p₀, Course starts q p₀ → Course starts p₀ p → p₀.now < p.now → p₀.worker.isEnded k = false

/-- What the stage of a stop says, after its first look at `q`. -/
def Standing (starts : Supervision → Prop) (q : Supervision) (e₀ : Event) (r : Supervision)
    (index : Nat) (s : Stop) : StopStage → Prop
  | .asked => False
  | .waiting k => q.worker.current = some k
  | .ended (.ok ()) =>
    ∀ k, q.worker.current = some k → k < q.worker.runs.length → r.worker.isEnded k = true
  | .ended (.error error) =>
    ∃ k c, error = .stopAbandoned c ∧ q.worker.current = some k ∧
      ∃ p e, GaveUp starts q e₀ r index s k c p e

variable {starts : Supervision → Prop} {q r : Supervision} {index : Nat} {s : Stop} {k : Nat}

theorem mem_astray :
    k ∈ r.astray ↔ k ∈ r.worker.unfinished ∧ r.worker.current ≠ some k := by
  simp [astray]

/-- The runs that are astray are those that stops wait for, as long as there is one handle. -/
theorem mem_astray_iff (hOne : r.handles.length ≤ 1)
    (hHandle : ∀ k, r.worker.isEnded k = false → k ∈ r.handles) :
    k ∈ r.astray ↔ k ∈ r.worker.unfinished ∧ k ∈ r.taken := by
  refine mem_astray.trans (and_congr_right fun hUnfinished => ⟨fun hNot => ?_, fun hTaken => ?_⟩)
  · have hMem := hHandle k (mem_unfinished.mp hUnfinished)
    rw [handles, List.mem_append, Option.mem_toList] at hMem
    exact hMem.resolve_left hNot
  · rw [current_eq_none_of_one hOne (List.ne_nil_of_mem hTaken)]
    exact Option.some_ne_none k |>.symm

theorem onStop_getElem? (hStop : r.stops[index]? = some s)
    (f : Worker → Option Cause → Stop → Stop × Worker × Journal) :
    (r.onStop index f).stops[index]? = some (f r.worker (r.cause? s) s).1 := by
  obtain ⟨hIndex, -⟩ := List.getElem?_eq_some_iff.mp hStop
  rw [onStop_of_some hStop]
  exact List.getElem?_set_self hIndex

theorem stoppable_of_current (hCurrent : r.worker.current = some k)
    (hRuns : r.worker.isEnded k = false) : r.Stoppable k := by
  intro id scope hCause
  obtain ⟨w', hTaken, hExchange⟩ :=
    take_of_current (s := ⟨id, scope, .asked⟩) rfl hCurrent
  have hNew : (r.move (.stop id scope)).stops[r.stops.length]? = some ⟨id, scope, .asked⟩ :=
    List.getElem?_concat_length
  have hWaits : visitStop r.worker none ⟨id, scope, .asked⟩ =
      (⟨id, scope, .waiting k⟩, w', []) := by
    rw [visitStop_take, hTaken]
    simp [visitStop, (hExchange.same k).trans hRuns]
  have hLook := onStop_getElem? hNew visitStop
  rw [show (r.move (.stop id scope)).cause? ⟨id, scope, .asked⟩ = none from hCause,
    show (r.move (.stop id scope)).worker = r.worker from rfl, hWaits] at hLook
  exact hLook

/-! ## The first look -/

theorem FirstLook.exists_look {e : Event} (h : FirstLook q index s e) :
    ∃ look, Look look ∧ q.occur e = q.onStop index look ∧
      (∀ w cause s, look w cause s = look (take w s).2 cause (take w s).1) ∧
      ∀ w cause (s : Stop) k, s.stage = .waiting k → Outcome w cause s k (look w cause s) := by
  rcases h.look with rfl | rfl
  · exact ⟨visitStop, .visit, rfl, visitStop_take,
      fun w cause _ _ hStage => outcome_visitStop w cause hStage⟩
  · exact ⟨visitScopeFirst, .scopeFirst, rfl, visitScopeFirst_take,
      fun w cause _ _ hStage => outcome_visitScopeFirst w cause hStage⟩

theorem FirstLook.course {e : Event} (h : FirstLook q index s e) : Course starts q (q.occur e) := by
  rcases h.look with rfl | rfl <;> exact Course.begun.next _ trivial

/-- A stop that finds no handle is done at once, whatever is unfinished. -/
theorem FirstLook.of_current_none {e : Event} (h : FirstLook q index s e)
    (hNone : q.worker.current = none) :
    (q.occur e).stops[index]? = some { s with stage := .ended (.ok ()) } ∧
      (q.occur e).worker = q.worker := by
  obtain ⟨look, hLook, hOccur, hTake, -⟩ := h.exists_look
  have hLooks : look q.worker (q.cause? s) s =
      ({ s with stage := .ended (.ok ()) }, q.worker, []) := by
    rw [hTake, take_of_current_none h.new hNone]
    exact hLook.of_ended _ _ rfl
  rw [hOccur]
  refine ⟨?_, ?_⟩
  · rw [onStop_getElem? h.found, hLooks]
  · rw [onStop_of_some h.found, hLooks]

/-- What a look comes to, the first one or a later one, at a stop that has taken the run. -/
theorem standing_of_outcome {e₀ e : Event} {w : Worker} {seen : Stop × Worker × Journal}
    (hCurrent : q.worker.current = some k)
    (hBefore : r = q ∧ e = e₀ ∨
      Course starts (q.occur e₀) r ∧ r.stops[index]? = some { s with stage := .waiting k })
    (hSeen : Outcome w (r.cause? s) { s with stage := .waiting k } k seen)
    (hStop : (r.occur e).stops[index]? = some seen.1) (hWorker : (r.occur e).worker = seen.2.1) :
    ∃ stage, (r.occur e).stops[index]? = some { s with stage := stage } ∧
      Standing starts q e₀ (r.occur e) index s stage := by
  cases hSeen with
  | waits => exact ⟨.waiting k, hStop, hCurrent⟩
  | sees hRun =>
    refine ⟨.ended (.ok ()), hStop, fun k' hSome _ => ?_⟩
    obtain rfl : k = k' := Option.some.inj (hCurrent.symm.trans hSome)
    exact (congrArg (·.isEnded k) hWorker).trans hRun
  | @givesUp c hCause =>
    have hPutBack : (r.occur e).worker.current = some k := congrArg (·.current) hWorker
    exact ⟨.ended (.error (.stopAbandoned c)), hStop, k, c, rfl, hCurrent, r, e, hBefore, .begun,
      hStop, hCause, hPutBack, stoppable_of_current hPutBack⟩

theorem FirstLook.standing {e : Event} (h : FirstLook q index s e) :
    ∃ stage, (q.occur e).stops[index]? = some { s with stage := stage } ∧
      Standing starts q e (q.occur e) index s stage := by
  cases hCurrent : q.worker.current with
  | none =>
    refine ⟨_, (h.of_current_none hCurrent).1, fun k hSome => ?_⟩
    rw [hCurrent] at hSome
    cases hSome
  | some run =>
    obtain ⟨look, -, hOccur, hTake, hOutcome⟩ := h.exists_look
    obtain ⟨w', hTaken, -⟩ := take_of_current h.new hCurrent
    have hStop := onStop_getElem? h.found look
    have hWorker := congrArg (·.worker) (onStop_of_some h.found look)
    rw [← hOccur, hTake, hTaken] at hStop hWorker
    exact standing_of_outcome hCurrent (.inl ⟨rfl, rfl⟩) (hOutcome w' _ _ run rfl) hStop hWorker

/-! ## From the first look on -/

section Later

variable {e₀ e : Event} {stage : StopStage}

/-- An event that leaves the stop at its stage. -/
theorem Standing.stays (hMade : q.worker.runs.length ≤ r.worker.runs.length)
    (hAdmits : r.Admits starts e) (h : Standing starts q e₀ r index s stage) :
    Standing starts q e₀ (r.occur e) index s stage := by
  have hStep : Course starts r (r.occur e) := Course.begun.next e hAdmits
  cases stage with
  | asked => exact h
  | waiting run => exact h
  | ended result =>
    cases result with
    | ok _ =>
      exact fun k hSome hk => hStep.onward.ended k (Nat.lt_of_lt_of_le hk hMade) (h k hSome hk)
    | error error =>
      obtain ⟨run, c, hError, hCurrent, p, e', hGaveUp⟩ := h
      exact ⟨run, c, hError, hCurrent, p, e', { hGaveUp with after := hGaveUp.after.trans hStep }⟩

/-- A look at a stop that waits. -/
theorem Standing.look {look : Worker → Option Cause → Stop → Stop × Worker × Journal}
    (hLook : Look look) (hOccur : r.occur e = r.onStop index look)
    (hLater : Course starts (q.occur e₀) r) {run : Nat}
    (hStop : r.stops[index]? = some { s with stage := .waiting run })
    (hCurrent : q.worker.current = some run) :
    ∃ stage, (r.occur e).stops[index]? = some { s with stage := stage } ∧
      Standing starts q e₀ (r.occur e) index s stage := by
  have hWaiting : ({ s with stage := .waiting run } : Stop).stage = .waiting run := rfl
  have hAfter := onStop_getElem? hStop look
  have hWorker := congrArg (·.worker) (onStop_of_some hStop look)
  rw [← hOccur] at hAfter hWorker
  rcases hLook.outcome r.worker (r.cause? s) hWaiting with hNothing | hSeen
  · exact ⟨.waiting run, hAfter.trans (congrArg (fun seen => some seen.1) hNothing), hCurrent⟩
  · exact standing_of_outcome hCurrent (.inr ⟨hLater, hStop⟩) hSeen hAfter hWorker

/-- Only a look at the stop itself moves it on, and only if it has not ended. -/
theorem occur_stop (e : Event) (hStop : r.stops[index]? = some s) :
    (r.occur e).stops[index]? = some s ∨
      ∃ look, Look look ∧ r.occur e = r.onStop index look ∧ ∀ result, s.stage ≠ .ended result := by
  obtain ⟨hIndex, -⟩ := List.getElem?_eq_some_iff.mp hStop
  rcases occur_cases r e with ⟨other, look, hLook, hOccur⟩ | ⟨new, hNew⟩
  · by_cases hMine : other = index
    · subst hMine
      cases hStage : s.stage with
      | ended result =>
        left
        rw [hOccur, onStop_getElem? hStop, hLook.of_ended _ _ hStage]
      | asked => exact .inr ⟨look, hLook, hOccur, nofun⟩
      | waiting run => exact .inr ⟨look, hLook, hOccur, nofun⟩
    · left
      rw [hOccur]
      cases hOther : r.stops[other]? with
      | none => rwa [onStop_of_none hOther]
      | some s' =>
        rw [onStop_of_some hOther]
        exact (List.getElem?_set_ne hMine).trans hStop
  · left
    rw [hNew, List.getElem?_append_left hIndex]
    exact hStop

/-- A stop that has ended keeps its answer. -/
theorem Course.keeps_ended (h : Course starts q r) {result : Except Error Unit}
    (hStop : q.stops[index]? = some s) (hEnded : s.stage = .ended result) :
    r.stops[index]? = some s := by
  induction h with
  | begun => exact hStop
  | next _ e _ ih =>
    rcases occur_stop e ih with hSame | ⟨_, -, -, hNot⟩
    · exact hSame
    · exact absurd hEnded (hNot result)

end Later

/-- What the stage of a stop says at any time after its first look. -/
theorem standing_of_course {e : Event} (hLook : FirstLook q index s e)
    (hLater : Course starts (q.occur e) r) :
    ∃ stage, r.stops[index]? = some { s with stage := stage } ∧
      Standing starts q e r index s stage := by
  induction hLater with
  | begun => exact hLook.standing
  | next hLater e' hAdmits ih =>
    obtain ⟨stage, hStop, hStanding⟩ := ih
    have hMade := (hLook.course.trans hLater).onward.made
    rcases occur_stop e' hStop with hSame | ⟨look, hLooks, hOccur, hNot⟩
    · exact ⟨stage, hSame, hStanding.stays hMade hAdmits⟩
    · cases stage with
      | asked => exact hStanding.elim
      | waiting run => exact Standing.look hLooks hOccur hLater hStop hStanding
      | ended result => exact absurd rfl (hNot result)

/-- A stop that waits for a run has waited for it since its first look. -/
theorem waiting_before {e : Event} {p : Supervision} (hLook : FirstLook q index s e)
    (hBefore : Course starts (q.occur e) p) (hAfter : Course starts p r)
    (hStop : r.stops[index]? = some { s with stage := .waiting k }) :
    p.stops[index]? = some { s with stage := .waiting k } := by
  obtain ⟨stage, hThen, hStanding⟩ := standing_of_course hLook hBefore
  obtain ⟨stage', hNow, hStanding'⟩ := standing_of_course hLook (hBefore.trans hAfter)
  obtain rfl : stage' = .waiting k :=
    congrArg Stop.stage (Option.some.inj (hNow.symm.trans hStop))
  cases stage with
  | asked => exact hStanding.elim
  | waiting run =>
    obtain rfl : run = k := Option.some.inj (hStanding.symm.trans hStanding')
    exact hThen
  | ended result =>
    have hKept := hAfter.keeps_ended hThen rfl
    cases hKept.symm.trans hStop

/-- The clock has never left a run behind that had ended and that this stop waits for. -/
theorem unfinishedBefore_of_waiting {e : Event} (hLook : FirstLook q index s e)
    (hMade : k < q.worker.runs.length) (hLater : Course starts (q.occur e) r)
    (hStop : r.stops[index]? = some { s with stage := .waiting k }) :
    UnfinishedBefore starts (q.occur e) k r := by
  intro p hBefore hAfter hEarlier
  have hMadeThen : k < p.worker.runs.length :=
    Nat.lt_of_lt_of_le hMade (hLook.course.trans hBefore).onward.made
  induction hAfter with
  | begun => exact absurd hEarlier (Nat.lt_irrefl _)
  | @next r hAfter e' hAdmits ih =>
    have hWaiting :=
      waiting_before hLook (hBefore.trans hAfter) (Course.begun.next e' hAdmits) hStop
    rcases now_occur r e' with hSame | ⟨now, rfl⟩
    · exact ih (hBefore.trans hAfter) hWaiting (hSame ▸ hEarlier)
    · -- The clock goes on only because the run of this stop is unfinished.
      have hStill := hAdmits.2 _ (List.mem_of_getElem? hWaiting) k rfl
      exact hAfter.unfinished_before hMadeThen hStill

end Supervision

open Supervision

/-- Once a stop has had its first look, it answers for the run whose handle the worker had then. It
waits for no other, and a look after the end of that run ends the wait with `Ok`. If it answers
`Ok`, a run that had been made by its first look and is unfinished was astray: the worker did not
have its handle. It answers nothing else but that it gave up, which it does at an instant at which
its scope has ended, and at which its run was still unfinished unless that had ended before the
first look; it puts the handle back. If no start is made while a stop waits, the runs that are
astray are those that other stops wait for, one that looks then is done at once, and a run that is
unfinished can be stopped or a stop waits for it. -/
theorem stop_answers_for_its_run {name : String} {options : Options} {body : Plans}
    {hasReadiness hasShutdown : Bool} {mode : Config.TrafficMode} {starts : Supervision → Prop}
    {q r : Supervision} {index : Nat} {s : Stop} {e : Event}
    (hReached : Course starts
      (.create (create name options body hasReadiness hasShutdown) mode) q)
    (hLook : FirstLook q index s e) (hLater : Course starts (q.occur e) r) :
    ∃ stage, r.stops[index]? = some { s with stage := stage } ∧ stage ≠ .asked ∧
      (∀ k, stage = .waiting k → q.worker.current = some k ∧
        (r.worker.isEnded k = true →
          (r.move (.visit index)).stops[index]? = some { s with stage := .ended (.ok ()) })) ∧
      (stage = .ended (.ok ()) →
        ∀ k ∈ r.worker.unfinished, k < q.worker.runs.length → k ∈ q.astray) ∧
      (∀ error, stage = .ended (.error error) →
        ∃ k c, error = .stopAbandoned c ∧ q.worker.current = some k ∧
          ∃ p e', GaveUp starts q e r index s k c p e' ∧
            (q.worker.isEnded k = false → UnfinishedBefore starts (q.occur e) k p)) ∧
      ((∀ r, starts r → r.taken = []) →
        (∀ k, k ∈ q.astray ↔ k ∈ q.worker.unfinished ∧ k ∈ q.taken) ∧
        (q.astray ≠ [] → (q.occur e).stops[index]? = some { s with stage := .ended (.ok ()) } ∧
          (q.occur e).worker.unfinished = q.worker.unfinished) ∧
        ∀ k ∈ r.worker.unfinished, r.Stoppable k ∨ k ∈ r.taken) := by
  obtain ⟨stage, hStop, hStanding⟩ := standing_of_course hLook hLater
  refine ⟨stage, hStop, ?_, ?_, ?_, ?_, fun hStarts => ?_⟩
  · rintro rfl
    exact hStanding
  · rintro k rfl
    refine ⟨hStanding, fun hEnded => (onStop_getElem? hStop visitStop).trans ?_⟩
    simp only [visitStop, hEnded, if_true]
  · rintro rfl k hNow hMade
    have hCourse : Course starts q r := hLook.course.trans hLater
    have hBefore := hCourse.unfinished_before hMade (mem_unfinished.mp hNow)
    refine mem_astray.mpr ⟨mem_unfinished.mpr hBefore, fun hCurrent => ?_⟩
    have hEnded := hStanding k hCurrent hMade
    rw [mem_unfinished.mp hNow] at hEnded
    cases hEnded
  · rintro error rfl
    obtain ⟨k, c, hError, hCurrent, p, e', hGaveUp⟩ := hStanding
    refine ⟨k, c, hError, hCurrent, p, e', hGaveUp, fun hRuns => ?_⟩
    rcases hGaveUp.before with ⟨rfl, rfl⟩ | ⟨hBefore, hWaiting⟩
    · intro p₀ hSince _ hEarlier
      have hNotEarlier := (hLook.course.trans hSince).now_le
      exact absurd hEarlier (Nat.not_lt.mpr hNotEarlier)
    · exact unfinishedBefore_of_waiting hLook (lt_length_of_not_isEnded hRuns) hBefore hWaiting
  · obtain ⟨hOne, hHandle⟩ := hReached.held hStarts
    obtain ⟨-, hHandleLater⟩ := (hReached.trans (hLook.course.trans hLater)).held hStarts
    have hAstray : ∀ k, k ∈ q.astray ↔ k ∈ q.worker.unfinished ∧ k ∈ q.taken :=
      fun k => mem_astray_iff hOne hHandle
    refine ⟨hAstray, fun hSome => ?_, fun k hk => ?_⟩
    · obtain ⟨k, hk⟩ := List.exists_mem_of_ne_nil _ hSome
      have hTaken : q.taken ≠ [] := List.ne_nil_of_mem ((hAstray k).mp hk).2
      obtain ⟨hDone, hWorker⟩ := hLook.of_current_none (current_eq_none_of_one hOne hTaken)
      exact ⟨hDone, by rw [hWorker]⟩
    · have hRuns := mem_unfinished.mp hk
      have hMem := hHandleLater k hRuns
      rw [Supervision.handles, List.mem_append, Option.mem_toList] at hMem
      exact hMem.imp_left fun hCurrent => stoppable_of_current hCurrent hRuns

/-- A worker whose body takes nine units and does not mind being cancelled. -/
def stubborn : Worker :=
  .create "stubborn" ⟨false, false, false⟩ ⟨⟨some 9, .ok, none, false⟩, []⟩ false false

/-- The first stop of the stubborn worker, under a scope that ends after five units. -/
def firstStop : Stop := ⟨"s", some ⟨⟨0, []⟩, some 5⟩, .asked⟩

def stoppedOnce : Supervision :=
  [Event.move .start, .move (.poll 0), .move (.stop firstStop.id firstStop.scope)].foldl
    Supervision.occur (.create stubborn .standalone)

/-- The first stop has given up, and a second one is made. -/
def stoppedTwice : Supervision :=
  [Event.move (.clock 5), .move (.visit 0), .move (.stop "t" none)].foldl Supervision.occur
    (stoppedOnce.occur (.move (.visit 0)))

/-- The second stop takes the run that the first one has put back, and sees its end. -/
def seenOff : Supervision :=
  [Event.move (.clock 9), .move (.poll 0), .move (.visit 1)].foldl Supervision.occur
    (stoppedTwice.occur (.move (.visit 1)))

theorem stop_answers_for_its_run_stubborn :
    (∃ p e, GaveUp (fun r => r.taken = []) stoppedOnce (.move (.visit 0)) stoppedTwice 0 firstStop
        0 .deadlineExceeded p e ∧
      UnfinishedBefore (fun r => r.taken = []) (stoppedOnce.occur (.move (.visit 0))) 0 p) ∧
    (∀ k ∈ seenOff.worker.unfinished, k < 1 → k ∈ stoppedTwice.astray) ∧
    (∀ k, k ∈ stoppedTwice.astray ↔
      k ∈ stoppedTwice.worker.unfinished ∧ k ∈ stoppedTwice.taken) := by
  have hOnce : Course (fun r => r.taken = []) (.create stubborn .standalone) stoppedOnce :=
    course_of_admitsAll (by decide)
  have hFirst : FirstLook stoppedOnce 0 firstStop (.move (.visit 0)) := ⟨rfl, rfl, .inl rfl⟩
  have hGivesUp : Course (fun r => r.taken = []) (stoppedOnce.occur (.move (.visit 0)))
      stoppedTwice := course_of_admitsAll (by decide)
  have hSecond : FirstLook stoppedTwice 1 ⟨"t", none, .asked⟩ (.move (.visit 1)) :=
    ⟨rfl, rfl, .inl rfl⟩
  have hSees : Course (fun r => r.taken = []) (stoppedTwice.occur (.move (.visit 1))) seenOff :=
    course_of_admitsAll (by decide)
  constructor
  · obtain ⟨stage, hStop, -, -, -, hError, -⟩ := stop_answers_for_its_run hOnce hFirst hGivesUp
    have hAbandoned : stoppedTwice.stops[0]? = some { firstStop with
        stage := .ended (.error (.stopAbandoned .deadlineExceeded)) } := rfl
    obtain ⟨k, c, hCause, hRun, p, e, hGaveUp, hRan⟩ :=
      hError _ (congrArg Stop.stage (Option.some.inj (hStop.symm.trans hAbandoned)))
    cases hCause
    cases hRun
    exact ⟨p, e, hGaveUp, hRan (by decide)⟩
  · obtain ⟨stage, hStop, -, -, hOk, -, hOrderly⟩ :=
      stop_answers_for_its_run (hOnce.trans (hFirst.course.trans hGivesUp)) hSecond hSees
    have hDone : seenOff.stops[1]? = some ⟨"t", none, .ended (.ok ())⟩ := rfl
    refine ⟨hOk (congrArg Stop.stage (Option.some.inj (hStop.symm.trans hDone))), ?_⟩
    exact (hOrderly fun _ hNone => hNone).1

/-- A worker whose body never ends. -/
def endless : Worker :=
  .create "indexer" ⟨false, false, false⟩ ⟨⟨none, .ok, none, false⟩, []⟩ false false

/-- It is started and stopped, and stopped once more. -/
def stoppedBeside : Supervision :=
  [Step.start, .stop "s" none, .stop "t" none].foldl (fun r step => (r.act step).2.settle)
    (.create endless .standalone)

/-- A worker whose body ends at once. -/
def brief : Worker :=
  .create "brief" ⟨false, false, false⟩ ⟨⟨some 0, .ok, none, false⟩, []⟩ false false

/-- It has ended at once, and is to be stopped under a scope that has not. -/
def endedEarly : Supervision :=
  [Event.move .start, .move (.poll 0), .move (.stop "s" (some ⟨⟨0, []⟩, some 5⟩))].foldl
    Supervision.occur (.create brief .standalone)

/-- The first look of that stop comes after the end of its scope. -/
def lookedLate : Supervision :=
  [Event.move (.clock 5), .scopeFirst 0].foldl Supervision.occur endedEarly

/-- A stop that is made while another one waits answers `Ok` at once, though the run that was
started before it goes on. And a stop whose run and whose scope have both ended by its first look
can give up, though the run ended first. -/
theorem not_always_stopped :
    (¬ ∀ (name : String) (options : Options) (body : Plans) (hasReadiness hasShutdown : Bool)
      (mode : Config.TrafficMode) (q r : Supervision) (index : Nat) (s : Stop) (e : Event),
      Course (fun _ => True)
        (.create (create name options body hasReadiness hasShutdown) mode) q →
      FirstLook q index s e → Course (fun _ => True) (q.occur e) r →
      r.stops[index]? = some { s with stage := .ended (.ok ()) } →
        ∀ k ∈ r.worker.unfinished, q.worker.runs.length ≤ k) ∧
    (stoppedBeside.stops.map (·.stage) = [.waiting 0, .ended (.ok ())] ∧
      stoppedBeside.worker.unfinished = [0]) ∧
    endedEarly.worker.unfinished = [] ∧ endedEarly.stops.map endedEarly.cause? = [none] ∧
      lookedLate.stops.map (·.stage) = [.ended (.error (.stopAbandoned .deadlineExceeded))] := by
  refine ⟨fun hAlways => ?_, ⟨rfl, by decide⟩, by decide, rfl, rfl⟩
  have hCourse : Course (fun _ => True) (.create indexer .standalone)
      (beingStopped.move (.stop "t" none)) :=
    @course_of_admitsAll _ _ [.move .start, .move (.poll 0), .move (.stop "s" none),
      .move (.visit 0), .move (.stop "t" none)] (by decide)
  have hLook : FirstLook (beingStopped.move (.stop "t" none)) 1 ⟨"t", none, .asked⟩
      (.move (.visit 1)) := ⟨rfl, rfl, .inl rfl⟩
  have hNone := hAlways "indexer" indexer.options indexer.body false false .standalone _ _ 1 _ _
    hCourse hLook .begun rfl 0 (by decide)
  revert hNone
  decide

end Gatehouse.Worker
