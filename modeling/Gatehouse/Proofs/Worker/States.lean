import Gatehouse.Proofs.Worker.Tasks

/-!
# The states that a worker goes through

The state of a worker is written by a start, by a stop and by the task of a run, and these take
their turns in any order. Within one run it only goes forward: idle, running, stopping, stopped.
Only the last run can be unfinished as long as no start is made while a stop waits, so that no
earlier run writes the state of a later one.

* `State.Follows`: the ways from one state to another within a run.
* `Supervision.happen`: what may happen, a body that ends when and how it likes included.
* `Told`: what the state says of the runs; `Told.goes`, `Told.start`.
* `Supervision.Moved`: what one thing that happens makes of the state; `Lived.moved`.
* `states_exact`: the state of a worker along whatever happens.
-/

namespace Gatehouse.Worker

open Readiness (Signal)

/-- What the state may become before the next run is started. -/
inductive State.Follows : State → State → Prop where
  | stays (s : State) : Follows s s
  | runs : Follows .idle .running
  | stops {s : State} (hActive : s = .idle ∨ s = .running) : Follows s .stopping
  | ends (s : State) : Follows s .stopped

namespace State.Follows

variable {s s' s'' : State}

theorem trans (h : Follows s s') (h' : Follows s' s'') : Follows s s'' := by
  cases h' with
  | stays => exact h
  | ends => exact .ends s
  | runs =>
    cases h
    exact .runs
  | stops hActive =>
    cases h with
    | stays => exact .stops hActive
    | runs => exact .stops (.inl rfl)
    | stops hBefore => exact .stops hBefore
    | ends => rcases hActive with h | h <;> cases h

/-- What is on its way out does not run any more. -/
theorem ne_running (h : Follows s s') (hOut : s = .stopping ∨ s = .stopped) : s' ≠ .running := by
  rintro rfl
  cases h with
  | stays => rcases hOut with h | h <;> cases h
  | runs => rcases hOut with h | h <;> cases h

end State.Follows

variable {w w' : Worker} {j k : Nat}

/-! ## What a run writes -/

/-- What a look at the run `j`, or the end of its body, makes of the state. -/
inductive Written (w : Worker) (j : Nat) (w' : Worker) : Prop where
  | kept (hState : w'.state = w.state)
  | begun (hIdle : w.state = .idle) (hState : w'.state = .running)
  | ended (hState : w'.state = .stopped) (hEnded : w'.isEnded j = true)

theorem Written.follows (h : Written w j w') : State.Follows w.state w'.state := by
  cases h with
  | kept hState =>
    rw [hState]
    exact .stays _
  | begun hIdle hState =>
    rw [hIdle, hState]
    exact .runs
  | ended hState _ =>
    rw [hState]
    exact .ends _

theorem written_finish (w : Worker) (j : Nat) (exit : Exit) : Written w j (w.finish j exit).1 := by
  refine .ended rfl ?_
  cases hRun : w.runs[j]? <;> simp [isEnded, finish, setRun, hRun]

theorem written_bodyEnded (w : Worker) (j : Nat) (result : Result) (s : Shutdown) :
    Written w j (w.bodyEnded j result s).1 := by
  unfold bodyEnded
  split
  · exact written_finish w j .ok
  · split
    · dsimp only
      split <;> exact written_finish w j .escalated
    · exact written_finish w j .failed

theorem written_pollBody (w : Worker) (j : Nat) (plan : Plan) (endsAt : Option Nat)
    (cancelled : Bool) (now : Nat) (s : Shutdown) :
    Written w j (w.pollBody j plan endsAt cancelled now s).1 := by
  rw [pollBody_eq]
  split
  · exact written_bodyEnded w j _ s
  · exact .kept rfl

theorem written_beginBody (w : Worker) (j : Nat) (cancelled : Bool) (now : Nat) (s : Shutdown) :
    Written w j (w.beginBody j cancelled now s).1 := by
  have hBegun : ∀ w' : Worker, w'.state = (if w.state == .idle then .running else w.state) →
      Written w j w' := by
    intro w' hState
    by_cases hIdle : w.state = .idle
    · exact .begun hIdle (by simpa [hIdle] using hState)
    · exact .kept (by simpa [hIdle] using hState)
  unfold beginBody
  dsimp only
  split
  · exact hBegun _ rfl
  · -- The state is written before the first look at the body, which may end it.
    generalize hMid : ({ w.setRun j _ with state := _, calls := _ } : Worker) = mid
    have hState : mid.state = if w.state == .idle then .running else w.state := by rw [← hMid]
    have hBody := written_pollBody mid j w.nextPlan (w.nextPlan.duration.map fun d => now + d)
      cancelled now s
    cases hBody with
    | kept hKept => exact hBegun _ (hKept.trans hState)
    | begun hIdle _ =>
      rw [hState] at hIdle
      by_cases hStill : w.state = .idle <;> simp [hStill] at hIdle
    | ended hStopped hEnded => exact .ended hStopped hEnded

theorem written_poll (w : Worker) (j : Nat) (fired : Signal → Bool) (now : Nat) (s : Shutdown) :
    Written w j (w.poll j fired now s).1 := by
  unfold poll
  split
  · exact .kept rfl
  · next r hRun =>
    split
    · next signals hStage =>
      generalize signals = waited
      induction waited with
      | nil => exact written_beginBody w j r.cancelled now s
      | cons signal rest ih =>
        unfold pollSignals
        split
        · exact ih
        · split
          · exact written_finish w j .cancelledBeforeStart
          · exact .kept rfl
    · exact written_pollBody w j _ _ r.cancelled now s
    · exact .kept rfl

theorem poll_of_isEnded (hEnded : w.isEnded j = true) (fired : Signal → Bool) (now : Nat)
    (s : Shutdown) : w.poll j fired now s = (w, s, []) := by
  unfold poll
  split
  · rfl
  · next r hRun =>
    rw [isEnded_of_getElem? hRun, beq_iff_eq] at hEnded
    rw [hEnded]

/-! ## What a stop writes -/

/-- A stop that takes an unfinished run may write that the worker is stopping. -/
theorem state_beginStop (w : Worker) :
    w.beginStop.2.state = w.state ∨
      (w.state = .idle ∨ w.state = .running) ∧ w.beginStop.2.state = .stopping ∧
        ∃ k, w.isEnded k = false := by
  unfold beginStop
  split
  · exact .inl rfl
  · next k _ =>
    dsimp only
    split
    · next hActive =>
      simp only [Bool.and_eq_true, Bool.not_eq_true', Bool.or_eq_true, beq_iff_eq] at hActive
      exact .inr ⟨hActive.2, rfl, k, hActive.1⟩
    · exact .inl rfl

namespace Supervision

variable {look : Worker → Option Cause → Stop → Stop × Worker × Journal}

theorem Outcome.state_eq {cause : Option Cause} {s : Stop} {seen : Stop × Worker × Journal}
    (h : Outcome w cause s k seen) : seen.2.1.state = w.state := by
  cases h <;> rfl

theorem Look.length (hLook : Look look) (w : Worker) (cause : Option Cause) (s : Stop) :
    (look w cause s).2.1.runs.length = w.runs.length := by
  cases hLook with
  | visit => exact length_visitStop w cause s
  | forsake => exact length_forsake w cause s
  | scopeFirst => exact length_visitScopeFirst w cause s

/-- Only the beginning of a stop writes the state. -/
theorem Look.state (hLook : Look look) (w : Worker) (cause : Option Cause) (s : Stop) :
    (look w cause s).2.1.state = w.state ∨
      (look w cause s).2.1.state = w.beginStop.2.state := by
  have hWaiting : ∀ {w : Worker} {s : Stop} {k : Nat}, s.stage = .waiting k →
      (look w cause s).2.1.state = w.state := by
    intro w s k hStage
    rcases hLook.outcome w cause hStage with hSame | hOutcome
    · rw [hSame]
    · exact hOutcome.state_eq
  cases hStage : s.stage with
  | asked =>
    rcases hLook.asked w cause hStage with hSame | hTakes
    · rw [hSame]
      exact .inl rfl
    · rw [hTakes]
      cases hCurrent : w.current with
      | none =>
        rw [take_of_current_none hStage hCurrent, hLook.of_ended w cause rfl]
        exact .inl rfl
      | some run =>
        obtain ⟨w', hBegin, -⟩ := exchange_beginStop s hStage hCurrent
        have hTaken : take w s = ({ s with stage := .waiting run }, w') := by
          simp only [take, hStage, hBegin]
        rw [hTaken, hBegin]
        exact .inr (hWaiting rfl)
  | waiting run => exact .inl (hWaiting hStage)
  | ended result =>
    rw [hLook.of_ended w cause hStage]
    exact .inl rfl

/-- What a look at a stop makes of the state. -/
theorem Look.written (hLook : Look look) (w : Worker) (cause : Option Cause) (s : Stop) :
    (look w cause s).2.1.state = w.state ∨
      (w.state = .idle ∨ w.state = .running) ∧ (look w cause s).2.1.state = .stopping ∧
        ∃ k, w.isEnded k = false := by
  rcases hLook.state w cause s with hKept | hBegin
  · exact .inl hKept
  · rw [hBegin]
    exact state_beginStop w

end Supervision

/-! ## What the state tells -/

/-- Only the last run can be unfinished, and the worker is stopped when there is a run and the last
one is over. -/
structure Told (w : Worker) : Prop where
  invokable : w.Invokable
  last : ∀ k, w.isEnded k = false → k + 1 = w.runs.length
  fresh : w.runs = [] → w.state = .idle
  stopped : w.runs ≠ [] → (w.state = .stopped ↔ ∀ k, w.isEnded k = true)

namespace Told

theorem create {name : String} {options : Options} {body : Plans}
    {hasReadiness hasShutdown : Bool}
    (hInvokable : (Worker.create name options body hasReadiness hasShutdown).Invokable) :
    (Worker.create name options body hasReadiness hasShutdown).Told :=
  ⟨hInvokable, nofun, fun _ => rfl, fun hSome => absurd rfl hSome⟩

theorem state_eq_stopped_iff (h : w.Told) :
    w.state = .stopped ↔ ∃ r, w.runs.getLast? = some r ∧ r.stage = .ended := by
  by_cases hNone : w.runs = []
  · rw [h.fresh hNone, hNone]
    simp
  · rw [h.stopped hNone, List.getLast?_eq_getElem?]
    have hLast : w.runs.length - 1 < w.runs.length :=
      Nat.sub_lt (List.length_pos_iff.mpr hNone) Nat.one_pos
    rw [List.getElem?_eq_getElem hLast]
    constructor
    · intro hAll
      have hEnded := hAll (w.runs.length - 1)
      rw [isEnded_of_getElem? (List.getElem?_eq_getElem hLast), beq_iff_eq] at hEnded
      exact ⟨_, rfl, hEnded⟩
    · rintro ⟨r, hSome, hStage⟩ k
      obtain rfl := Option.some.inj hSome
      by_contra hUnfinished
      have hk := h.last k (Bool.eq_false_iff.mpr hUnfinished)
      obtain rfl : k = w.runs.length - 1 := by omega
      rw [isEnded_of_getElem? (List.getElem?_eq_getElem hLast), beq_iff_eq] at hUnfinished
      exact hUnfinished hStage

theorem invokable_of_body (h : w.Invokable) (hBody : w'.body = w.body) : w'.Invokable := by
  intro calls
  rw [← h calls, nextPlan, nextPlan]
  simp only [hBody]

/-- No run has ended, and the state has not come to stopped either. -/
theorem keep (h : w.Told) (hBody : w'.body = w.body) (hLength : w'.runs.length = w.runs.length)
    (hSame : ∀ k, w'.isEnded k = w.isEnded k)
    (hState : w'.state = w.state ∨
      w.state ≠ .stopped ∧ w'.state ≠ .stopped ∧ ∃ k, w.isEnded k = false) : w'.Told := by
  have hNil : w'.runs = [] ↔ w.runs = [] := by
    rw [← List.length_eq_zero_iff, hLength, List.length_eq_zero_iff]
  refine ⟨invokable_of_body h.invokable hBody, fun k hk => ?_, fun hNone => ?_, fun hSome => ?_⟩
  · rw [hLength]
    exact h.last k ((hSame k).symm.trans hk)
  · rcases hState with hKept | ⟨-, -, k, hk⟩
    · exact hKept.trans (h.fresh (hNil.mp hNone))
    · have hLast := h.last k hk
      rw [hNil.mp hNone] at hLast
      cases hLast
  · have hStopped := h.stopped (mt hNil.mpr hSome)
    simp only [hSame]
    rcases hState with hKept | ⟨hBefore, hAfter, -⟩
    · rw [hKept]
      exact hStopped
    · exact iff_of_false hAfter (mt hStopped.mpr hBefore)

/-- The last run goes on, or ends. -/
theorem goes (h : w.Told) (hj : w.isEnded j = false) (hBody : w'.body = w.body)
    (hLength : w'.runs.length = w.runs.length)
    (hOthers : ∀ k, k ≠ j → w'.isEnded k = w.isEnded k) (hWritten : Written w j w')
    (hEnds : w'.isEnded j = true → w'.state = .stopped) : w'.Told := by
  have hActive : w.state ≠ .stopped := by
    intro hStopped
    have hSome : w.runs ≠ [] := fun hNone => by
      have hLast := h.last j hj
      rw [hNone] at hLast
      cases hLast
    rw [(h.stopped hSome).mp hStopped j] at hj
    cases hj
  cases hEnded : w'.isEnded j with
  | false =>
    have hSame : ∀ k, w'.isEnded k = w.isEnded k := fun k => by
      by_cases hk : k = j
      · rw [hk, hEnded, hj]
      · exact hOthers k hk
    refine h.keep hBody hLength hSame ?_
    cases hWritten with
    | kept hState => exact .inl hState
    | begun hIdle hState => exact .inr ⟨hActive, by rw [hState]; nofun, j, hj⟩
    | ended _ hOver =>
      rw [hEnded] at hOver
      cases hOver
  | true =>
    have hAll : ∀ k, w'.isEnded k = true := by
      intro k
      by_contra hUnfinished
      by_cases hk : k = j
      · exact hUnfinished (hk ▸ hEnded)
      · have hStill : w.isEnded k = false :=
          (hOthers k hk).symm.trans (Bool.eq_false_iff.mpr hUnfinished)
        exact hk (Nat.succ.inj ((h.last k hStill).trans (h.last j hj).symm))
    have hSome : w'.runs ≠ [] := by
      rw [← List.length_pos_iff, hLength, ← h.last j hj]
      exact Nat.succ_pos j
    refine ⟨invokable_of_body h.invokable hBody, fun k hk => ?_, fun hNone => absurd hNone hSome,
      fun _ => iff_of_true (hEnds hEnded) hAll⟩
    rw [hAll k] at hk
    cases hk

theorem poll (h : w.Told) (j : Nat) (fired : Signal → Bool) (now : Nat) (s : Shutdown) :
    (w.poll j fired now s).1.Told := by
  cases hj : w.isEnded j with
  | true =>
    rw [poll_of_isEnded hj]
    exact h
  | false =>
    obtain ⟨r, hRun⟩ : ∃ r, w.runs[j]? = some r :=
      ⟨_, List.getElem?_eq_getElem (lt_length_of_not_isEnded hj)⟩
    have hLooked := looked_poll hRun fired now s
    have hWorks : w.Works j := by
      refine ⟨r, hRun, ?_⟩
      cases hStage : r.stage with
      | awaiting signals => exact h.invokable
      | body plan endsAt => trivial
      | ended =>
        rw [isEnded_of_getElem? hRun, hStage] at hj
        cases hj
    refine h.goes hj (by rw [hLooked.worker]) (length_poll w j fired now s) (fun k hk => ?_)
      (written_poll w j fired now s) ((goesOn_poll w j fired now s).works j hWorks).state_of_isEnded
    rw [isEnded, getElem?_poll_of_ne hk, isEnded]

theorem bodyEnded (h : w.Told) {r : Run} {plan : Plan} {endsAt : Option Nat}
    (hRun : w.runs[j]? = some r) (hStage : r.stage = .body plan endsAt) (result : Result)
    (s : Shutdown) : (w.bodyEnded j result s).1.Told := by
  have hj : w.isEnded j = false := by
    rw [isEnded_of_getElem? hRun, hStage]
    rfl
  have hCloses := closes_bodyEnded hRun result s
  refine h.goes hj (by rw [hCloses.worker]) (length_bodyEnded w j result s) (fun k hk => ?_)
    (written_bodyEnded w j result s) fun _ => stopped_bodyEnded w j result s
  rw [isEnded, hCloses.worker]
  simp only [List.getElem?_set_ne hk.symm]
  rw [isEnded]

/-- A start that is made where every run is over. -/
theorem start (h : w.Told) (hAble : w.checkCollaborators = .ok ()) (hBusy : w.isBusy = false)
    (hOver : ∀ k, w.isEnded k = true) : w.start.2.1.Told := by
  rw [start_of_not_busy hAble hBusy]
  have hEnded := isEnded_append w w.awaited
  have hLength : (w.runs ++ [(⟨.awaiting w.awaited, false⟩ : Run)]).length = w.runs.length + 1 := by
    rw [List.length_append, List.length_singleton]
  refine ⟨invokable_of_body h.invokable rfl, fun k hk => ?_, fun hNone => ?_, fun _ => ?_⟩
  · have hNew := (hEnded k).symm.trans hk
    rw [hOver k, Bool.true_and, bne_eq_false_iff_eq] at hNew
    rw [hNew]
    exact hLength.symm
  · exact absurd hNone (List.append_ne_nil_of_right_ne_nil _ (List.cons_ne_nil _ _))
  · refine iff_of_false nofun fun hAll => ?_
    have hNew := (hEnded w.runs.length).symm.trans (hAll w.runs.length)
    rw [bne_self_eq_false, Bool.and_false] at hNew
    cases hNew

end Told

namespace Supervision

variable {r r' begun q : Supervision}

/-! ## Whatever happens -/

/-- An event, or something that no step of supervision does: a body that was invoked ends, at any
time and with any result, or the token of a run is cancelled, as by a stop that has not written the
state yet. -/
inductive Happening where
  | event (e : Event)
  | bodyEnds (run : Nat) (result : Result)
  | cancels (run : Nat)

def happen (r : Supervision) : Happening → Supervision
  | .event e => r.occur e
  | .bodyEnds run result =>
    match r.worker.stage? run with
    | some (.body _ _) =>
      let (w, s, journal) := r.worker.bodyEnded run result r.shutdown
      { r with worker := w, shutdown := s, journal := r.journal ++ journal }
    | _ => r
  | .cancels run => { r with worker := r.worker.setRun run fun x => { x with cancelled := true } }

/-- No start is made while a stop waits for a run. -/
def Allows (r : Supervision) (h : Happening) : Prop := h = .event (.move .start) → r.taken = []

/-- What supervision can come to, whatever happens in whatever order. -/
inductive Lived (begun : Supervision) : Supervision → Prop where
  | begun : Lived begun begun
  | next {r : Supervision} (hLived : Lived begun r) (h : Happening) (hAllows : r.Allows h) :
      Lived begun (r.happen h)

theorem Lived.trans (h : Lived begun q) (h' : Lived q r) : Lived begun r := by
  induction h' with
  | begun => exact h
  | next _ h hAllows ih => exact ih.next h hAllows

/-- Courses are made of events only. -/
theorem Course.lived (h : Course (fun r => r.taken = []) begun r) : Lived begun r := by
  induction h with
  | begun => exact .begun
  | @next r _ e hAdmits ih =>
    refine ih.next (.event e) fun hStart => ?_
    obtain rfl : e = .move .start := by
      injection hStart
    exact hAdmits

/-- What steps come to, each with everything that follows from it. -/
def afterSteps (r : Supervision) (steps : List Step) : Supervision :=
  steps.foldl (fun r step => (r.act step).2.settle) r

/-- No step starts the worker while a stop waits for a run. -/
def Patient (r : Supervision) : List Step → Prop
  | [] => True
  | step :: rest => (step = .start → r.taken = []) ∧ Patient (r.act step).2.settle rest

/-- Patient steps are among what may happen. -/
theorem Lived.steps (h : Lived begun r) (hPrompt : r.Prompt) {steps : List Step}
    (hPatient : r.Patient steps) : Lived begun (r.afterSteps steps) := by
  induction steps generalizing r with
  | nil => exact h
  | cons step rest ih =>
    obtain ⟨hStart, hRest⟩ := hPatient
    have hCourse : Course (fun r => r.taken = []) r (r.act step).2.settle ∧
        (r.act step).2.settle.Prompt := Course.begun.perform hPrompt step hStart
    exact ih (h.trans hCourse.1.lived) hCourse.2 hRest

/-! ## The handle -/

theorem Held.happen (hHeld : r.Held) {h : Happening} (hAllows : r.Allows h) :
    (r.happen h).Held := by
  cases h with
  | event e =>
    exact hHeld.occur e fun hStart => hAllows (congrArg Happening.event hStart)
  | bodyEnds run result =>
    simp only [Supervision.happen]
    split
    · exact hHeld.lasts (lasts_bodyEnded r.worker run result r.shutdown) rfl
    · exact hHeld
  | cancels run =>
    refine hHeld.lasts ⟨rfl, rfl, rfl, fun k hk => ?_⟩ rfl
    exact (isEnded_cancel r.worker run k).trans hk

/-- Where nothing hinders a start, every run is over. -/
theorem Held.isEnded_of_not_busy (h : r.Held) (hNone : r.taken = [])
    (hBusy : r.worker.isBusy = false) (k : Nat) : r.worker.isEnded k = true := by
  by_contra hUnfinished
  have hk := Bool.eq_false_iff.mpr hUnfinished
  have hMem := h.handle hk
  rw [handles, hNone, List.append_nil, Option.mem_toList] at hMem
  rw [isBusy_iff.mpr ⟨k, hMem, hk⟩] at hBusy
  cases hBusy

/-! ## What one thing makes of the state -/

/-- The state goes forward, or a start that succeeds begins anew. -/
inductive Moved (r : Supervision) (h : Happening) : Prop where
  | within (hRuns : (r.happen h).worker.runs.length = r.worker.runs.length)
    (hFollows : State.Follows r.worker.state (r.happen h).worker.state)
  | restarted (hStart : h = .event (.move .start)) (hOk : r.worker.start.1 = .ok ())
    (hOver : r.worker.runs = [] ∧ r.worker.state = .idle ∨ r.worker.state = .stopped)
    (hRuns : (r.happen h).worker.runs.length = r.worker.runs.length + 1)
    (hIdle : (r.happen h).worker.state = .idle)

theorem Moved.of_same {h : Happening} (hSame : (r.happen h).worker = r.worker) : r.Moved h := by
  refine .within (by rw [hSame]) ?_
  rw [hSame]
  exact .stays _

/-- What is told of the worker stays true, and its state moves on. -/
structure Goes (r : Supervision) (h : Happening) : Prop where
  told : (r.happen h).worker.Told
  moved : r.Moved h

theorem Goes.of_same (hTold : r.worker.Told) {h : Happening}
    (hSame : (r.happen h).worker = r.worker) : r.Goes h :=
  ⟨by rw [hSame]; exact hTold, .of_same hSame⟩

theorem goes_onStop (hTold : r.worker.Told)
    {look : Worker → Option Cause → Stop → Stop × Worker × Journal} (hLook : Look look)
    {index : Nat} {h : Happening} (hEq : r.happen h = r.onStop index look) : r.Goes h := by
  cases hStop : r.stops[index]? with
  | none =>
    rw [onStop_of_none hStop] at hEq
    exact .of_same hTold (by rw [hEq])
  | some s =>
    rw [onStop_of_some hStop] at hEq
    have hWorker : (r.happen h).worker = (look r.worker (r.cause? s) s).2.1 := by rw [hEq]
    have hMade := (hLook.handled r.worker (r.cause? s) s).1.asMade
    have hBody : (r.happen h).worker.asMade.body = r.worker.asMade.body := by rw [hWorker, hMade]
    have hLength : (r.happen h).worker.runs.length = r.worker.runs.length := by
      rw [hWorker]
      exact hLook.length r.worker (r.cause? s) s
    have hSame : ∀ k, (r.happen h).worker.isEnded k = r.worker.isEnded k := by
      rw [hWorker]
      exact (hLook.exchange r.worker (r.cause? s) s).same
    have hState := hLook.written r.worker (r.cause? s) s
    rw [← hWorker] at hState
    rcases hState with hKept | ⟨hActive, hStopping, hUnfinished⟩
    · refine ⟨hTold.keep hBody hLength hSame (.inl hKept), .within hLength ?_⟩
      rw [hKept]
      exact .stays _
    · refine ⟨hTold.keep hBody hLength hSame (.inr ⟨?_, by rw [hStopping]; nofun, hUnfinished⟩),
        .within hLength ?_⟩
      · rcases hActive with hIdle | hRunning
        · rw [hIdle]
          nofun
        · rw [hRunning]
          nofun
      · rw [hStopping]
        exact .stops hActive

theorem start_of_error {w : Worker} {e : Error} (h : w.start.1 = .error e) : w.start.2.1 = w := by
  by_cases hAble : w.checkCollaborators = .ok ()
  · cases hBusy : w.isBusy with
    | true => rw [start_of_busy hAble hBusy]
    | false =>
      rw [start_of_not_busy hAble hBusy] at h
      cases h
  · exact start_of_unable hAble

theorem goes_start (hTold : r.worker.Told) (hHeld : r.Held) (hNone : r.taken = []) :
    r.Goes (.event (.move .start)) := by
  have hWorker : (r.happen (.event (.move .start))).worker = r.worker.start.2.1 := rfl
  by_cases hAble : r.worker.checkCollaborators = .ok ()
  · cases hBusy : r.worker.isBusy with
    | true =>
      refine .of_same hTold ?_
      rw [hWorker, start_of_busy hAble hBusy]
    | false =>
      -- No stop has the handle of a run that goes on.
      have hOver := hHeld.isEnded_of_not_busy hNone hBusy
      refine ⟨hTold.start hAble hBusy hOver, .restarted rfl ?_ ?_ ?_ ?_⟩
      · rw [start_of_not_busy hAble hBusy]
      · by_cases hFresh : r.worker.runs = []
        · exact .inl ⟨hFresh, hTold.fresh hFresh⟩
        · exact .inr ((hTold.stopped hFresh).mpr hOver)
      · rw [hWorker, start_of_not_busy hAble hBusy, List.length_append, List.length_singleton]
      · rw [hWorker, start_of_not_busy hAble hBusy]
  · exact .of_same hTold (start_of_unable hAble)

/-- The step lemma. -/
theorem goes_happen (hTold : r.worker.Told) (hHeld : r.Held) {h : Happening}
    (hAllows : r.Allows h) : r.Goes h := by
  cases h with
  | event e =>
    cases e with
    | scopeFirst index => exact goes_onStop hTold .scopeFirst rfl
    | move m =>
      cases m with
      | start => exact goes_start hTold hHeld (hAllows rfl)
      | visit index => exact goes_onStop hTold .visit rfl
      | forsake index => exact goes_onStop hTold .forsake rfl
      | poll run =>
        exact ⟨hTold.poll run r.coordinator.fired r.now r.shutdown,
          .within (length_poll r.worker run r.coordinator.fired r.now r.shutdown)
            (written_poll r.worker run r.coordinator.fired r.now r.shutdown).follows⟩
      | stop _ _ | request _ | readiness _ _ | scope _ | clock _ => exact .of_same hTold rfl
  | bodyEnds run result =>
    cases hRun : r.worker.runs[run]? with
    | none =>
      refine .of_same hTold ?_
      simp only [Supervision.happen, stage?, hRun, Option.map_none]
    | some x =>
      cases hStage : x.stage with
      | body plan endsAt =>
        have hWorker : (r.happen (.bodyEnds run result)).worker =
            (r.worker.bodyEnded run result r.shutdown).1 := by
          simp only [Supervision.happen, stage?, hRun, Option.map_some, hStage]
        refine ⟨by rw [hWorker]; exact hTold.bodyEnded hRun hStage result r.shutdown,
          .within ?_ ?_⟩
        · rw [hWorker, length_bodyEnded]
        · rw [hWorker]
          exact (written_bodyEnded r.worker run result r.shutdown).follows
      | awaiting _ | ended =>
        refine .of_same hTold ?_
        simp only [Supervision.happen, stage?, hRun, Option.map_some, hStage]
  | cancels run =>
    have hLength : (r.happen (.cancels run)).worker.runs.length = r.worker.runs.length :=
      length_setRun r.worker run _
    exact ⟨hTold.keep rfl hLength (isEnded_cancel r.worker run) (.inl rfl),
      .within hLength (.stays _)⟩

/-! ## Lives -/

namespace Lived

/-- The run lemma. -/
theorem told (h : Lived begun r) (hTold : begun.worker.Told) (hHeld : begun.Held) :
    r.worker.Told ∧ r.Held := by
  induction h with
  | begun => exact ⟨hTold, hHeld⟩
  | next _ h hAllows ih => exact ⟨(goes_happen ih.1 ih.2 hAllows).told, ih.2.happen hAllows⟩

/-- No run is taken back, and as long as none is made the state goes forward. -/
theorem follows (h : Lived q r) (hTold : q.worker.Told) (hHeld : q.Held) :
    q.worker.runs.length ≤ r.worker.runs.length ∧
      (r.worker.runs.length = q.worker.runs.length →
        State.Follows q.worker.state r.worker.state) := by
  induction h with
  | begun => exact ⟨Nat.le_refl _, fun _ => .stays _⟩
  | @next r hLived h hAllows ih =>
    obtain ⟨hToldHere, hHeldHere⟩ := hLived.told hTold hHeld
    cases (goes_happen hToldHere hHeldHere hAllows).moved with
    | within hRuns hFollows =>
      rw [hRuns]
      exact ⟨ih.1, fun hSame => (ih.2 hSame).trans hFollows⟩
    | restarted _ _ _ hRuns _ =>
      rw [hRuns]
      exact ⟨Nat.le_succ_of_le ih.1, fun hSame => absurd ih.1 (by omega)⟩

end Lived

end Supervision

open Supervision

/-- The state of a worker, whatever happens, as long as no start is made while a stop waits and the
invocation of the body does not panic. It is stopped exactly when there is a last run and it has
ended. It only goes forward, but for a start that succeeds, which makes a stopped worker idle; what
is stopping or stopped is not running before that. A start that is refused leaves the worker as it
is, and so does a stop leave the state of a worker that was never started or is over. Steps that
start the worker only when no stop waits are among all this. -/
theorem states_exact {name : String} {options : Options} {body : Plans}
    {hasReadiness hasShutdown : Bool} (mode : Config.TrafficMode)
    (hInvokable : (Worker.create name options body hasReadiness hasShutdown).Invokable)
    {r : Supervision}
    (hLived : Lived (.create (Worker.create name options body hasReadiness hasShutdown) mode) r) :
    (r.worker.state = .stopped ↔ ∃ run, r.worker.runs.getLast? = some run ∧ run.stage = .ended) ∧
    (∀ h, r.Allows h → r.Moved h) ∧
    (∀ r', Lived r r' → r'.worker.runs.length = r.worker.runs.length →
      State.Follows r.worker.state r'.worker.state ∧
        (r.worker.state = .stopping ∨ r.worker.state = .stopped →
          r'.worker.state ≠ .running)) ∧
    (∀ e, r.worker.start.1 = .error e → (r.happen (.event (.move .start))).worker = r.worker) ∧
    (r.worker.runs = [] ∨ r.worker.state = .stopped →
      ∀ look, Look look → ∀ index, (r.onStop index look).worker.state = r.worker.state) ∧
    ∀ steps, r.Prompt → r.Patient steps → Lived r (r.afterSteps steps) := by
  obtain ⟨hTold, hHeld⟩ := hLived.told (Told.create hInvokable) (held_create _ _ _ _ _ mode)
  refine ⟨hTold.state_eq_stopped_iff, fun h hAllows => (goes_happen hTold hHeld hAllows).moved,
    fun r' hLater hSame => ?_, fun e hError => start_of_error hError,
    fun hOver look hLook index => ?_,
    fun steps hPrompt hPatient => Lived.begun.steps hPrompt hPatient⟩
  · have hFollows := (hLater.follows hTold hHeld).2 hSame
    exact ⟨hFollows, hFollows.ne_running⟩
  · cases hStop : r.stops[index]? with
    | none => rw [onStop_of_none hStop]
    | some s =>
      rw [onStop_of_some hStop]
      refine (hLook.written r.worker (r.cause? s) s).resolve_right ?_
      rintro ⟨hActive, -, k, hk⟩
      rcases hOver with hNone | hStopped
      · rw [isEnded, hNone] at hk
        cases hk
      · rcases hActive with h | h <;> rw [hStopped] at h <;> cases h

/-- A worker whose body does not listen to its token. -/
def deaf : Worker :=
  create "deaf" ⟨false, false, false⟩ ⟨⟨none, .ok, none, false⟩, []⟩ false false

/-- A stop of it that gives up after five milliseconds. -/
def givenUp : Supervision :=
  [.move .start, .move (.poll 0), .move (.stop "s" (some ⟨⟨0, []⟩, some 5⟩)), .move (.visit 0),
    .move (.clock 5), .move (.visit 0)].foldl occur (.create deaf .standalone)

theorem lived_givenUp : Lived (.create deaf .standalone) givenUp :=
  Course.lived (course_of_admitsAll (by decide))

/-- The worker is stopping until its task ends, and can be started again after that. -/
theorem states_exact_givenUp :
    let ended := givenUp.happen (.bodyEnds 0 .ok)
    let again := ended.happen (.event (.move .start))
    givenUp.worker.state = .stopping ∧
    (givenUp.happen (.event (.move .start))).worker = givenUp.worker ∧
    State.Follows givenUp.worker.state ended.worker.state ∧
    ended.worker.state = .stopped ∧ ended.Moved (.event (.move .start)) ∧
    again.worker.state = .idle := by
  intro ended again
  have hInvokable : deaf.Invokable := fun calls => congrArg Plan.panicsAtOnce (Plans.nth_only _ calls)
  obtain ⟨-, -, hLater, hRefused, -⟩ := states_exact .standalone hInvokable lived_givenUp
  have hOver : Lived givenUp ended := by
    refine Lived.begun.next (.bodyEnds 0 .ok) fun hStart => ?_
    cases hStart
  obtain ⟨hStopped, hMoved, -⟩ :=
    states_exact .standalone hInvokable (lived_givenUp.trans hOver)
  exact ⟨by decide, hRefused .alreadyRunning (by decide), (hLater ended hOver (by decide)).1,
    hStopped.mpr ⟨⟨.ended, true⟩, by decide, rfl⟩, hMoved _ fun _ => by decide, by decide⟩

end Gatehouse.Worker
