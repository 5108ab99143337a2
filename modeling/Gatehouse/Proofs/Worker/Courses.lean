import Gatehouse.Proofs.Worker.Overlap

/-!
# Courses of a worker and its stops

A stop waits for two things, the end of its run and the end of its scope. Where both have come by
the time it looks, nothing says which of them it sees: `visitStop` sees the run, `visitScopeFirst`
the scope. A course is any sequence of moves and of such looks. Only the clock is held up: it does
not go on while there is a stop whose run has ended and which has not looked since.

* `Supervision.Event`, `Supervision.occur`: what may happen next.
* `Supervision.Course`: what comes of events in any order; the starts among them can be restricted.
* `Course.perform`: a whole step is a course.
* `Course.onward`: what has ended along a course stays ended.
* `Course.held`: as long as no start is made while a stop waits, there is at most one handle, and
  every unfinished run has it.
-/

namespace Gatehouse.Worker

namespace Supervision

/-- What a new stop does before it waits: it takes the run that the worker has. -/
def take (w : Worker) (s : Stop) : Stop × Worker :=
  match s.stage with
  | .asked =>
    match w.beginStop with
    | (none, w) => ({ s with stage := .ended (.ok ()) }, w)
    | (some run, w) => ({ s with stage := .waiting run }, w)
  | _ => (s, w)

/-- Looks at one stop. A scope that has ended goes before a run that has. -/
def visitScopeFirst (w : Worker) (cause : Option Cause) (s : Stop) : Stop × Worker × Journal :=
  let (s, w) := take w s
  let (s, w, left) := forsake w cause s
  let (s, w, seen) := visitStop w cause s
  (s, w, left ++ seen)

inductive Event where
  | move (m : Move)
  | scopeFirst (index : Nat)

def occur (r : Supervision) : Event → Supervision
  | .move m => r.move m
  | .scopeFirst index => r.onStop index visitScopeFirst

/-- No stop waits for a run that has ended. -/
def Prompt (r : Supervision) : Prop := ∀ s ∈ r.stops, ∀ k ∈ s.awaits?, r.worker.isEnded k = false

/-- What may happen next, where starts are made as `starts` allows. The clock only goes on when
every stop has seen that its run has ended. -/
def Admits (starts : Supervision → Prop) (r : Supervision) : Event → Prop
  | .move .start => starts r
  | .move (.clock now) => r.now ≤ now ∧ r.Prompt
  | _ => True

/-- What supervision can come to by events in any order. -/
inductive Course (starts : Supervision → Prop) (begun : Supervision) : Supervision → Prop where
  | begun : Course starts begun begun
  | next {r : Supervision} (h : Course starts begun r) (e : Event) (hAdmits : r.Admits starts e) :
      Course starts begun (r.occur e)

end Supervision

/-! ## Runs stay ended -/

/-- No run is taken back, and none that has ended goes on. -/
structure Onward (w w' : Worker) : Prop where
  made : w.runs.length ≤ w'.runs.length
  ended : ∀ k < w.runs.length, w.isEnded k = true → w'.isEnded k = true

variable {w w' : Worker} {run k : Nat}

namespace Onward

theorem refl (w : Worker) : Onward w w := ⟨Nat.le_refl _, fun _ _ h => h⟩

theorem trans {w'' : Worker} (h : Onward w w') (h' : Onward w' w'') : Onward w w'' :=
  ⟨Nat.le_trans h.made h'.made,
    fun k hk hEnded => h'.ended k (Nat.lt_of_lt_of_le hk h.made) (h.ended k hk hEnded)⟩

theorem of_length (hLength : w'.runs.length = w.runs.length)
    (hEnded : ∀ k, w.isEnded k = true → w'.isEnded k = true) : Onward w w' :=
  ⟨Nat.le_of_eq hLength.symm, fun k _ => hEnded k⟩

end Onward

theorem length_setRun (w : Worker) (run : Nat) (f : Run → Run) :
    (w.setRun run f).runs.length = w.runs.length := by
  simp [setRun]

theorem length_finish (w : Worker) (run : Nat) (exit : Exit) :
    (w.finish run exit).1.runs.length = w.runs.length :=
  length_setRun w run _

theorem length_bodyEnded (w : Worker) (run : Nat) (result : Result) (s : Shutdown) :
    (w.bodyEnded run result s).1.runs.length = w.runs.length := by
  unfold bodyEnded
  split
  · exact length_finish w run .ok
  · split
    · dsimp only
      split <;> exact length_finish w run .escalated
    · exact length_finish w run .failed

theorem length_pollBody (w : Worker) (run : Nat) (plan : Plan) (endsAt : Option Nat)
    (cancelled : Bool) (now : Nat) (s : Shutdown) :
    (w.pollBody run plan endsAt cancelled now s).1.runs.length = w.runs.length := by
  unfold pollBody
  split
  · exact length_bodyEnded w run _ s
  · split
    · split
      · exact length_bodyEnded w run plan.result s
      · rfl
    · rfl

theorem length_beginBody (w : Worker) (run : Nat) (cancelled : Bool) (now : Nat) (s : Shutdown) :
    (w.beginBody run cancelled now s).1.runs.length = w.runs.length := by
  unfold beginBody
  dsimp only
  split
  · exact length_setRun w run _
  · rw [length_pollBody]
    exact length_setRun w run _

theorem length_pollSignals (w : Worker) (run : Nat) (fired : Readiness.Signal → Bool)
    (cancelled : Bool) (now : Nat) (s : Shutdown) (signals : List Readiness.Signal) :
    (w.pollSignals run fired cancelled now s signals).1.runs.length = w.runs.length := by
  induction signals with
  | nil => exact length_beginBody w run cancelled now s
  | cons signal rest ih =>
    unfold pollSignals
    split
    · exact ih
    · split
      · exact length_finish w run .cancelledBeforeStart
      · exact length_setRun w run _

theorem length_poll (w : Worker) (run : Nat) (fired : Readiness.Signal → Bool) (now : Nat)
    (s : Shutdown) : (w.poll run fired now s).1.runs.length = w.runs.length := by
  unfold poll
  split
  · rfl
  · split
    · exact length_pollSignals w run fired _ now s _
    · exact length_pollBody w run _ _ _ now s
    · rfl

theorem length_beginStop (w : Worker) : w.beginStop.2.runs.length = w.runs.length := by
  unfold beginStop
  split
  · rfl
  · dsimp only
    split <;> exact length_setRun w _ _

theorem onward_poll (w : Worker) (run : Nat) (fired : Readiness.Signal → Bool) (now : Nat)
    (s : Shutdown) : Onward w (w.poll run fired now s).1 :=
  .of_length (length_poll w run fired now s) (lasts_poll w run fired now s).ended

theorem start_of_unable (hUnable : w.checkCollaborators ≠ .ok ()) : w.start.2.1 = w := by
  unfold start
  split
  · rfl
  · next hAble => exact absurd hAble hUnable

theorem onward_start (w : Worker) : Onward w w.start.2.1 := by
  by_cases hAble : w.checkCollaborators = .ok ()
  · cases hBusy : w.isBusy with
    | true =>
      rw [start_of_busy hAble hBusy]
      exact .refl w
    | false =>
      rw [start_of_not_busy hAble hBusy]
      refine ⟨by simp, fun k hk hEnded => ?_⟩
      have hAppend := isEnded_append w w.awaited k
      rw [hEnded, Bool.true_and] at hAppend
      exact hAppend.trans (bne_iff_ne.mpr (Nat.ne_of_lt hk))
  · rw [start_of_unable hAble]
    exact .refl w

namespace Supervision

/-! ## Looks -/

theorem take_of_current_none {s : Stop} (hAsked : s.stage = .asked) (hNone : w.current = none) :
    take w s = ({ s with stage := .ended (.ok ()) }, w) := by
  simp [take, hAsked, beginStop, hNone]

theorem take_of_current {s : Stop} (hAsked : s.stage = .asked) (hCurrent : w.current = some run) :
    ∃ w', take w s = ({ s with stage := .waiting run }, w') ∧
      Exchange w s w' { s with stage := .waiting run } := by
  obtain ⟨w', hBegin, hExchange⟩ := exchange_beginStop s hAsked hCurrent
  exact ⟨w', by simp only [take, hAsked, hBegin], hExchange⟩

theorem take_of_waiting {s : Stop} (hStage : s.stage = .waiting run) : take w s = (s, w) := by
  simp only [take, hStage]

theorem take_of_ended {s : Stop} {result : Except Error Unit} (hStage : s.stage = .ended result) :
    take w s = (s, w) := by
  simp only [take, hStage]

/-- A look at a stop that has taken a run. -/
inductive Outcome (w : Worker) (cause : Option Cause) (s : Stop) (k : Nat) :
    Stop × Worker × Journal → Prop where
  | waits (hRun : w.isEnded k = false) :
      Outcome w cause s k ({ s with stage := .waiting k }, w, [])
  | sees (hRun : w.isEnded k = true) :
      Outcome w cause s k ({ s with stage := .ended (.ok ()) }, w, [])
  | givesUp {c : Cause} (hCause : cause = some c) :
      Outcome w cause s k
        ({ s with stage := .ended (.error (.stopAbandoned c)) }, w.giveUp k c)

theorem outcome_visitStop (w : Worker) (cause : Option Cause) {s : Stop}
    (hStage : s.stage = .waiting k) : Outcome w cause s k (visitStop w cause s) := by
  obtain ⟨id, scope, stage⟩ := s
  obtain rfl : stage = .waiting k := hStage
  simp only [visitStop]
  split
  · next hEnded => exact .sees hEnded
  · next hRuns =>
    cases cause with
    | none => exact .waits (Bool.eq_false_iff.mpr hRuns)
    | some c => exact .givesUp rfl

theorem outcome_forsake (w : Worker) (cause : Option Cause) {s : Stop}
    (hStage : s.stage = .waiting k) :
    forsake w cause s = (s, w, []) ∨ Outcome w cause s k (forsake w cause s) := by
  unfold forsake
  rw [hStage]
  cases cause with
  | none => exact .inl rfl
  | some c => exact .inr (.givesUp rfl)

theorem outcome_visitScopeFirst (w : Worker) (cause : Option Cause) {s : Stop}
    (hStage : s.stage = .waiting k) : Outcome w cause s k (visitScopeFirst w cause s) := by
  unfold visitScopeFirst
  rw [take_of_waiting hStage]
  dsimp only
  cases cause with
  | none =>
    have hStays : forsake w none s = (s, w, []) := by simp [forsake, hStage]
    rw [hStays]
    exact outcome_visitStop w none hStage
  | some c =>
    have hLeft : forsake w (some c) s =
        ({ s with stage := .ended (.error (.stopAbandoned c)) }, w.giveUp k c) := by
      simp only [forsake, hStage]
    rw [hLeft]
    simp only [visitStop, List.append_nil]
    exact .givesUp rfl

theorem visitStop_take (w : Worker) (cause : Option Cause) (s : Stop) :
    visitStop w cause s = visitStop (take w s).2 cause (take w s).1 := by
  cases hStage : s.stage with
  | asked =>
    cases hCurrent : w.current with
    | none => simp [take_of_current_none hStage hCurrent, visitStop, hStage, beginStop, hCurrent]
    | some run =>
      obtain ⟨w', hBegin, -⟩ := exchange_beginStop s hStage hCurrent
      simp only [take, visitStop, hStage, hBegin]
  | waiting run => rw [take_of_waiting hStage]
  | ended result => rw [take_of_ended hStage]

theorem take_take (w : Worker) (s : Stop) : take (take w s).2 (take w s).1 = take w s := by
  cases hStage : s.stage with
  | asked =>
    cases hCurrent : w.current with
    | none =>
      rw [take_of_current_none hStage hCurrent]
      exact take_of_ended rfl
    | some run =>
      obtain ⟨w', hTaken, -⟩ := take_of_current hStage hCurrent
      rw [hTaken]
      exact take_of_waiting rfl
  | waiting run => rw [take_of_waiting hStage, take_of_waiting hStage]
  | ended result => rw [take_of_ended hStage, take_of_ended hStage]

theorem visitScopeFirst_take (w : Worker) (cause : Option Cause) (s : Stop) :
    visitScopeFirst w cause s = visitScopeFirst (take w s).2 cause (take w s).1 := by
  unfold visitScopeFirst
  rw [take_take]

theorem exchange_take (w : Worker) (s : Stop) : Exchange w s (take w s).2 (take w s).1 := by
  cases hStage : s.stage with
  | asked =>
    cases hCurrent : w.current with
    | none =>
      rw [take_of_current_none hStage hCurrent]
      refine ⟨rfl, fun _ => rfl, ?_, ?_⟩ <;> simp [Worker.handles, Stop.awaits?, hStage, hCurrent]
    | some run =>
      obtain ⟨w', hTaken, hExchange⟩ := take_of_current hStage hCurrent
      rw [hTaken]
      exact hExchange
  | waiting run =>
    rw [take_of_waiting hStage]
    exact .refl w s
  | ended result =>
    rw [take_of_ended hStage]
    exact .refl w s

theorem exchange_visitScopeFirst (w : Worker) (cause : Option Cause) (s : Stop) :
    Exchange w s (visitScopeFirst w cause s).2.1 (visitScopeFirst w cause s).1 :=
  (exchange_take w s).trans ((exchange_forsake _ cause _).trans (exchange_visitStop _ cause _))

/-- The three ways to look at a stop. -/
inductive Look : (Worker → Option Cause → Stop → Stop × Worker × Journal) → Prop where
  | visit : Look visitStop
  | forsake : Look forsake
  | scopeFirst : Look visitScopeFirst

theorem length_take (w : Worker) (s : Stop) : (take w s).2.runs.length = w.runs.length := by
  cases hStage : s.stage with
  | asked =>
    have hLength := length_beginStop w
    simp only [take, hStage]
    split
    · next w' hBegin => rwa [hBegin] at hLength
    · next run w' hBegin => rwa [hBegin] at hLength
  | waiting run => rw [take_of_waiting hStage]
  | ended result => rw [take_of_ended hStage]

theorem length_forsake (w : Worker) (cause : Option Cause) (s : Stop) :
    (forsake w cause s).2.1.runs.length = w.runs.length := by
  unfold forsake
  split <;> rfl

theorem length_visitStop_waiting (w : Worker) (cause : Option Cause) {s : Stop}
    (hStage : s.stage = .waiting run) :
    (visitStop w cause s).2.1.runs.length = w.runs.length := by
  have hOutcome := outcome_visitStop w cause hStage
  generalize visitStop w cause s = seen at hOutcome
  cases hOutcome <;> rfl

theorem length_visitStop (w : Worker) (cause : Option Cause) (s : Stop) :
    (visitStop w cause s).2.1.runs.length = w.runs.length := by
  cases hStage : s.stage with
  | asked =>
    cases hCurrent : w.current with
    | none => simp only [visitStop, hStage, beginStop, hCurrent]
    | some run =>
      obtain ⟨w', hTaken, -⟩ := take_of_current hStage hCurrent
      have hLength := length_take w s
      rw [hTaken] at hLength
      rw [visitStop_take, hTaken]
      exact (length_visitStop_waiting w' cause rfl).trans hLength
  | waiting run => exact length_visitStop_waiting w cause hStage
  | ended result => simp only [visitStop, hStage]

theorem length_visitScopeFirst (w : Worker) (cause : Option Cause) (s : Stop) :
    (visitScopeFirst w cause s).2.1.runs.length = w.runs.length :=
  (length_visitStop _ cause _).trans ((length_forsake _ cause _).trans (length_take w s))

section Looks

variable {look : Worker → Option Cause → Stop → Stop × Worker × Journal} (hLook : Look look)
include hLook

theorem Look.exchange (w : Worker) (cause : Option Cause) (s : Stop) :
    Exchange w s (look w cause s).2.1 (look w cause s).1 := by
  cases hLook with
  | visit => exact exchange_visitStop w cause s
  | forsake => exact exchange_forsake w cause s
  | scopeFirst => exact exchange_visitScopeFirst w cause s

theorem Look.onward (w : Worker) (cause : Option Cause) (s : Stop) :
    Onward w (look w cause s).2.1 := by
  refine .of_length ?_ fun k hEnded => ((hLook.exchange w cause s).same k).trans hEnded
  cases hLook with
  | visit => exact length_visitStop w cause s
  | forsake => exact length_forsake w cause s
  | scopeFirst => exact length_visitScopeFirst w cause s

/-- Whichever way a stop that waits is looked at. -/
theorem Look.outcome (w : Worker) (cause : Option Cause) {s : Stop}
    (hStage : s.stage = .waiting k) :
    look w cause s = (s, w, []) ∨ Outcome w cause s k (look w cause s) := by
  cases hLook with
  | visit => exact .inr (outcome_visitStop w cause hStage)
  | forsake => exact outcome_forsake w cause hStage
  | scopeFirst => exact .inr (outcome_visitScopeFirst w cause hStage)

/-- A stop that has ended does nothing more. -/
theorem Look.of_ended (w : Worker) (cause : Option Cause) {s : Stop}
    {result : Except Error Unit} (hStage : s.stage = .ended result) :
    look w cause s = (s, w, []) := by
  have hForsaken : Supervision.forsake w cause s = (s, w, []) := by
    simp only [Supervision.forsake, hStage]
  have hVisited : visitStop w cause s = (s, w, []) := by simp only [visitStop, hStage]
  cases hLook with
  | visit => exact hVisited
  | forsake => exact hForsaken
  | scopeFirst =>
    unfold visitScopeFirst
    rw [take_of_ended hStage]
    dsimp only
    rw [hForsaken]
    dsimp only
    rw [hVisited]
    rfl

end Looks

/-! ## Events -/

variable {r r' : Supervision}

theorem onStop_of_some {index : Nat} {s : Stop} (hStop : r.stops[index]? = some s)
    (f : Worker → Option Cause → Stop → Stop × Worker × Journal) :
    r.onStop index f =
      { r with
        worker := (f r.worker (r.cause? s) s).2.1
        stops := r.stops.set index (f r.worker (r.cause? s) s).1
        journal := r.journal ++ (f r.worker (r.cause? s) s).2.2 } := by
  simp only [onStop, hStop]

theorem onStop_of_none {index : Nat} (hNone : r.stops[index]? = none)
    (f : Worker → Option Cause → Stop → Stop × Worker × Journal) : r.onStop index f = r := by
  simp only [onStop, hNone]

theorem onStop_now (r : Supervision) (index : Nat)
    (f : Worker → Option Cause → Stop → Stop × Worker × Journal) :
    (r.onStop index f).now = r.now := by
  cases hStop : r.stops[index]? with
  | none => rw [onStop_of_none hStop]
  | some s => rw [onStop_of_some hStop]

/-- Only the clock changes the instant. -/
theorem now_occur (r : Supervision) (e : Event) :
    (r.occur e).now = r.now ∨ ∃ now, e = .move (.clock now) := by
  cases e with
  | scopeFirst index => exact .inl (onStop_now r index _)
  | move m =>
    cases m with
    | visit index => exact .inl (onStop_now r index _)
    | forsake index => exact .inl (onStop_now r index _)
    | clock now => exact .inr ⟨now, rfl⟩
    | start | stop _ _ | poll _ | request _ | readiness _ _ | scope _ => exact .inl rfl

/-- An event is a look at one stop, or leaves the stops that there are as they are. -/
theorem occur_cases (r : Supervision) (e : Event) :
    (∃ index look, Look look ∧ r.occur e = r.onStop index look) ∨
      ∃ new, (r.occur e).stops = r.stops ++ new := by
  cases e with
  | scopeFirst index => exact .inl ⟨index, visitScopeFirst, .scopeFirst, rfl⟩
  | move m =>
    cases m with
    | visit index => exact .inl ⟨index, visitStop, .visit, rfl⟩
    | forsake index => exact .inl ⟨index, forsake, .forsake, rfl⟩
    | stop id scope => exact .inr ⟨_, rfl⟩
    | start | poll _ | request _ | readiness _ _ | scope _ | clock _ =>
      exact .inr ⟨[], (List.append_nil _).symm⟩

theorem onward_onStop {look : Worker → Option Cause → Stop → Stop × Worker × Journal}
    (hLook : Look look) (r : Supervision) (index : Nat) :
    Onward r.worker (r.onStop index look).worker := by
  cases hStop : r.stops[index]? with
  | none =>
    rw [onStop_of_none hStop]
    exact .refl r.worker
  | some s =>
    rw [onStop_of_some hStop]
    exact hLook.onward r.worker _ s

theorem onward_occur (r : Supervision) (e : Event) : Onward r.worker (r.occur e).worker := by
  cases e with
  | scopeFirst index => exact onward_onStop .scopeFirst r index
  | move m =>
    cases m with
    | start => exact onward_start r.worker
    | visit index => exact onward_onStop .visit r index
    | forsake index => exact onward_onStop .forsake r index
    | poll run => exact onward_poll r.worker run r.coordinator.fired r.now r.shutdown
    | stop _ _ | request _ | readiness _ _ | scope _ | clock _ => exact .refl r.worker

/-! ## Courses -/

namespace Course

variable {starts : Supervision → Prop} {begun q : Supervision}

theorem trans (h : Course starts begun q) (h' : Course starts q r) : Course starts begun r := by
  induction h' with
  | begun => exact h
  | next _ e hAdmits ih => exact ih.next e hAdmits

theorem onward (h : Course starts begun r) : Onward begun.worker r.worker := by
  induction h with
  | begun => exact .refl _
  | next _ e _ ih => exact ih.trans (onward_occur _ e)

/-- What is unfinished now was unfinished before, if it had been made. -/
theorem unfinished_before (h : Course starts begun r) (hMade : k < begun.worker.runs.length)
    (hNow : r.worker.isEnded k = false) : begun.worker.isEnded k = false := by
  refine Bool.eq_false_iff.mpr fun hEnded => ?_
  rw [h.onward.ended k hMade hEnded] at hNow
  cases hNow

theorem now_le (h : Course starts begun r) : begun.now ≤ r.now := by
  induction h with
  | begun => exact Nat.le_refl _
  | @next r _ e hAdmits ih =>
    rcases now_occur r e with hSame | ⟨now, rfl⟩
    · rwa [hSame]
    · exact Nat.le_trans ih hAdmits.1

theorem settle (h : Course starts begun r) : Course starts begun r.settle :=
  settle_keeps (fun _ index h => h.next (.move (.visit index)) trivial)
    (fun _ run h => h.next (.move (.poll run)) trivial) h

end Course

section Decidable

variable {starts : Supervision → Prop} [DecidablePred starts]

instance (r : Supervision) : Decidable r.Prompt :=
  inferInstanceAs (Decidable (∀ s ∈ r.stops, ∀ k ∈ s.awaits?, r.worker.isEnded k = false))

instance (r : Supervision) : (e : Event) → Decidable (r.Admits starts e)
  | .move .start => inferInstanceAs (Decidable (starts r))
  | .move (.clock now) => inferInstanceAs (Decidable (r.now ≤ now ∧ r.Prompt))
  | .move (.stop _ _) | .move (.visit _) | .move (.forsake _) | .move (.poll _)
  | .move (.request _) | .move (.readiness _ _) | .move (.scope _) | .scopeFirst _ =>
    inferInstanceAs (Decidable True)

/-- Events that may happen one after the other. -/
def AdmitsAll (starts : Supervision → Prop) (r : Supervision) : List Event → Prop
  | [] => True
  | e :: rest => r.Admits starts e ∧ (r.occur e).AdmitsAll starts rest

instance decidableAdmitsAll (r : Supervision) :
    (events : List Event) → Decidable (r.AdmitsAll starts events)
  | [] => inferInstanceAs (Decidable True)
  | e :: rest =>
    have := decidableAdmitsAll (r.occur e) rest
    inferInstanceAs (Decidable (r.Admits starts e ∧ (r.occur e).AdmitsAll starts rest))

end Decidable

theorem course_of_admitsAll {starts : Supervision → Prop} {events : List Event}
    (h : r.AdmitsAll starts events) : Course starts r (events.foldl occur r) := by
  induction events generalizing r with
  | nil => exact .begun
  | cons e rest ih => exact (Course.begun.next e h.1).trans (ih h.2)

/-! ## Steps -/

/-- Whoever has looked does not wait for a run that has ended. -/
theorem unfinished_of_visitStop (w : Worker) (cause : Option Cause) (s : Stop) :
    ∀ k ∈ (visitStop w cause s).1.awaits?, (visitStop w cause s).2.1.isEnded k = false := by
  have hWaiting : ∀ {w : Worker} {s : Stop} {run : Nat}, s.stage = .waiting run →
      ∀ k ∈ (visitStop w cause s).1.awaits?, (visitStop w cause s).2.1.isEnded k = false := by
    intro w s run hStage k hk
    have hOutcome := outcome_visitStop w cause hStage
    generalize visitStop w cause s = seen at hOutcome hk
    cases hOutcome with
    | waits hRun =>
      obtain rfl : run = k := Option.some.inj hk
      exact hRun
    | sees => cases hk
    | givesUp => cases hk
  cases hStage : s.stage with
  | asked =>
    cases hCurrent : w.current with
    | none =>
      rw [visitStop_take, take_of_current_none hStage hCurrent]
      intro k hk
      cases hk
    | some run =>
      obtain ⟨w', hTaken, -⟩ := take_of_current hStage hCurrent
      rw [visitStop_take, hTaken]
      exact hWaiting rfl
  | waiting run => exact hWaiting hStage
  | ended result =>
    simp only [visitStop, hStage, Stop.awaits?]
    intro k hk
    cases hk

theorem prompt_visits (rest : List Stop) (h : r.Prompt) :
    (rest.foldl (fun r s =>
        let (s, w, journal) := visitStop r.worker (r.cause? s) s
        { r with worker := w, stops := r.stops ++ [s], journal := r.journal ++ journal })
        r).Prompt := by
  induction rest generalizing r with
  | nil => exact h
  | cons s rest ih =>
    refine ih fun s' hMem k hk => ?_
    rcases List.mem_append.mp hMem with hOld | hNew
    · exact ((exchange_visitStop r.worker (r.cause? s) s).same k).trans (h s' hOld k hk)
    · obtain rfl := List.mem_singleton.mp hNew
      exact unfinished_of_visitStop r.worker (r.cause? s) s k hk

theorem prompt_settle (r : Supervision) : r.settle.Prompt := by
  unfold settle
  split <;> exact prompt_visits _ nofun

theorem now_settle (r : Supervision) : r.settle.now = r.now :=
  settle_keeps (P := fun r' => r'.now = r.now)
    (fun r' index h => (onStop_now r' index visitStop).trans h) (fun _ _ h => h) rfl

namespace Course

variable {starts : Supervision → Prop} {begun : Supervision}

theorem fire {now : Nat} (h : Course starts begun r) (hPrompt : r.Prompt) (hAhead : r.now ≤ now) :
    Course starts begun (Supervision.fire now r) :=
  (h.next (.move (.clock now)) ⟨hAhead, hPrompt⟩).settle

theorem runUntil (h : Course starts begun r) (hPrompt : r.Prompt) {target : Nat}
    (hAhead : r.now ≤ target) :
    Course starts begun (Clock.runUntil Supervision.due Supervision.fire r.now target r) := by
  have hFire : ∀ now t (r : Supervision), now ≤ t → (∀ t' ∈ r.due, t' ≤ now ∨ t ≤ t') →
      Course starts begun r ∧ r.Prompt ∧ r.now = now →
        Course starts begun (Supervision.fire t r) ∧ (Supervision.fire t r).Prompt ∧
          (Supervision.fire t r).now = t :=
    fun _ _ _ hLater _ ⟨h, hPrompt, hNow⟩ =>
      ⟨h.fire hPrompt (hNow ▸ hLater), prompt_settle _, now_settle _⟩
  exact (Clock.runUntil_onward hFire hAhead ⟨h, hPrompt, rfl⟩).1

/-- A whole step, with everything that follows from it, is a course, and the stops have seen what
there is to see at its end. -/
theorem perform (h : Course starts begun r) (hPrompt : r.Prompt) (step : Step)
    (hStart : step = .start → starts r) :
    Course starts begun (r.act step).2.settle ∧ (r.act step).2.settle.Prompt := by
  refine ⟨?_, prompt_settle _⟩
  cases step with
  | check => exact h.settle
  | start => exact (h.next (.move .start) (hStart rfl)).settle
  | stop id scope =>
    exact (h.next (.move (.stop id (scope.bind r.directory.find?))) trivial).settle
  | request code => exact (h.next (.move (.request code)) trivial).settle
  | command command moment => exact (h.next (.move (.readiness command moment)) trivial).settle
  | scope command => exact (h.next (.move (.scope command)) trivial).settle
  | advance d => exact (h.runUntil hPrompt (Nat.le_add_right r.now d)).settle

end Course

/-! ## The handle along a course -/

/-- A worker that lacks a collaborator has neither a run nor a handle. -/
structure Barred (r : Supervision) : Prop where
  unable : r.worker.checkCollaborators ≠ .ok ()
  handles : r.handles = []
  allEnded : ∀ k, r.worker.isEnded k = true

namespace Barred

theorem lasts (h : r.Barred) (hLasts : Lasts r.worker r'.worker) (hTaken : r'.taken = r.taken) :
    r'.Barred := by
  refine ⟨hLasts.collaborators ▸ h.unable, ?_, fun k => hLasts.ended k (h.allEnded k)⟩
  rw [Supervision.handles, hLasts.current, hTaken]
  exact h.handles

theorem exchange (h : r.Barred) {before rest : List Stop} {s s' : Stop}
    (hBefore : r.stops = before ++ s :: rest) (hAfter : r'.stops = before ++ s' :: rest)
    (hExchange : Exchange r.worker s r'.worker s') : r'.Barred := by
  refine ⟨hExchange.collaborators ▸ h.unable, ?_, fun k => (hExchange.same k).trans (h.allEnded k)⟩
  have hOld := (handles_perm hBefore).length_eq
  rw [h.handles, List.length_nil, List.length_append] at hOld
  have hFewer := hExchange.fewer
  refine List.length_eq_zero_iff.mp ?_
  rw [(handles_perm hAfter).length_eq, List.length_append]
  omega

theorem onStop (h : r.Barred) {look : Worker → Option Cause → Stop → Stop × Worker × Journal}
    (hLook : Look look) (index : Nat) : (r.onStop index look).Barred :=
  onStop_keeps (fun h => h.exchange) hLook.exchange h index

theorem occur (h : r.Barred) (e : Event) : (r.occur e).Barred := by
  cases e with
  | scopeFirst index => exact h.onStop .scopeFirst index
  | move m =>
    cases m with
    | start =>
      refine h.lasts ?_ rfl
      rw [show (r.occur (.move .start)).worker = r.worker from start_of_unable h.unable]
      exact .refl r.worker
    | stop id scope =>
      refine h.lasts (.refl r.worker) ?_
      simp [Supervision.occur, Supervision.move, taken, Stop.awaits?]
    | visit index => exact h.onStop .visit index
    | forsake index => exact h.onStop .forsake index
    | poll run => exact h.lasts (lasts_poll r.worker run r.coordinator.fired r.now r.shutdown) rfl
    | request _ | readiness _ _ | scope _ | clock _ => exact h.lasts (.refl r.worker) rfl

end Barred

theorem Guarded.occur (h : r.Guarded) (e : Event) (hStart : e = .move .start → r.taken = []) :
    (r.occur e).Guarded := by
  cases e with
  | move m => exact h.move m fun hMove => hStart (congrArg Event.move hMove)
  | scopeFirst index => exact h.onStop index exchange_visitScopeFirst

/-- A worker that can be started has one handle at most, another one has none. -/
def Held (r : Supervision) : Prop := r.Guarded ∨ r.Barred

theorem held_create (name : String) (options : Options) (body : Plans)
    (hasReadiness hasShutdown : Bool) (mode : Config.TrafficMode) :
    (Supervision.create (Worker.create name options body hasReadiness hasShutdown) mode).Held := by
  by_cases hAble :
      (Worker.create name options body hasReadiness hasShutdown).checkCollaborators = .ok ()
  · exact .inl (guarded_create hAble mode)
  · exact .inr ⟨hAble, rfl, fun _ => rfl⟩

namespace Held

theorem lasts (h : r.Held) (hLasts : Lasts r.worker r'.worker) (hTaken : r'.taken = r.taken) :
    r'.Held :=
  h.imp (·.lasts hLasts hTaken) (·.lasts hLasts hTaken)

theorem occur (h : r.Held) (e : Event) (hStart : e = .move .start → r.taken = []) :
    (r.occur e).Held :=
  h.imp (·.occur e hStart) (·.occur e)

theorem one (h : r.Held) : r.handles.length ≤ 1 := by
  rcases h with hGuarded | hBarred
  · exact hGuarded.one
  · rw [hBarred.handles]
    exact Nat.zero_le 1

theorem handle (h : r.Held) (hk : r.worker.isEnded k = false) : k ∈ r.handles := by
  rcases h with hGuarded | hBarred
  · exact hGuarded.handle k hk
  · rw [hBarred.allEnded k] at hk
    cases hk

end Held

/-- As long as no start is made while a stop waits, there is at most one handle, and it is that of
every unfinished run. -/
theorem Course.held {starts : Supervision → Prop} (hStarts : ∀ r, starts r → r.taken = [])
    {name : String} {options : Options} {body : Plans} {hasReadiness hasShutdown : Bool}
    {mode : Config.TrafficMode}
    (h : Course starts
      (.create (Worker.create name options body hasReadiness hasShutdown) mode) r) :
    r.handles.length ≤ 1 ∧ ∀ k, r.worker.isEnded k = false → k ∈ r.handles := by
  have hHeld : r.Held := by
    induction h with
    | begun => exact held_create name options body hasReadiness hasShutdown mode
    | next _ e hAdmits ih =>
      refine ih.occur e fun hStart => hStarts _ ?_
      rwa [hStart] at hAdmits
  exact ⟨hHeld.one, fun _ => hHeld.handle⟩

end Supervision

end Gatehouse.Worker
