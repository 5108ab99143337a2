import Gatehouse.Proofs.Readiness.Reports
import Gatehouse.Proofs.Worker.Courses
import Gatehouse.Proofs.Worker.Looks

/-!
# What the runs of a worker do

A run does two things that others can tell: it invokes its body, and it ends. Only a look at the
run makes it do either. Along any sequence of events these deeds are a history of every run, from
which its stage follows, and so do the calls of the body that are counted and the exits that are
measured.

* `Supervision.Recorded`: what comes of events in any order, with the deeds on the way.
* `History`: the deeds of one run, by its stage.
* `Recorded.faithful`: what the record says of every run, of the calls and of the exits.
-/

namespace Gatehouse.Worker

open Readiness (Signal)

variable {w : Worker} {k : Nat} {r : Run}

/-! ## Looks at a stop -/

/-- A worker as it was made, before any of its runs. -/
def asMade (w : Worker) : Worker :=
  create w.name w.options w.body w.hasReadiness w.hasShutdown

def stage? (w : Worker) (k : Nat) : Option Stage := (w.runs[k]?).map Run.stage

def isCancelled (w : Worker) (k : Nat) : Bool := (w.runs[k]?).any Run.cancelled

/-- What a stop may do to a worker: it changes no stage, and takes no cancellation back. -/
structure Handled (w w' : Worker) : Prop where
  asMade : w'.asMade = w.asMade
  calls : w'.calls = w.calls
  stages : ∀ k, w'.stage? k = w.stage? k
  cancelled : ∀ k, w.isCancelled k = true → w'.isCancelled k = true

namespace Handled

variable {w' w'' : Worker}

theorem refl (w : Worker) : Handled w w := ⟨rfl, rfl, fun _ => rfl, fun _ h => h⟩

theorem trans (h : Handled w w') (h' : Handled w' w'') : Handled w w'' :=
  ⟨h'.asMade.trans h.asMade, h'.calls.trans h.calls, fun k => (h'.stages k).trans (h.stages k),
    fun k hCancelled => h'.cancelled k (h.cancelled k hCancelled)⟩

end Handled

theorem handled_cancel (w : Worker) (run : Nat) :
    Handled w (w.setRun run fun r => { r with cancelled := true }) := by
  refine ⟨rfl, rfl, ?_, ?_⟩
  · intro k
    simp only [stage?, setRun, List.getElem?_modify]
    cases w.runs[k]? with
    | none => rfl
    | some r => split <;> rfl
  · intro k hCancelled
    simp only [isCancelled, setRun, List.getElem?_modify] at hCancelled ⊢
    cases hRun : w.runs[k]? with
    | none =>
      rw [hRun] at hCancelled
      cases hCancelled
    | some r =>
      rw [hRun] at hCancelled
      split
      · rfl
      · exact hCancelled

theorem handled_beginStop (w : Worker) : Handled w w.beginStop.2 := by
  unfold beginStop
  split
  · exact .refl w
  · next run _ =>
    have hCancel := handled_cancel w run
    dsimp only
    split <;> exact ⟨hCancel.asMade, hCancel.calls, hCancel.stages, hCancel.cancelled⟩

theorem handled_giveUp (w : Worker) (run : Nat) (cause : Cause) :
    Handled w (w.giveUp run cause).1 := ⟨rfl, rfl, fun _ => rfl, fun _ h => h⟩

namespace Supervision

variable {look : Worker → Option Cause → Stop → Stop × Worker × Journal} {cause : Option Cause}
  {s : Stop}

theorem handled_take (w : Worker) (s : Stop) : Handled w (take w s).2 := by
  cases hStage : s.stage with
  | asked =>
    have hBegin := handled_beginStop w
    simp only [take, hStage]
    split
    · next w' hEq => rwa [hEq] at hBegin
    · next run w' hEq => rwa [hEq] at hBegin
  | waiting run =>
    rw [take_of_waiting hStage]
    exact .refl w
  | ended result =>
    rw [take_of_ended hStage]
    exact .refl w

theorem Outcome.handled {seen : Stop × Worker × Journal} (h : Outcome w cause s k seen) :
    Handled w seen.2.1 := by
  cases h with
  | waits hRun => exact .refl w
  | sees hRun => exact .refl w
  | givesUp hCause => exact handled_giveUp w k _

theorem Outcome.quiet {seen : Stop × Worker × Journal} (h : Outcome w cause s k seen) :
    seen.2.2.measurements = [] := by
  cases h <;> rfl

/-- However a new stop is looked at, it first takes the run that the worker has. -/
theorem Look.asked (hLook : Look look) (w : Worker) (cause : Option Cause)
    (hAsked : s.stage = .asked) :
    look w cause s = (s, w, []) ∨ look w cause s = look (take w s).2 cause (take w s).1 := by
  cases hLook with
  | visit => exact .inr (visitStop_take w cause s)
  | forsake =>
    refine .inl ?_
    unfold Supervision.forsake
    rw [hAsked]
  | scopeFirst => exact .inr (visitScopeFirst_take w cause s)

/-- No look at a stop changes the stage of a run, and none measures anything. -/
theorem Look.handled (hLook : Look look) (w : Worker) (cause : Option Cause) (s : Stop) :
    Handled w (look w cause s).2.1 ∧ (look w cause s).2.2.measurements = [] := by
  have hWaiting : ∀ {w : Worker} {s : Stop} {k : Nat}, s.stage = .waiting k →
      Handled w (look w cause s).2.1 ∧ (look w cause s).2.2.measurements = [] := by
    intro w s k hStage
    rcases hLook.outcome w cause hStage with hSame | hOutcome
    · rw [hSame]
      exact ⟨.refl w, rfl⟩
    · exact ⟨hOutcome.handled, hOutcome.quiet⟩
  cases hStage : s.stage with
  | asked =>
    rcases hLook.asked w cause hStage with hSame | hTakes
    · rw [hSame]
      exact ⟨.refl w, rfl⟩
    · rw [hTakes]
      have hTake := handled_take w s
      cases hCurrent : w.current with
      | none =>
        rw [take_of_current_none hStage hCurrent]
        rw [hLook.of_ended w cause rfl]
        exact ⟨.refl w, rfl⟩
      | some run =>
        obtain ⟨w', hTaken, -⟩ := take_of_current hStage hCurrent
        rw [hTaken] at hTake ⊢
        have hLooked := hWaiting (w := w') (s := { s with stage := .waiting run }) rfl
        exact ⟨hTake.trans hLooked.1, hLooked.2⟩
  | waiting run => exact hWaiting hStage
  | ended result =>
    rw [hLook.of_ended w cause hStage]
    exact ⟨.refl w, rfl⟩

end Supervision

/-! ## Deeds -/

/-- What a run does that others can tell. -/
inductive Deed where
  | begins (run : Nat)
  | ends (run : Nat) (e : Ending)
  deriving DecidableEq, Repr

namespace Deed

def run : Deed → Nat
  | .begins run => run
  | .ends run _ => run

def isBegin : Deed → Bool
  | .begins _ => true
  | .ends _ _ => false

def measurements (w : Worker) : Deed → List Measurement
  | .begins _ => []
  | .ends _ e => e.measurements w

end Deed

/-- What a look at the run `k` makes it do. -/
def Run.deeds (r : Run) (k : Nat) (next : Plan) (fired : Signal → Bool) (now : Nat) : List Deed :=
  (if r.invokes fired then [.begins k] else []) ++
    (r.ending? next fired now).toList.map (.ends k)

/-- The deeds of the run `k`, by its stage: its body is invoked at most once, and it ends at most
once. Only a run that was held back ends without an invocation. -/
inductive History (k : Nat) : Option Stage → List Deed → Prop where
  | unmade : History k none []
  | awaiting (signals : List Signal) : History k (some (.awaiting signals)) []
  | body (plan : Plan) (endsAt : Option Nat) : History k (some (.body plan endsAt)) [.begins k]
  | heldBack : History k (some .ended) [.ends k .heldBack]
  | ended {e : Ending} (hBegan : e ≠ .heldBack) : History k (some .ended) [.begins k, .ends k e]

/-- A look continues the history of its run. -/
theorem History.look {log : List Deed} (h : History k (some r.stage) log) (next : Plan)
    (fired : Signal → Bool) (now : Nat) :
    History k (some (r.after next fired now).stage) (log ++ r.deeds k next fired now) := by
  cases hEnding : r.ending? next fired now with
  | none =>
    rw [Run.after_of_none hEnding, Run.deeds, hEnding]
    cases hStage : r.stage with
    | awaiting signals =>
      rw [hStage] at h
      cases h
      simp only [Run.goesOn, Run.invokes, hStage]
      split
      · exact .body _ _
      · exact .awaiting _
    | body plan endsAt =>
      simp only [Run.goesOn, Run.invokes, hStage]
      rw [hStage] at h
      simpa using h
    | ended =>
      simp only [Run.goesOn, Run.invokes, hStage]
      rw [hStage] at h
      simpa using h
  | some e =>
    rw [Run.after_of_some hEnding, Run.deeds, hEnding]
    cases hStage : r.stage with
    | awaiting signals =>
      rw [hStage] at h
      cases h
      simp only [Run.invokes, hStage]
      simp only [Run.ending?, hStage] at hEnding
      split
      · next hAll =>
        rw [if_pos hAll] at hEnding
        refine .ended ?_
        rintro rfl
        split at hEnding
        · cases hEnding
        · obtain ⟨result, -, hBody⟩ := Option.map_eq_some_iff.mp hEnding
          cases hBody
      · next hNot =>
        rw [if_neg hNot] at hEnding
        split at hEnding
        · obtain rfl := Option.some.inj hEnding
          exact .heldBack
        · cases hEnding
    | body plan endsAt =>
      rw [hStage] at h
      cases h
      simp only [Run.invokes, hStage]
      simp only [Run.ending?, hStage] at hEnding
      obtain ⟨result, -, rfl⟩ := Option.map_eq_some_iff.mp hEnding
      refine .ended ?_
      intro hHeld
      cases hHeld
    | ended =>
      simp only [Run.ending?, hStage] at hEnding
      cases hEnding

namespace Supervision

/-- What an event makes a run do. -/
def deeds (r : Supervision) : Event → List Deed
  | .move (.poll k) =>
    match r.worker.runs[k]? with
    | some run => run.deeds k r.worker.nextPlan r.coordinator.fired r.now
    | none => []
  | _ => []

/-- What supervision can come to by certain events in any order, with all deeds on the way. -/
inductive Recorded (allowed : Event → Prop) (begun : Supervision) :
    Supervision → List Deed → Prop where
  | begun : Recorded allowed begun begun []
  | next {r : Supervision} {log : List Deed} (h : Recorded allowed begun r log) (e : Event)
      (hAllowed : allowed e) : Recorded allowed begun (r.occur e) (log ++ r.deeds e)

/-- What every event but a look at a run leaves. -/
structure Aside (r r' : Supervision) : Prop where
  asMade : r'.worker.asMade = r.worker.asMade
  calls : r'.worker.calls = r.worker.calls
  stages : ∀ k, r'.worker.stage? k = r.worker.stage? k ∨
    r.worker.stage? k = none ∧ r'.worker.stage? k = some (.awaiting r.worker.awaited)
  cancelled : ∀ k, r.worker.isCancelled k = true → r'.worker.isCancelled k = true
  measurements : r'.journal.measurements = r.journal.measurements

namespace Aside

variable {r r' : Supervision}

theorem refl (r : Supervision) : Aside r r :=
  ⟨rfl, rfl, fun _ => .inl rfl, fun _ h => h, rfl⟩

theorem of_handled (h : Handled r.worker r'.worker) {journal : Journal}
    (hJournal : r'.journal = r.journal ++ journal) (hQuiet : journal.measurements = []) :
    Aside r r' := by
  refine ⟨h.asMade, h.calls, fun k => .inl (h.stages k), h.cancelled, ?_⟩
  rw [hJournal, Journal.measurements_append, hQuiet, List.append_nil]

theorem start (r : Supervision) : Aside r (r.move .start) := by
  have hSame : ∀ e, r.worker.start = (.error e, r.worker, []) → Aside r (r.move .start) := by
    intro e hStart
    simp only [Supervision.move, hStart, List.append_nil]
    exact .refl r
  by_cases hAble : r.worker.checkCollaborators = .ok ()
  · cases hBusy : r.worker.isBusy with
    | true => exact hSame _ (start_of_busy hAble hBusy)
    | false =>
      simp only [Supervision.move, start_of_not_busy hAble hBusy]
      refine ⟨rfl, rfl, ?_, ?_, ?_⟩
      · intro k
        simp only [stage?]
        by_cases hk : k < r.worker.runs.length
        · rw [List.getElem?_append_left hk]
          exact .inl rfl
        · have hNone : r.worker.runs[k]? = none := List.getElem?_eq_none (by omega)
          rw [List.getElem?_append_right (by omega), hNone]
          cases hIndex : k - r.worker.runs.length with
          | zero => exact .inr ⟨rfl, rfl⟩
          | succ i => exact .inl rfl
      · intro k hCancelled
        simp only [isCancelled] at hCancelled ⊢
        cases hRun : r.worker.runs[k]? with
        | none =>
          rw [hRun] at hCancelled
          cases hCancelled
        | some run =>
          rw [List.getElem?_append_left (List.getElem?_eq_some_iff.mp hRun).1]
          exact hCancelled
      · rw [Journal.measurements_append]
        exact List.append_nil _
  · unfold Worker.start at hSame
    cases hUnable : r.worker.checkCollaborators with
    | ok => exact absurd hUnable hAble
    | error e =>
      rw [hUnable] at hSame
      exact hSame e rfl

theorem onStop {look : Worker → Option Cause → Stop → Stop × Worker × Journal} (hLook : Look look)
    (r : Supervision) (index : Nat) : Aside r (r.onStop index look) := by
  cases hStop : r.stops[index]? with
  | none =>
    rw [onStop_of_none hStop]
    exact .refl r
  | some s =>
    rw [onStop_of_some hStop]
    obtain ⟨hHandled, hQuiet⟩ := hLook.handled r.worker (r.cause? s) s
    exact .of_handled hHandled rfl hQuiet

/-- An event is a look at a run, or it changes no stage and no count. -/
theorem occur (r : Supervision) {e : Event} (hNot : ∀ k, e ≠ .move (.poll k)) :
    Aside r (r.occur e) := by
  cases e with
  | scopeFirst index => exact onStop .scopeFirst r index
  | move m =>
    cases m with
    | start => exact start r
    | visit index => exact onStop .visit r index
    | forsake index => exact onStop .forsake r index
    | poll k => exact absurd rfl (hNot k)
    | request code => exact .of_handled (.refl r.worker) rfl (measurements_request r.shutdown code)
    | readiness command moment =>
      exact .of_handled (.refl r.worker) rfl
        (Readiness.measurements_perform r.coordinator moment command)
    | stop _ _ | scope _ | clock _ => exact ⟨rfl, rfl, fun _ => .inl rfl, fun _ h => h, rfl⟩

end Aside

/-! ## The record -/

variable {r : Supervision} {run : Run}

theorem deeds_of_not_poll (r : Supervision) {e : Event} (hNot : ∀ k, e ≠ .move (.poll k)) :
    r.deeds e = [] := by
  cases e with
  | scopeFirst index => rfl
  | move m =>
    cases m with
    | poll k => exact absurd rfl (hNot k)
    | start | visit _ | forsake _ | request _ | readiness _ _ | stop _ _ | scope _ | clock _ => rfl

/-- There is nothing to look at where no run was made. -/
theorem occur_poll_of_none (hNone : r.worker.runs[k]? = none) :
    r.occur (.move (.poll k)) = r ∧ r.deeds (.move (.poll k)) = [] := by
  refine ⟨?_, ?_⟩
  · simp only [occur, move, pollRun, poll, hNone, List.append_nil]
  · simp only [deeds, hNone]

theorem deeds_poll (hRun : r.worker.runs[k]? = some run) :
    r.deeds (.move (.poll k)) = run.deeds k r.worker.nextPlan r.coordinator.fired r.now := by
  simp only [deeds, hRun]

/-- Only a look at a run ends it. -/
theorem mem_deeds_ends (h : .ends k ending ∈ r.deeds e) :
    e = .move (.poll k) ∧ ∃ run, r.worker.runs[k]? = some run ∧
      run.ending? r.worker.nextPlan r.coordinator.fired r.now = some ending := by
  by_cases hPoll : ∃ j, e = .move (.poll j)
  · obtain ⟨j, rfl⟩ := hPoll
    cases hRun : r.worker.runs[j]? with
    | none =>
      rw [(occur_poll_of_none hRun).2] at h
      cases h
    | some run =>
      rw [deeds_poll hRun, Run.deeds] at h
      rcases List.mem_append.mp h with hBegins | hEnds
      · split at hBegins <;> simp at hBegins
      · obtain ⟨e, hMem, hEq⟩ := List.mem_map.mp hEnds
        obtain ⟨rfl, rfl⟩ : j = k ∧ e = ending := by
          injection hEq with hSame hEnding
          exact ⟨hSame, hEnding⟩
        exact ⟨rfl, run, hRun, Option.mem_toList.mp hMem⟩
  · rw [deeds_of_not_poll r fun j hEq => hPoll ⟨j, hEq⟩] at h
    cases h

theorem stage?_poll (hRun : r.worker.runs[k]? = some run) (j : Nat) :
    (r.occur (.move (.poll k))).worker.stage? j =
      if j = k then some (run.after r.worker.nextPlan r.coordinator.fired r.now).stage
      else r.worker.stage? j := by
  have hLooked := looked_poll hRun r.coordinator.fired r.now r.shutdown
  have hLess : k < r.worker.runs.length := (List.getElem?_eq_some_iff.mp hRun).1
  simp only [occur, move, pollRun]
  rw [stage?, hLooked.worker]
  dsimp only
  split
  · next hSame => rw [hSame, List.getElem?_set_self hLess, Option.map_some]
  · next hOther => rw [List.getElem?_set_ne (Ne.symm hOther), stage?]

theorem isCancelled_poll (hRun : r.worker.runs[k]? = some run) (j : Nat) :
    (r.occur (.move (.poll k))).worker.isCancelled j = r.worker.isCancelled j := by
  have hLooked := looked_poll hRun r.coordinator.fired r.now r.shutdown
  have hLess : k < r.worker.runs.length := (List.getElem?_eq_some_iff.mp hRun).1
  have hFlag : (run.after r.worker.nextPlan r.coordinator.fired r.now).cancelled =
      run.cancelled := by
    unfold Run.after
    split <;> rfl
  simp only [occur, move, pollRun]
  rw [isCancelled, hLooked.worker, isCancelled]
  dsimp only
  by_cases hSame : j = k
  · rw [hSame, List.getElem?_set_self hLess, hRun, Option.any_some, Option.any_some, hFlag]
  · rw [List.getElem?_set_ne (Ne.symm hSame)]

/-- No event takes a cancellation back. -/
theorem isCancelled_occur (r : Supervision) (e : Event) (h : r.worker.isCancelled k = true) :
    (r.occur e).worker.isCancelled k = true := by
  by_cases hPoll : ∃ j, e = .move (.poll j)
  · obtain ⟨j, rfl⟩ := hPoll
    cases hRun : r.worker.runs[j]? with
    | none =>
      rw [(occur_poll_of_none hRun).1]
      exact h
    | some run =>
      rw [isCancelled_poll hRun]
      exact h
  · exact (Aside.occur r fun j hEq => hPoll ⟨j, hEq⟩).cancelled k h

/-- No event changes what the worker was made with. -/
theorem asMade_occur (r : Supervision) (e : Event) :
    (r.occur e).worker.asMade = r.worker.asMade := by
  by_cases hPoll : ∃ k, e = .move (.poll k)
  · obtain ⟨k, rfl⟩ := hPoll
    cases hRun : r.worker.runs[k]? with
    | none => rw [(occur_poll_of_none hRun).1]
    | some run =>
      have hLooked := looked_poll hRun r.coordinator.fired r.now r.shutdown
      simp only [occur, move, pollRun]
      rw [hLooked.worker]
      rfl
  · exact (Aside.occur r fun k hEq => hPoll ⟨k, hEq⟩).asMade

/-- What a record says of every run, of the calls of the body and of the exits. -/
structure Faithful (r : Supervision) (log : List Deed) : Prop where
  history : ∀ k, History k (r.worker.stage? k) (log.filter (·.run = k))
  calls : r.worker.calls = log.countP Deed.isBegin
  measurements : r.journal.measurements = log.flatMap (·.measurements r.worker)

theorem filter_deeds (run : Run) (k j : Nat) (next : Plan) (fired : Signal → Bool) (now : Nat) :
    (run.deeds k next fired now).filter (·.run = j) =
      if j = k then run.deeds k next fired now else [] := by
  have hOwn : ∀ d ∈ run.deeds k next fired now, d.run = k := by
    intro d hd
    rcases List.mem_append.mp hd with hBegins | hEnds
    · split at hBegins
      · obtain rfl := List.mem_singleton.mp hBegins
        rfl
      · cases hBegins
    · obtain ⟨e, -, rfl⟩ := List.mem_map.mp hEnds
      rfl
  split
  · next hSame =>
    apply List.filter_eq_self.mpr
    intro d hd
    rw [hOwn d hd, hSame]
    exact decide_eq_true rfl
  · next hOther =>
    apply List.filter_eq_nil_iff.mpr
    intro d hd hMine
    rw [hOwn d hd] at hMine
    exact hOther (of_decide_eq_true hMine).symm

theorem countP_deeds (run : Run) (k : Nat) (next : Plan) (fired : Signal → Bool) (now : Nat) :
    (run.deeds k next fired now).countP Deed.isBegin = (run.invokes fired).toNat := by
  rw [Run.deeds, List.countP_append]
  have hEnds : ((run.ending? next fired now).toList.map (Deed.ends k)).countP Deed.isBegin = 0 := by
    apply List.countP_eq_zero.mpr
    intro d hd
    obtain ⟨e, -, rfl⟩ := List.mem_map.mp hd
    exact Bool.false_ne_true
  rw [hEnds]
  cases run.invokes fired <;> rfl

theorem flatMap_deeds (w : Worker) (run : Run) (k : Nat) (next : Plan) (fired : Signal → Bool)
    (now : Nat) :
    (run.deeds k next fired now).flatMap (·.measurements w) =
      (run.ending? next fired now).toList.flatMap (·.measurements w) := by
  rw [Run.deeds, List.flatMap_append, List.flatMap_map]
  cases run.invokes fired <;> rfl

/-- What is measured depends only on what the worker was made with. -/
theorem measurements_congr {w w' : Worker} (h : w'.asMade = w.asMade) :
    Deed.measurements w' = Deed.measurements w := by
  have hName : w'.asMade.name = w.asMade.name := congrArg Worker.name h
  have hOptions : w'.asMade.options = w.asMade.options := congrArg Worker.options h
  change w'.name = w.name at hName
  change w'.options = w.options at hOptions
  funext d
  cases d with
  | begins k => rfl
  | ends k e => simp only [Deed.measurements, Ending.measurements, hName, hOptions]

namespace Faithful

variable {log : List Deed}

theorem begun (name : String) (options : Options) (body : Plans)
    (hasReadiness hasShutdown : Bool) (mode : Config.TrafficMode) :
    Faithful (.create (Worker.create name options body hasReadiness hasShutdown) mode) [] :=
  ⟨fun _ => .unmade, rfl, rfl⟩

theorem aside (h : Faithful r log) {e : Event} (hNot : ∀ k, e ≠ .move (.poll k)) :
    Faithful (r.occur e) (log ++ r.deeds e) := by
  have hAside := Aside.occur r hNot
  rw [deeds_of_not_poll r hNot, List.append_nil]
  refine ⟨?_, hAside.calls.trans h.calls, ?_⟩
  · intro k
    have hHistory := h.history k
    rcases hAside.stages k with hSame | ⟨hNone, hNew⟩
    · rw [hSame]
      exact hHistory
    · rw [hNone] at hHistory
      rw [hNew]
      generalize log.filter (·.run = k) = mine at hHistory
      cases hHistory
      exact .awaiting _
  · rw [hAside.measurements, h.measurements, measurements_congr hAside.asMade]

theorem poll (h : Faithful r log) (k : Nat) :
    Faithful (r.occur (.move (.poll k))) (log ++ r.deeds (.move (.poll k))) := by
  cases hRun : r.worker.runs[k]? with
  | none =>
    obtain ⟨hSame, hNone⟩ := occur_poll_of_none hRun
    rw [hSame, hNone, List.append_nil]
    exact h
  | some run =>
    have hLooked := looked_poll hRun r.coordinator.fired r.now r.shutdown
    have hMade := asMade_occur r (.move (.poll k))
    rw [deeds_poll hRun]
    refine ⟨?_, ?_, ?_⟩
    · intro j
      have hHistory := h.history j
      rw [stage?_poll hRun, List.filter_append, filter_deeds]
      by_cases hSame : j = k
      · subst hSame
        rw [stage?, hRun, Option.map_some] at hHistory
        rw [if_pos rfl, if_pos rfl]
        exact hHistory.look _ _ _
      · rw [if_neg hSame, if_neg hSame, List.append_nil]
        exact hHistory
    · rw [List.countP_append, countP_deeds, ← h.calls]
      simp only [occur, move, pollRun]
      rw [hLooked.worker]
    · rw [List.flatMap_append, measurements_congr hMade, flatMap_deeds, ← h.measurements]
      simp only [occur, move, pollRun]
      rw [Journal.measurements_append, hLooked.measurements]

end Faithful

namespace Recorded

variable {allowed : Event → Prop} {begun : Supervision} {log : List Deed}

theorem asMade (h : Recorded allowed begun r log) : r.worker.asMade = begun.worker.asMade := by
  induction h with
  | begun => rfl
  | next h e hAllowed ih => rw [asMade_occur, ih]

theorem trans {q : Supervision} {more : List Deed} (h : Recorded allowed begun r log)
    (h' : Recorded allowed r q more) : Recorded allowed begun q (log ++ more) := by
  induction h' with
  | begun => rwa [List.append_nil]
  | next h' e hAllowed ih =>
    rw [← List.append_assoc]
    exact ih.next e hAllowed

theorem mono {allowed' : Event → Prop} (h : Recorded allowed begun r log)
    (hMore : ∀ e, allowed e → allowed' e) : Recorded allowed' begun r log := by
  induction h with
  | begun => exact .begun
  | next h e hAllowed ih => exact ih.next e (hMore e hAllowed)

theorem faithful {name : String} {options : Options} {body : Plans}
    {hasReadiness hasShutdown : Bool} {mode : Config.TrafficMode}
    (h : Recorded allowed
      (.create (Worker.create name options body hasReadiness hasShutdown) mode) r log) :
    Faithful r log := by
  induction h with
  | begun => exact .begun name options body hasReadiness hasShutdown mode
  | @next r log h e hAllowed ih =>
    by_cases hPoll : ∃ k, e = .move (.poll k)
    · obtain ⟨k, rfl⟩ := hPoll
      exact ih.poll k
    · exact ih.aside fun k hEq => hPoll ⟨k, hEq⟩

end Recorded

end Supervision

end Gatehouse.Worker
