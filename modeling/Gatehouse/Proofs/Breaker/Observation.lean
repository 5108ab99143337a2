import Gatehouse.Proofs.Breaker.History
import Gatehouse.Proofs.Breaker.Reuse
import Mathlib.Data.List.Induction

/-!
# Looking at a breaker

To ask a machine for its state can move it: an open machine whose interval is over becomes half-open
when it is looked at. A machine that somebody looks at is then ahead of one that nobody looks at,
until an operation tells the other one the time. Without counting windows this cannot be noticed. An
open machine has no trial under way and nothing counted that it could lose, nobody has an admission
of the generation that begins, and becoming half-open sets no timer.

* `Observed`: the operations of a run, and the looks that somebody else has in between.
* `Machine.Abreast`: how a machine that is looked at stands to one that is not.
* `Abreast.handle`: the step lemma; `abreast_run`: the run lemma.
* `observing_changes_nothing`: what a run answers, counts and changes, whoever looks at it.
-/

namespace Gatehouse.Breaker

/-- The instant that an operation is told. -/
def Handling.instant? : Handling → Option Nat
  | .acquire now => some now
  | .record _ _ now => some now
  | .look now => some now
  | .abandon _ => none
  | .takeTransitions => none

/-- What happens to a machine that others look at: an operation of the run itself, or a look. -/
inductive Observed where
  | own (handling : Handling)
  | look (now : Nat)

namespace Observed

def handling : Observed → Handling
  | .own handling => handling
  | .look now => .look now

def own? : Observed → Option Handling
  | .own handling => some handling
  | .look _ => none

/-- All that happens. -/
def whole (steps : List Observed) : List Handling := steps.map handling

/-- The run without those who look at it. -/
def alone (steps : List Observed) : List Handling := steps.filterMap own?

def instants (steps : List Observed) : List Nat := (whole steps).filterMap Handling.instant?

/-- The instants that are told do not go backwards. -/
def Ordered (steps : List Observed) : Prop := (instants steps).Pairwise (· ≤ ·)

instance (steps : List Observed) : Decidable (Ordered steps) :=
  inferInstanceAs (Decidable (List.Pairwise _ _))

variable (steps : List Observed) (handling : Handling) (now : Nat)

theorem whole_concat (step : Observed) : whole (steps ++ [step]) = whole steps ++ [step.handling] :=
  List.map_append

theorem alone_concat_own : alone (steps ++ [.own handling]) = alone steps ++ [handling] :=
  List.filterMap_append

theorem alone_concat_look : alone (steps ++ [.look now]) = alone steps := by
  rw [alone, List.filterMap_append]
  exact List.append_nil _

theorem instants_concat (step : Observed) :
    instants (steps ++ [step]) = instants steps ++ step.handling.instant?.toList := by
  rw [instants, whole_concat, List.filterMap_append, instants]
  cases hInstant : step.handling.instant? <;> simp [hInstant]

end Observed

/-! ## What a run shows -/

/-- What an operation is answered. -/
inductive Answer where
  | admission (answer : Except Refusal Admission)
  | state (s : State)
  | nothing

namespace Handled

def answer (x : Handled) : Handling → Answer
  | .acquire now => .admission (x.machine.acquire now).1
  | .look now => .state (x.machine.refresh now).state
  | .record _ _ _ => .nothing
  | .abandon _ => .nothing
  | .takeTransitions => .nothing

/-- What the operations of a run are answered. -/
def answers (x : Handled) : List Handling → List Answer
  | [] => []
  | h :: rest => x.answer h :: (x.perform h).answers rest

/-- What the operations of a run are answered that others look at. -/
def ownAnswers (x : Handled) : List Observed → List Answer
  | [] => []
  | .own h :: rest => x.answer h :: (x.perform h).ownAnswers rest
  | .look now :: rest => (x.perform (.look now)).ownAnswers rest

/-- The changes of state that an operation takes out of the machine. -/
def takes (x : Handled) : Handling → List Transition
  | .takeTransitions => x.machine.takeTransitions.1
  | _ => []

/-- The changes of state that are taken in the course of a run. -/
def taken (x : Handled) : List Handling → List Transition
  | [] => []
  | h :: rest => x.takes h ++ (x.perform h).taken rest

/-- All changes of state in the course of a run, whether somebody has taken them or not. -/
def changes (x : Handled) (handlings : List Handling) : List Transition :=
  x.taken handlings ++ (x.run handlings).machine.transitions

/-- Whether an operation tells the machine the time. A verdict needs an admission that was given. -/
def Refreshes (x : Handled) : Handling → Prop
  | .acquire _ => True
  | .look _ => True
  | .record admission _ _ => admission < x.given.length
  | .abandon _ => False
  | .takeTransitions => False

/-- The admissions that were given, in their order. -/
def admissions (x : Handled) : List Admission := x.given.map (·.1)

variable (x : Handled) (handlings : List Handling) (h : Handling)

theorem run_concat : x.run (handlings ++ [h]) = (x.run handlings).perform h := by
  simp [run]

theorem answers_concat :
    x.answers (handlings ++ [h]) = x.answers handlings ++ [(x.run handlings).answer h] := by
  induction handlings generalizing x with
  | nil => rfl
  | cons first rest ih => exact congrArg (x.answer first :: ·) (ih (x.perform first))

theorem ownAnswers_concat (steps : List Observed) (step : Observed) :
    x.ownAnswers (steps ++ [step]) =
      x.ownAnswers steps ++ (x.run (Observed.whole steps)).ownAnswers [step] := by
  induction steps generalizing x with
  | nil => rfl
  | cons first rest ih =>
    cases first with
    | own first => exact congrArg (x.answer first :: ·) (ih (x.perform first))
    | look now => exact ih (x.perform (.look now))

theorem taken_concat :
    x.taken (handlings ++ [h]) = x.taken handlings ++ (x.run handlings).takes h := by
  induction handlings generalizing x with
  | nil => simp [taken, run]
  | cons first rest ih =>
    rw [List.cons_append, taken, ih, taken, List.append_assoc]
    rfl

end Handled

namespace Machine

/-- What an operation does to a machine out of which nothing is taken. -/
def handle (m : Machine) (admissions : List Admission) : Handling → Machine
  | .acquire now => (m.acquire now).2
  | .record admission v now =>
    match admissions[admission]? with
    | some a => m.record a v now
    | none => m
  | .abandon admission =>
    match admissions[admission]? with
    | some a => m.abandon a
    | none => m
  | .look now => m.refresh now
  | .takeTransitions => m

end Machine

namespace Handled

/-- The machine of a run as it would be had nobody taken a change of state out of it. -/
def undrained (x : Handled) (handlings : List Handling) : Machine :=
  (x.run handlings).machine.noting (x.taken handlings)

/-- It has all changes of state of the run. -/
theorem transitions_undrained (x : Handled) (handlings : List Handling) :
    (x.undrained handlings).transitions = x.changes handlings := rfl

/-- It has counted the same. -/
theorem counts_undrained (x : Handled) (handlings : List Handling) :
    (x.undrained handlings).counts = (x.run handlings).machine.counts := rfl

theorem undrained_concat (x : Handled) (handlings : List Handling) (h : Handling) :
    x.undrained (handlings ++ [h]) =
      (x.undrained handlings).handle (x.run handlings).admissions h := by
  rw [undrained, run_concat, taken_concat, undrained]
  generalize x.taken handlings = ts
  generalize x.run handlings = y
  cases h with
  | acquire now =>
    simp only [Machine.handle, Machine.acquire_noting, takes, List.append_nil, perform]
    cases y.machine.acquire now with
    | mk answer m => cases answer <;> rfl
  | record admission v now =>
    simp only [Machine.handle, Machine.record_noting, takes, List.append_nil, perform, admissions,
      List.getElem?_map]
    cases y.given[admission]? <;> rfl
  | abandon admission =>
    simp only [Machine.handle, Machine.abandon_noting, takes, List.append_nil, perform, admissions,
      List.getElem?_map]
    cases y.given[admission]? <;> rfl
  | look now => simp only [Machine.handle, Machine.refresh_noting, takes, List.append_nil]; rfl
  | takeTransitions =>
    simp only [Machine.handle, takes, perform, become, Machine.takeTransitions, Machine.noting,
      List.append_nil]

/-- What was taken out of the machine does not decide what an operation is answered. -/
theorem answer_run (x : Handled) (handlings : List Handling) (h : Handling) :
    (x.run handlings).answer h = match h with
      | .acquire now => .admission ((x.undrained handlings).acquire now).1
      | .look now => .state ((x.undrained handlings).refresh now).state
      | _ => .nothing := by
  cases h with
  | acquire now => simp only [answer, undrained, Machine.acquire_noting]
  | look now =>
    simp only [answer, undrained, Machine.refresh_noting]
    rfl
  | record _ _ _ | abandon _ | takeTransitions => rfl

end Handled

/-! ## Machines without a window -/

namespace Machine

/-- A machine that time alone moves only at the end of its open interval, and that has no trial
under way before. -/
structure Windowless (m : Machine) : Prop where
  window : m.settings.window = none
  closed : m.state = .closed → m.expiry = none
  opened : m.state = .opened → m.trialsInFlight = 0

variable {m m' : Machine} {now t : Nat}

namespace Windowless

theorem create {settings : Settings} (hWindow : settings.window = none) (begun : Nat) :
    (Machine.create settings begun).Windowless where
  window := hWindow
  closed _ := by
    rw [create_eq]
    simp only [expiryOf, hWindow, Option.map_none]
  opened hNot := by cases hNot

theorem turn (h : m.Windowless) (hTurn : Turn now m m') : m'.Windowless := by
  cases hTurn with
  | kept c eq =>
    rw [eq]
    exact ⟨h.window, h.closed, h.opened⟩
  | window closed eq =>
    rw [eq, newGeneration_eq]
    refine ⟨h.window, fun _ => ?_, fun _ => rfl⟩
    simp only [closed, expiryOf, h.window, Option.map_none]
  | change next ne eq =>
    rw [eq, setState_of_ne ne]
    refine ⟨h.window, fun hNext => ?_, fun _ => rfl⟩
    obtain rfl : next = .closed := hNext
    simp only [expiryOf, h.window, Option.map_none]

theorem refresh (h : m.Windowless) (now : Nat) : (m.refresh now).Windowless :=
  h.turn (turn_refresh m now)

theorem abandon (h : m.Windowless) (a : Admission) : (m.abandon a).Windowless := by
  by_cases hGeneration : a.generation = m.generation
  · rw [abandon_of_eq hGeneration]
    refine ⟨h.window, h.closed, fun hOpened => ?_⟩
    simp only [h.opened hOpened, Nat.zero_sub]
  · rw [abandon_of_ne hGeneration]
    exact h

theorem record (h : m.Windowless) (a : Admission) (v : Verdict) (now : Nat) :
    (m.record a v now).Windowless := by
  have hAbandon := (h.refresh now).abandon a
  rw [record_eq]
  split
  · exact hAbandon.turn (turn_count _ v now)
  · exact hAbandon

theorem acquire (h : m.Windowless) (now : Nat) : (m.acquire now).2.Windowless := by
  have hRefresh := h.refresh now
  rcases acquire_cases m now with ⟨-, hEq⟩ | ⟨-, hEq⟩ | ⟨hNotOpened, -, hEq⟩
  · rw [hEq]
    exact hRefresh
  · rw [hEq]
    exact hRefresh
  · rw [hEq]
    exact ⟨hRefresh.window, hRefresh.closed, fun hOpened => absurd hOpened hNotOpened⟩

theorem handle (h : m.Windowless) (admissions : List Admission) (handling : Handling) :
    (m.handle admissions handling).Windowless := by
  cases handling with
  | acquire now => exact h.acquire now
  | record admission v now =>
    simp only [Machine.handle]
    split
    · exact h.record _ v now
    · exact h
  | abandon admission =>
    simp only [Machine.handle]
    split
    · exact h.abandon _
    · exact h
  | look now => exact h.refresh now
  | takeTransitions => exact h

/-- A closed machine has no window to end, and a half-open one no timer. -/
theorem refresh_of_ne (h : m.Windowless) (hNotOpened : m.state ≠ .opened) (now : Nat) :
    m.refresh now = m := by
  cases hState : m.state with
  | opened => exact absurd hState hNotOpened
  | halfOpen => exact refresh_of_halfOpen hState
  | closed =>
    refine refresh_of_not_expired ?_
    rw [expired, h.closed hState]

end Windowless

/-! ## A machine that is ahead -/

/-- A machine that was looked at, beside one that was not: if it is ahead, then by one look, after
which the interval of the other one was over. -/
inductive Abreast (instants : List Nat) (m : Machine) : Machine → Prop where
  | even : Abreast instants m m
  | ahead {seen : Nat} (hMem : seen ∈ instants) (hOpened : m.state = .opened)
      (hExpired : m.expired seen = true) : Abreast instants m (m.refresh seen)

/-- When an open interval is over, it does not matter when that is noticed. -/
theorem refresh_of_expired (hOpened : m.state = .opened) (hExpired : m.expired now = true) :
    m.refresh now = ⟨m.settings, .halfOpen, m.generation + 1, .zero, none, 0,
      m.transitions ++ [⟨.opened, .halfOpen⟩]⟩ := by
  have hNe : m.state ≠ .halfOpen := by
    rw [hOpened]
    decide
  rw [refresh_of_opened hOpened hExpired, setState_of_ne hNe, hOpened]
  rfl

namespace Abreast

variable {instants : List Nat}

theorem mono (h : Abreast instants m m') {instants' : List Nat} (hSubset : instants ⊆ instants') :
    Abreast instants' m m' := by
  cases h with
  | even => exact .even
  | ahead hMem hOpened hExpired => exact .ahead (hSubset hMem) hOpened hExpired

/-- As soon as the other machine is told the time, it has caught up. -/
theorem refresh_eq (h : Abreast instants m m') (hLater : ∀ seen ∈ instants, seen ≤ now) :
    m'.refresh now = m.refresh now := by
  cases h with
  | even => rfl
  | ahead hMem hOpened hExpired =>
    have hStill := expired_mono (hLater _ hMem) hExpired
    rw [refresh_of_expired hOpened hExpired, refresh_of_expired hOpened hStill]
    exact refresh_of_halfOpen rfl

theorem acquire_eq (h : Abreast instants m m') (hLater : ∀ seen ∈ instants, seen ≤ now) :
    m'.acquire now = m.acquire now := by
  rw [Machine.acquire, Machine.acquire, h.refresh_eq hLater]

theorem record_eq (h : Abreast instants m m') (hLater : ∀ seen ∈ instants, seen ≤ now)
    (a : Admission) (v : Verdict) : m'.record a v now = m.record a v now := by
  rw [Machine.record, Machine.record, h.refresh_eq hLater]

/-- Neither of the machines has a place to give back while one is ahead. -/
theorem abandon (h : Abreast instants m m') (hWindowless : m.Windowless) (a : Admission) :
    Abreast instants (m.abandon a) (m'.abandon a) := by
  have hNothing : ∀ {m : Machine}, m.trialsInFlight = 0 → m.abandon a = m := by
    intro m hNone
    by_cases hGeneration : a.generation = m.generation
    · rw [abandon_of_eq hGeneration, hNone, Nat.zero_sub, ← hNone]
    · exact abandon_of_ne hGeneration
  cases h with
  | even => exact .even
  | ahead hMem hOpened hExpired =>
    rw [hNothing (hWindowless.opened hOpened), hNothing]
    · exact .ahead hMem hOpened hExpired
    · rw [refresh_of_expired hOpened hExpired]

/-- A look at one of the machines. -/
theorem look (h : Abreast instants m m') (hWindowless : m.Windowless)
    (hLater : ∀ seen ∈ instants, seen ≤ now) :
    Abreast (instants ++ [now]) m (m'.refresh now) := by
  rw [h.refresh_eq hLater]
  by_cases hOpened : m.state = .opened
  · cases hExpired : m.expired now with
    | false =>
      rw [refresh_of_not_expired hExpired]
      exact .even
    | true => exact .ahead (List.mem_append_right _ List.mem_cons_self) hOpened hExpired
  · rw [hWindowless.refresh_of_ne hOpened]
    exact .even

/-- The step lemma: an operation of the run. One that tells the time leaves both machines the
same. -/
theorem handle (h : Abreast instants m m') (hWindowless : m.Windowless)
    (admissions : List Admission) {handling : Handling}
    (hLater : ∀ now ∈ handling.instant?, ∀ seen ∈ instants, seen ≤ now) :
    Abreast instants (m.handle admissions handling) (m'.handle admissions handling) := by
  cases handling with
  | acquire now =>
    rw [Machine.handle, Machine.handle, h.acquire_eq (hLater now rfl)]
    exact .even
  | look now =>
    rw [Machine.handle, Machine.handle, h.refresh_eq (hLater now rfl)]
    exact .even
  | record admission v now =>
    simp only [Machine.handle]
    split
    · rw [h.record_eq (hLater now rfl)]
      exact .even
    · exact h
  | abandon admission =>
    simp only [Machine.handle]
    split
    · exact h.abandon hWindowless _
    · exact h
  | takeTransitions => exact h

theorem transitions (h : Abreast instants m m') :
    m'.transitions = m.transitions ∨
      m.state = .opened ∧ m'.transitions = m.transitions ++ [⟨.opened, .halfOpen⟩] := by
  cases h with
  | even => exact .inl rfl
  | ahead hMem hOpened hExpired =>
    rw [refresh_of_expired hOpened hExpired]
    exact .inr ⟨hOpened, rfl⟩

/-- Where an open machine has counted nothing, it loses nothing. -/
theorem counts (h : Abreast instants m m') (hNothing : m.state = .opened → m.counts = .zero) :
    m'.counts = m.counts := by
  cases h with
  | even => rfl
  | ahead hMem hOpened hExpired =>
    rw [refresh_of_expired hOpened hExpired, hNothing hOpened]

/-- An operation that tells the time leaves both machines the same. -/
theorem handle_eq (h : Abreast instants m m') (x : Handled) {handling : Handling}
    (hLater : ∀ now ∈ handling.instant?, ∀ seen ∈ instants, seen ≤ now)
    (hRefreshes : x.Refreshes handling) :
    m'.handle x.admissions handling = m.handle x.admissions handling := by
  cases handling with
  | acquire now => rw [Machine.handle, Machine.handle, h.acquire_eq (hLater now rfl)]
  | look now => rw [Machine.handle, Machine.handle, h.refresh_eq (hLater now rfl)]
  | record admission v now =>
    have hGiven : x.admissions[admission]? = some x.given[admission].1 := by
      rw [Handled.admissions, List.getElem?_map, List.getElem?_eq_getElem hRefreshes]
      rfl
    simp only [Machine.handle, hGiven, h.record_eq (hLater now rfl)]
  | abandon admission => exact absurd hRefreshes id
  | takeTransitions => exact absurd hRefreshes id

end Abreast

end Machine

/-! ## Runs -/

open Observed

namespace Observed

variable {steps : List Observed} {handling : Handling} {now : Nat}

theorem Ordered.of_append (after : List Observed) (h : Ordered (steps ++ after)) :
    Ordered steps := by
  have hInstants : instants (steps ++ after) = instants steps ++ instants after := by
    simp only [instants, whole, List.map_append, List.filterMap_append]
  rw [Ordered, hInstants] at h
  exact (List.pairwise_append.mp h).1

theorem ordered_concat {step : Observed} :
    Ordered (steps ++ [step]) ↔ Ordered steps ∧
      ∀ now ∈ step.handling.instant?, ∀ seen ∈ instants steps, seen ≤ now := by
  rw [Ordered, instants_concat, List.pairwise_append, Ordered]
  cases step.handling.instant? <;> simp

end Observed

namespace Handled

variable {x : Handled} {steps : List Observed} {handling : Handling} {now : Nat}

/-- The admissions of a run are among what it was answered. -/
theorem admissions_concat (x : Handled) (handlings : List Handling) (h : Handling) :
    (x.run (handlings ++ [h])).admissions = (x.run handlings).admissions ++
      match (x.run handlings).answer h with
      | .admission (.ok a) => [a]
      | _ => [] := by
  rw [run_concat]
  generalize x.run handlings = y
  cases h with
  | acquire now =>
    simp only [perform, answer]
    cases y.machine.acquire now with
    | mk answer m => cases answer <;> simp [give, become, admissions]
  | record admission v now =>
    simp only [perform, answer, List.append_nil]
    split <;> rfl
  | abandon admission =>
    simp only [perform, answer, List.append_nil]
    split <;> rfl
  | look now => exact (List.append_nil _).symm
  | takeTransitions => exact (List.append_nil _).symm

/-- How a run that others look at stands to the same run without them. -/
structure Unaware (x : Handled) (steps : List Observed) : Prop where
  windowless : (x.undrained (alone steps)).Windowless
  abreast : Machine.Abreast (instants steps) (x.undrained (alone steps)) (x.undrained (whole steps))
  admissions : (x.run (whole steps)).admissions = (x.run (alone steps)).admissions
  answers : x.ownAnswers steps = x.answers (alone steps)

namespace Unaware

/-- An operation of the run is answered as it would be without those who look. -/
theorem answer_eq (h : x.Unaware steps)
    (hLater : ∀ now ∈ handling.instant?, ∀ seen ∈ instants steps, seen ≤ now) :
    (x.run (whole steps)).answer handling = (x.run (alone steps)).answer handling := by
  rw [answer_run, answer_run]
  cases handling with
  | acquire now => simp only [h.abreast.acquire_eq (hLater now rfl)]
  | look now => simp only [h.abreast.refresh_eq (hLater now rfl)]
  | record _ _ _ | abandon _ | takeTransitions => rfl

theorem look (h : x.Unaware steps) (hLater : ∀ seen ∈ instants steps, seen ≤ now) :
    x.Unaware (steps ++ [.look now]) := by
  refine ⟨?_, ?_, ?_, ?_⟩
  · rw [alone_concat_look]
    exact h.windowless
  · rw [instants_concat, alone_concat_look, whole_concat, undrained_concat]
    exact h.abreast.look h.windowless hLater
  · rw [alone_concat_look, whole_concat, ← h.admissions, admissions_concat]
    exact List.append_nil _
  · rw [alone_concat_look, ownAnswers_concat, h.answers]
    exact List.append_nil _

theorem own (h : x.Unaware steps)
    (hLater : ∀ now ∈ handling.instant?, ∀ seen ∈ instants steps, seen ≤ now) :
    x.Unaware (steps ++ [.own handling]) := by
  have hAnswer := h.answer_eq hLater
  refine ⟨?_, ?_, ?_, ?_⟩
  · rw [alone_concat_own, undrained_concat]
    exact h.windowless.handle _ handling
  · rw [instants_concat, alone_concat_own, whole_concat, undrained_concat, undrained_concat,
      h.admissions]
    exact (h.abreast.handle h.windowless _ hLater).mono (List.subset_append_left _ _)
  · rw [alone_concat_own, whole_concat, admissions_concat, admissions_concat, h.admissions,
      ← hAnswer]
    rfl
  · rw [alone_concat_own, ownAnswers_concat, answers_concat, h.answers, ← hAnswer]
    rfl

end Unaware

/-- The run lemma. -/
theorem unaware_run {settings : Settings} (hWindow : settings.window = none) (begun : Nat)
    {steps : List Observed} (hOrdered : Observed.Ordered steps) :
    (start settings begun).Unaware steps := by
  induction steps using List.reverseRecOn with
  | nil => exact ⟨.create hWindow begun, .even, rfl, rfl⟩
  | append_singleton steps step ih =>
    obtain ⟨hBefore, hLater⟩ := ordered_concat.mp hOrdered
    cases step with
    | own handling => exact (ih hBefore).own hLater
    | look now => exact (ih hBefore).look (hLater now rfl)

end Handled

open Handled

/-- Without a window, those who look at a machine change nothing for its callers. Every operation of
the run is answered as it would be without them, with the same admissions, and the same is counted,
as long as the numbers of generations have not come around. Only the change that is due may be noted
before a caller would notice it, and with the next operation that tells the time it would have been
noted anyway. -/
theorem observing_changes_nothing {settings : Settings} (hWindow : settings.window = none)
    (begun : Nat) {steps : List Observed} (hOrdered : Observed.Ordered steps) :
    let x := start settings begun
    x.ownAnswers steps = x.answers (alone steps) ∧
    ((x.run (alone steps)).generations < 2 ^ 64 →
      (x.run (whole steps)).machine.counts = (x.run (alone steps)).machine.counts) ∧
    (x.changes (whole steps) = x.changes (alone steps) ∨
      (x.run (alone steps)).machine.state = .opened ∧
        x.changes (whole steps) = x.changes (alone steps) ++ [⟨.opened, .halfOpen⟩]) ∧
    ∀ before handling after, steps = before ++ .own handling :: after →
      (x.run (alone before)).Refreshes handling →
      x.changes (whole (before ++ [.own handling])) =
          x.changes (alone (before ++ [.own handling])) ∧
        (x.run (whole (before ++ [.own handling]))).machine.counts =
          (x.run (alone (before ++ [.own handling]))).machine.counts := by
  intro x
  have hUnaware : x.Unaware steps := unaware_run hWindow begun hOrdered
  refine ⟨hUnaware.answers, fun hFew => ?_, hUnaware.abreast.transitions, ?_⟩
  · have hSound : Sound settings (x.run (alone steps)) :=
      sound_run (sound_start settings begun) _ hFew
    -- The look that is ahead begins a generation, but there is nothing to lose in an open one.
    exact hUnaware.abreast.counts fun hOpened => (hSound.coherent.opened hOpened).1
  · rintro before handling after rfl hRefreshes
    rw [← List.singleton_append, ← List.append_assoc] at hOrdered
    obtain ⟨hBefore, hLater⟩ := ordered_concat.mp (hOrdered.of_append after)
    have hCaught : x.undrained (whole (before ++ [.own handling])) =
        x.undrained (alone (before ++ [.own handling])) := by
      have hSoFar : x.Unaware before := unaware_run hWindow begun hBefore
      rw [whole_concat, alone_concat_own, undrained_concat, undrained_concat, hSoFar.admissions]
      exact hSoFar.abreast.handle_eq _ hLater hRefreshes
    refine ⟨?_, ?_⟩
    · rw [← transitions_undrained, ← transitions_undrained, hCaught]
    · rw [← counts_undrained, ← counts_undrained, hCaught]

/-- A failure opens a machine. Two others notice that its interval is over before the caller does,
who gives the admission back once more, takes the changes, and tries a call that closes it. -/
def noticed : List Observed :=
  [.own (.acquire 0), .own (.record 0 .failure 0), .look 12, .own (.abandon 0), .look 12,
    .own .takeTransitions, .own (.acquire 15), .own (.record 1 .success 16), .look 20]

theorem observing_changes_nothing_noticed :
    let x := start ⟨1, 10, 1, none⟩ 0
    x.ownAnswers noticed = x.answers (alone noticed) ∧
    (x.run (whole noticed)).machine.counts = (x.run (alone noticed)).machine.counts ∧
    x.changes (alone noticed) =
      [⟨.closed, .opened⟩, ⟨.opened, .halfOpen⟩, ⟨.halfOpen, .closed⟩] ∧
    x.changes (whole noticed) = x.changes (alone noticed) ∧
    x.changes (whole (noticed.take 7)) = x.changes (alone (noticed.take 7)) ∧
    x.changes (whole (noticed.take 6)) = x.changes (alone (noticed.take 6)) ++
      [⟨.opened, .halfOpen⟩] := by
  intro x
  have hOrdered : Ordered noticed := by decide
  have hWindow : (⟨1, 10, 1, none⟩ : Settings).window = none := rfl
  obtain ⟨hAnswers, hCounts, -, hRefreshed⟩ := observing_changes_nothing hWindow 0 hOrdered
  exact ⟨hAnswers, hCounts (by decide), by decide, by decide,
    (hRefreshed (noticed.take 6) (.acquire 15) (noticed.drop 7) rfl trivial).1, by decide⟩

end Gatehouse.Breaker
