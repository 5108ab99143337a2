import Gatehouse.Clock
import Gatehouse.Readiness.Coordinator
import Gatehouse.Scope.Directory

/-!
# Waiting for readiness

A coordinator and the tasks that wait for its signals under scopes of their own, in virtual time.

* `Waiters.perform`: a command on the coordinator or a scope, a new waiting task, or time passing.
* `Waiters.settle`: releases every task whose signal has fired or whose scope has ended.
-/

namespace Gatehouse.Readiness

structure Waiter where
  id : String
  signal : Signal
  scope : Option Scope
  ended : Option (Except Error Unit)

def Waiter.release (c : Coordinator) (tokens : Tokens) (now : Nat) (w : Waiter) : Waiter :=
  match w.ended with
  | some _ => w
  | none => { w with ended := c.poll w.signal (w.scope.bind fun s => s.cancelled? tokens now) }

def Waiter.due (w : Waiter) : Option Nat :=
  if w.ended.isSome then none else w.scope.bind (·.deadline)

structure Waiters where
  now : Nat
  directory : Scope.Directory
  coordinator : Coordinator
  waiters : List Waiter
  journal : Journal

namespace Waiters

inductive Step where
  | command (command : Command) (moment : Nat)
  | scope (command : Scope.Command)
  | wait (id : String) (signal : Signal) (scope : Option String)
  | advance (d : Nat)

def start (mode : Config.TrafficMode) : Waiters := ⟨0, .empty, .create mode, [], []⟩

def settle (r : Waiters) : Waiters :=
  { r with waiters := r.waiters.map (Waiter.release r.coordinator r.directory.tokens r.now) }

def due (r : Waiters) : Option Nat := Clock.earliest (r.waiters.map Waiter.due)

def fire (t : Nat) (r : Waiters) : Waiters := settle { r with now := t }

/-- Carries out a step and lets its consequences happen; the answer is that of a command on the
coordinator. -/
def perform (r : Waiters) : Step → Option (Except Error Unit) × Waiters
  | .command command moment =>
    let (answer, c, journal) := r.coordinator.perform moment command
    (some answer, settle { r with coordinator := c, journal := r.journal ++ journal })
  | .scope command => (none, settle { r with directory := r.directory.perform r.now command })
  | .wait id signal scope =>
    let waiter : Waiter := ⟨id, signal, scope.bind r.directory.find?, none⟩
    (none, settle { r with waiters := r.waiters ++ [waiter] })
  | .advance d => (none, Clock.runUntil due fire r.now (r.now + d) r)

end Waiters

end Gatehouse.Readiness
