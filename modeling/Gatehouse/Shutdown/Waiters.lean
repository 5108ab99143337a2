import Gatehouse.Clock
import Gatehouse.Shutdown.Basic

/-!
# Waiting for shutdown

A shutdown, the tokens taken from it, and tasks that wait for it or for scopes taken from it, in
virtual time.

* `Waiters.perform`: a request, a token, a waiting task, or time passing.
* `Waiters.settle`: releases every task whose wait is over.
-/

namespace Gatehouse.Shutdown

inductive Target where
  | shutdown
  | scope (scope : Scope)
  deriving Repr

inductive Release where
  | done
  | ended (cause : Cause)
  deriving DecidableEq, Repr

structure Waiter where
  id : String
  target : Target
  ended : Option Release
  deriving Repr

def Waiter.release (s : Shutdown) (now : Nat) (w : Waiter) : Waiter :=
  match w.ended, w.target with
  | some _, _ => w
  | none, .shutdown => { w with ended := if s.isTriggered then some .done else none }
  | none, .scope scope => { w with ended := (scope.cancelled? s.tokens now).map .ended }

def Waiter.due (w : Waiter) : Option Nat :=
  match w.ended, w.target with
  | none, .scope scope => scope.deadline
  | _, _ => none

structure Waiters where
  now : Nat
  shutdown : Shutdown
  taken : List Token
  waiters : List Waiter
  journal : Journal

namespace Waiters

inductive Step where
  | token
  | cancelToken (index : Nat)
  | request (code : Int)
  | trigger
  | wait (id : String)
  /-- Waits for a scope, or for a child of it with a timeout. -/
  | waitScope (id : String) (timeout : Option Nat)
  | advance (d : Nat)

def start : Waiters := ⟨0, .create, [], [], []⟩

def settle (r : Waiters) : Waiters :=
  { r with waiters := r.waiters.map (Waiter.release r.shutdown r.now) }

def due (r : Waiters) : Option Nat := Clock.earliest (r.waiters.map Waiter.due)

def fire (t : Nat) (r : Waiters) : Waiters := settle { r with now := t }

def keep (r : Waiters) (after : Shutdown × Journal) : Waiters :=
  { r with shutdown := after.1, journal := r.journal ++ after.2 }

/-- A scope taken from the shutdown, or a child of it with a timeout, if there can be one. -/
def takeScope? (s : Shutdown) (now : Nat) (timeout : Option Nat) : Option (Scope × Shutdown) :=
  let (scope, s) := s.scope
  match timeout with
  | none => some (scope, s)
  | some d =>
    (scope.childWithTimeout? now d s.tokens).map fun (scope, tokens) =>
      (scope, { s with tokens := tokens })

def perform (r : Waiters) : Step → Waiters
  | .token =>
    let (t, s) := r.shutdown.token
    settle { r with shutdown := s, taken := r.taken ++ [t] }
  | .cancelToken index =>
    match r.taken[index]? with
    | some t =>
      settle { r with shutdown := { r.shutdown with tokens := r.shutdown.tokens.cancel t } }
    | none => settle r
  | .request code => settle (r.keep (r.shutdown.request code))
  | .trigger => settle (r.keep r.shutdown.trigger)
  | .wait id => settle { r with waiters := r.waiters ++ [⟨id, .shutdown, none⟩] }
  | .waitScope id timeout =>
    match takeScope? r.shutdown r.now timeout with
    | none => settle r
    | some (scope, s) =>
      settle { r with shutdown := s, waiters := r.waiters ++ [⟨id, .scope scope, none⟩] }
  | .advance d => Clock.runUntil due fire r.now (r.now + d) r

end Waiters

end Gatehouse.Shutdown
