import Gatehouse.Clock
import Gatehouse.Scope.Directory

/-!
# Waiting for scopes to end

Tasks that wait for named scopes, in virtual time. A waiting task is released at the first instant
at which its scope has a cause, and keeps the cause of that instant.

* `WatchRun.perform`: a command on the scopes, a new waiting task, or time passing.
* `WatchRun.settle`: releases every task whose scope has ended.
-/

namespace Gatehouse.Scope

structure Watch where
  id : String
  scope : Scope
  ended : Option (Cause × Nat)

def Watch.release (tokens : Tokens) (now : Nat) (w : Watch) : Watch :=
  match w.ended with
  | some _ => w
  | none => { w with ended := (w.scope.cancelled? tokens now).map fun cause => (cause, now) }

def Watch.due (w : Watch) : Option Nat :=
  if w.ended.isSome then none else w.scope.deadline

structure WatchRun where
  now : Nat
  directory : Directory
  watches : List Watch

namespace WatchRun

inductive Step where
  | scope (command : Command)
  | watch (id name : String)
  | advance (d : Nat)

def start : WatchRun := ⟨0, .empty, []⟩

def settle (r : WatchRun) : WatchRun :=
  { r with watches := r.watches.map (Watch.release r.directory.tokens r.now) }

def due (r : WatchRun) : Option Nat := Clock.earliest (r.watches.map Watch.due)

def fire (t : Nat) (r : WatchRun) : WatchRun := settle { r with now := t }

def perform (r : WatchRun) : Step → WatchRun
  | .scope command => settle { r with directory := r.directory.perform r.now command }
  | .watch id name =>
    match r.directory.find? name with
    | some scope => settle { r with watches := r.watches ++ [⟨id, scope, none⟩] }
    | none => r
  | .advance d => Clock.runUntil due fire r.now (r.now + d) r

end WatchRun

end Gatehouse.Scope
