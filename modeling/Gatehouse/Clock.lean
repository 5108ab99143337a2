import Gatehouse.Time

/-!
# A clock that stops at every timer

A system that waits for timers is moved forward in two ways: `due` names the earliest timer it
still waits for, and `fire t` lets everything happen that happens at instant `t`. Moving the clock
to a target fires every timer up to and including the target at its own instant, in order, and
then lets the target instant itself happen.

* `Clock.runUntil`: the timers of an interval, one instant after the other.
* `Clock.earliest`: the first of several optional instants.
-/

namespace Gatehouse.Clock

/-- The earlier of two timers, where `none` is a timer that never fires. -/
def earlier : Option Nat → Option Nat → Option Nat
  | none, b => b
  | a, none => a
  | some a, some b => some (min a b)

def earliest (timers : List (Option Nat)) : Option Nat :=
  timers.foldr earlier none

/-- Fires the timers of `s` that are due after `now` and not after `target`, each at its own
instant, and then the target instant. A timer that is not after `now` has had its chance before
and does not hold the clock up. -/
def runUntil {σ : Type} (due : σ → Option Nat) (fire : Nat → σ → σ)
    (now target : Nat) (s : σ) : σ :=
  match due s with
  | none => fire target s
  | some t =>
    if _h : now < t ∧ t ≤ target then runUntil due fire t target (fire t s) else fire target s
termination_by target - now

end Gatehouse.Clock
