/-!
# States of a circuit breaker

A closed breaker lets calls through, an open one refuses them, and a half-open one lets a bounded
number of trial calls through.
-/

namespace Gatehouse.Breaker

inductive State where
  | closed
  | opened
  | halfOpen
  deriving DecidableEq, Repr

namespace State

def name : State → String
  | .closed => "closed"
  | .opened => "open"
  | .halfOpen => "half-open"

/-- The level of a state on a gauge, the higher the less gets through. -/
def level : State → Nat
  | .closed => 0
  | .halfOpen => 1
  | .opened => 2

end State

structure Transition where
  source : State
  target : State
  deriving DecidableEq, Repr

end Gatehouse.Breaker
