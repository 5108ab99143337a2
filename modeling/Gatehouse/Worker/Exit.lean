/-!
# How a worker's run ended
-/

namespace Gatehouse.Worker

inductive Exit where
  | ok
  | failed
  /-- The body failed, and the failure asked for shutdown. -/
  | escalated
  /-- The run was stopped while it waited to be allowed to start. -/
  | cancelledBeforeStart
  deriving DecidableEq, Repr

def Exit.name : Exit → String
  | .ok => "ok"
  | .failed => "failed"
  | .escalated => "escalated"
  | .cancelledBeforeStart => "cancelled_before_start"

end Gatehouse.Worker
