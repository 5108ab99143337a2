/-!
# Reasons for another round trip

Why a request to another service was sent again. A transient reason tells how the attempt before
it failed; the others do not use up the retry budget.
-/

namespace Gatehouse.Outbound

/-- How an attempt failed that may well succeed when it is made again. -/
inductive TransientReason where
  | connectionRefused
  | connectionReset
  | connectionAborted
  | unreachable
  | unexpectedEof
  | brokenPipe
  | notConnected
  | incompleteMessage
  | connectionClosed
  deriving DecidableEq, Repr

def TransientReason.name : TransientReason → String
  | .connectionRefused => "connection_refused"
  | .connectionReset => "connection_reset"
  | .connectionAborted => "connection_aborted"
  | .unreachable => "unreachable"
  | .unexpectedEof => "unexpected_eof"
  | .brokenPipe => "broken_pipe"
  | .notConnected => "not_connected"
  | .incompleteMessage => "incomplete_message"
  | .connectionClosed => "connection_closed"

inductive RetryReason where
  /-- The pooled connection had outlived its lifetime. -/
  | expired
  | transient (reason : TransientReason)
  /-- The budget was used up, and the idle connections were closed. -/
  | finalAttempt
  deriving DecidableEq, Repr

def RetryReason.name : RetryReason → String
  | .expired => "expired"
  | .transient reason => reason.name
  | .finalAttempt => "final_attempt"

end Gatehouse.Outbound
