import Gatehouse.Outbound.Reason
import Gatehouse.Time

/-!
# Transport errors

How a round trip to another service fails. Errors form chains: one that wraps another has it as
its source. What becomes of a failed attempt is decided by the first error along the chain that is
recognised.

* `TransportError.chain`: an error and its sources. An I/O error that was built around another
  error shows that error's source as its own, so the wrapped error itself is not on the chain.
* `TransportError.classify`: whether an attempt is repeated for free, on the budget, or not at all.
-/

namespace Gatehouse.Outbound

structure Expiry where
  age : Nat
  maxLifetime : Nat
  deriving DecidableEq, Repr

def Expiry.message (e : Expiry) : String :=
  "connection expired after " ++ Duration.toText e.age ++
    " (max lifetime " ++ Duration.toText e.maxLifetime ++ ")"

inductive IoKind where
  | connectionRefused
  | connectionReset
  | connectionAborted
  | hostUnreachable
  | networkUnreachable
  | unexpectedEof
  | brokenPipe
  | notConnected
  | permissionDenied
  | timedOut
  | interrupted
  | wouldBlock
  | invalidData
  | invalidInput
  | notFound
  | addressInUse
  | addressNotAvailable
  | networkDown
  | writeZero
  | alreadyExists
  | unsupported
  | outOfMemory
  | other
  deriving DecidableEq, Repr

namespace IoKind

def name : IoKind → String
  | .connectionRefused => "ConnectionRefused"
  | .connectionReset => "ConnectionReset"
  | .connectionAborted => "ConnectionAborted"
  | .hostUnreachable => "HostUnreachable"
  | .networkUnreachable => "NetworkUnreachable"
  | .unexpectedEof => "UnexpectedEof"
  | .brokenPipe => "BrokenPipe"
  | .notConnected => "NotConnected"
  | .permissionDenied => "PermissionDenied"
  | .timedOut => "TimedOut"
  | .interrupted => "Interrupted"
  | .wouldBlock => "WouldBlock"
  | .invalidData => "InvalidData"
  | .invalidInput => "InvalidInput"
  | .notFound => "NotFound"
  | .addressInUse => "AddrInUse"
  | .addressNotAvailable => "AddrNotAvailable"
  | .networkDown => "NetworkDown"
  | .writeZero => "WriteZero"
  | .alreadyExists => "AlreadyExists"
  | .unsupported => "Unsupported"
  | .outOfMemory => "OutOfMemory"
  | .other => "Other"

def message : IoKind → String
  | .connectionRefused => "connection refused"
  | .connectionReset => "connection reset"
  | .connectionAborted => "connection aborted"
  | .hostUnreachable => "host unreachable"
  | .networkUnreachable => "network unreachable"
  | .unexpectedEof => "unexpected end of file"
  | .brokenPipe => "broken pipe"
  | .notConnected => "not connected"
  | .permissionDenied => "permission denied"
  | .timedOut => "timed out"
  | .interrupted => "operation interrupted"
  | .wouldBlock => "operation would block"
  | .invalidData => "invalid data"
  | .invalidInput => "invalid input parameter"
  | .notFound => "entity not found"
  | .addressInUse => "address in use"
  | .addressNotAvailable => "address not available"
  | .networkDown => "network down"
  | .writeZero => "write zero"
  | .alreadyExists => "entity already exists"
  | .unsupported => "unsupported"
  | .outOfMemory => "out of memory"
  | .other => "other error"

def all : List IoKind :=
  [.connectionRefused, .connectionReset, .connectionAborted, .hostUnreachable,
    .networkUnreachable, .unexpectedEof, .brokenPipe, .notConnected, .permissionDenied, .timedOut,
    .interrupted, .wouldBlock, .invalidData, .invalidInput, .notFound, .addressInUse,
    .addressNotAvailable, .networkDown, .writeZero, .alreadyExists, .unsupported, .outOfMemory,
    .other]

def ofName? (name : String) : Option IoKind := all.find? (·.name == name)

/-- The reason to try again that a kind gives: the connection failed, and another may not. -/
def transient? : IoKind → Option TransientReason
  | .connectionRefused => some .connectionRefused
  | .connectionReset => some .connectionReset
  | .connectionAborted => some .connectionAborted
  | .hostUnreachable => some .unreachable
  | .networkUnreachable => some .unreachable
  | .unexpectedEof => some .unexpectedEof
  | .brokenPipe => some .brokenPipe
  | .notConnected => some .notConnected
  | _ => none

end IoKind

inductive ExchangeError where
  /-- The connection was closed in the middle of a message. -/
  | incompleteMessage
  /-- The connection was closed before the request was taken up. -/
  | closed
  | canceled
  | malformed
  deriving DecidableEq, Repr

namespace ExchangeError

def message : ExchangeError → String
  | .incompleteMessage => "connection closed before message completed"
  | .closed => "channel closed"
  | .canceled => "operation was canceled"
  | .malformed => "invalid HTTP version parsed"

def transient? : ExchangeError → Option TransientReason
  | .incompleteMessage => some .incompleteMessage
  | .closed => some .connectionClosed
  | .canceled => some .connectionClosed
  | .malformed => none

end ExchangeError

inductive TransportError where
  | expired (expiry : Expiry)
  | io (kind : IoKind)
  /-- An I/O error that was built around another error and speaks for it. -/
  | ioAround (kind : IoKind) (inner : TransportError)
  | exchange (error : ExchangeError)
  /-- An exchange that failed because of another error, which it has as its source. -/
  | exchangeOver (error : ExchangeError) (source : TransportError)
  | plain (message : String)
  | wrapped (message : String) (source : TransportError)
  deriving DecidableEq, Repr

inductive FailureClass where
  /-- The connection was too old. The attempt is repeated at no cost. -/
  | expired
  | transient (reason : TransientReason)
  | permanent
  deriving DecidableEq, Repr

namespace TransportError

def message : TransportError → String
  | .expired e => e.message
  | .io kind => kind.message
  | .ioAround _ inner => inner.message
  | .exchange e => e.message
  | .exchangeOver e _ => e.message
  | .plain message => message
  | .wrapped message _ => message

/-- An error and its sources, the error first. -/
def chain : TransportError → List TransportError
  | .ioAround kind inner => .ioAround kind inner :: inner.chain.tail
  | .exchangeOver error source => .exchangeOver error source :: source.chain
  | .wrapped message source => .wrapped message source :: source.chain
  | e => [e]

/-- The class that an error gives by itself. -/
def recognise? : TransportError → Option FailureClass
  | .expired _ => some .expired
  | .ioAround _ (.expired _) => some .expired
  | .ioAround kind _ => kind.transient?.map .transient
  | .io kind => kind.transient?.map .transient
  | .exchange e => e.transient?.map .transient
  | .exchangeOver e _ => e.transient?.map .transient
  | .plain _ => none
  | .wrapped _ _ => none

/-- The class of the first error on the chain that is recognised. -/
def classify (e : TransportError) : FailureClass :=
  (e.chain.findSome? recognise?).getD .permanent

end TransportError

end Gatehouse.Outbound
