import Gatehouse.Outbound.TransportError

/-!
# Connections with a bounded lifetime

A connection is dialed, ages, and refuses reads, writes and flushes once it is too old, without
touching the stream below. Shutting it down always works, so that it can be closed.

* `Connection.perform`: what an operation does to a connection of some age.
* `Dial.connect`: the age counts from the end of the dial.
-/

namespace Gatehouse.Outbound

inductive Operation where
  | read
  | write (text : String)
  | writeVectored (parts : List String)
  | flush
  | shutdown
  deriving DecidableEq, Repr

inductive Reply where
  | received (text : String)
  | written (count : Nat)
  | done
  | pending
  | failed (error : TransportError)
  deriving DecidableEq, Repr

structure StreamKind (σ : Type) where
  perform : Operation → σ → Reply × σ
  /-- Whether several pieces are written at once without being joined first. -/
  isVectored : σ → Bool
  isProxied : σ → Bool

/-- A stream with the instant at which it was connected, and how old it may become. -/
structure Connection (σ : Type) where
  stream : σ
  openedAt : Nat
  maxLifetime : Nat

namespace Connection

variable {σ : Type}

def age (c : Connection σ) (now : Nat) : Nat := now - c.openedAt

def isExpired (c : Connection σ) (now : Nat) : Bool := c.maxLifetime ≤ c.age now

def expiry (c : Connection σ) (now : Nat) : Expiry := ⟨c.age now, c.maxLifetime⟩

/-- An operation reaches the stream while the connection is young enough. -/
def perform (kind : StreamKind σ) (c : Connection σ) (now : Nat) (op : Operation) :
    Reply × Connection σ :=
  if op ≠ .shutdown ∧ c.isExpired now then (.failed (.ioAround .other (.expired (c.expiry now))), c)
  else
    let (reply, stream) := kind.perform op c.stream
    (reply, { c with stream := stream })

def isVectored (kind : StreamKind σ) (c : Connection σ) : Bool := kind.isVectored c.stream

def isProxied (kind : StreamKind σ) (c : Connection σ) : Bool := kind.isProxied c.stream

end Connection

inductive DialerState where
  | ready
  | pending
  | failed (kind : IoKind)
  deriving DecidableEq, Repr

structure Dial where
  dialer : DialerState
  duration : Nat
  failure : Option IoKind

inductive Dialed (σ : Type) where
  | pending
  | dialerFailed (error : TransportError)
  | failed (error : TransportError)
  | connected (connection : Connection σ)

/-- Dials from an instant on. A connection is as old as the end of its dial. -/
def Dial.connect {σ : Type} (d : Dial) (stream : σ) (maxLifetime now : Nat) : Dialed σ :=
  match d.dialer with
  | .pending => .pending
  | .failed kind => .dialerFailed (.io kind)
  | .ready =>
    match d.failure with
    | some kind => .failed (.io kind)
    | none => .connected ⟨stream, now + d.duration, maxLifetime⟩

end Gatehouse.Outbound
