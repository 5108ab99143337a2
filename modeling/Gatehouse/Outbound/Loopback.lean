import Gatehouse.Outbound.Connection

/-!
# A stream to itself

A stream without a peer, that behaves as it is told and keeps account of the operations that
reached it. It shows what a connection lets through.
-/

namespace Gatehouse.Outbound

inductive Behaviour where
  | working
  | pending
  | failing (kind : IoKind)
  deriving DecidableEq, Repr

/-- A stream without a peer, with its account of the operations that reached it. -/
structure Loopback where
  behaviour : Behaviour
  reads : Nat
  writes : Nat
  flushes : Nat
  shutdowns : Nat
  vectoredWrites : Nat
  written : String
  deriving DecidableEq, Repr

namespace Loopback

def create : Loopback := ⟨.working, 0, 0, 0, 0, 0, ""⟩

def greeting : String := "pong"

def count (l : Loopback) : Operation → Loopback
  | .read => { l with reads := l.reads + 1 }
  | .write _ => { l with writes := l.writes + 1 }
  | .writeVectored _ => { l with vectoredWrites := l.vectoredWrites + 1 }
  | .flush => { l with flushes := l.flushes + 1 }
  | .shutdown => { l with shutdowns := l.shutdowns + 1 }

def take (l : Loopback) (text : String) : Reply × Loopback :=
  (.written text.utf8ByteSize, { l with written := l.written ++ text })

def work (l : Loopback) : Operation → Reply × Loopback
  | .read => (.received greeting, l)
  | .write text => l.take text
  | .writeVectored parts => l.take (String.join parts)
  | .flush => (.done, l)
  | .shutdown => (.done, l)

def perform (op : Operation) (l : Loopback) : Reply × Loopback :=
  match l.behaviour with
  | .working => (l.count op).work op
  | .pending => (.pending, l.count op)
  | .failing kind => (.failed (.io kind), l.count op)

/-- Loopbacks write several pieces at once and count as proxied. -/
def kind : StreamKind Loopback := ⟨perform, fun _ => true, fun _ => true⟩

end Loopback

end Gatehouse.Outbound
