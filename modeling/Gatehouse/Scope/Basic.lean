import Gatehouse.Time

/-!
# Cancellation scopes

A scope pairs a cancellation token with an optional deadline. Tokens form a forest: cancelling one
cancels everything below it, and nothing above or beside it. A token carries the numbers of its
ancestors, so the only state is which numbers have been handed out and which were cancelled.

* `Tokens.isCancelled`: a token is cancelled when it, or one of its ancestors, was.
* `Scope.cause?`: why a scope has ended, where cancellation goes before the deadline.
* `Scope.cancelled?`: what a wait for its end comes to at one look.
* `Scope.childUntil`: the deadline of a child is never later than that of its parent.
* `Scope.childWithTimeout?`: the same after some time, if the clock will ever show that instant.
-/

namespace Gatehouse

inductive Cause where
  | cancelled
  | deadlineExceeded
  deriving DecidableEq, Repr

def Cause.message : Cause → String
  | .cancelled => "operation cancelled"
  | .deadlineExceeded => "deadline exceeded"

/-- A cancellation token, known by its own number and by those of its ancestors, nearest first. -/
structure Token where
  number : Nat
  ancestors : List Nat
  deriving DecidableEq, Repr

def Token.lineage (t : Token) : List Nat := t.number :: t.ancestors

/-- The tokens of a program: how many numbers were handed out, and on which of them cancellation
was asked for. -/
structure Tokens where
  issued : Nat
  cancelled : List Nat
  deriving DecidableEq, Repr

namespace Tokens

def empty : Tokens := ⟨0, []⟩

def root (ts : Tokens) : Token × Tokens :=
  (⟨ts.issued, []⟩, { ts with issued := ts.issued + 1 })

def child (ts : Tokens) (parent : Token) : Token × Tokens :=
  (⟨ts.issued, parent.lineage⟩, { ts with issued := ts.issued + 1 })

/-- Cancels a token, and with it everything below it. -/
def cancel (ts : Tokens) (t : Token) : Tokens :=
  { ts with cancelled := t.number :: ts.cancelled }

/-- A token is cancelled when cancellation was asked for on it or on one of its ancestors. -/
def isCancelled (ts : Tokens) (t : Token) : Bool :=
  t.lineage.any fun n => ts.cancelled.contains n

end Tokens

structure Scope where
  token : Token
  deadline : Option Nat
  deriving DecidableEq, Repr

namespace Scope

def root (ts : Tokens) : Scope × Tokens :=
  let (token, ts) := ts.root
  (⟨token, none⟩, ts)

/-- A scope over a token that exists already; whatever deadline came with the token is gone. -/
def ofToken (token : Token) : Scope := ⟨token, none⟩

def child (s : Scope) (ts : Tokens) : Scope × Tokens :=
  let (token, ts) := ts.child s.token
  (⟨token, s.deadline⟩, ts)

/-- A scope below `s` that ends at `limit`, or with `s` if that is sooner. -/
def childUntil (s : Scope) (limit : Nat) (ts : Tokens) : Scope × Tokens :=
  let (token, ts) := ts.child s.token
  let deadline := match s.deadline with
    | some existing => min existing limit
    | none => limit
  (⟨token, some deadline⟩, ts)

/-- A scope below `s` that ends after `timeout`, or with `s` if that is sooner. There is none if no
clock shows that instant. -/
def childWithTimeout? (s : Scope) (now : Nat) (timeout : Nat) (ts : Tokens) :
    Option (Scope × Tokens) :=
  (Instant.after? now timeout).map fun limit => s.childUntil limit ts

def withTimeout? (now : Nat) (timeout : Nat) (ts : Tokens) : Option (Scope × Tokens) :=
  let (parent, ts) := root ts
  parent.childWithTimeout? now timeout ts

def cancel (s : Scope) (ts : Tokens) : Tokens := ts.cancel s.token

def passed (now : Nat) : Option Nat → Bool
  | some deadline => deadline ≤ now
  | none => false

/-- Why the scope has ended, if it has. -/
def cause? (s : Scope) (ts : Tokens) (now : Nat) : Option Cause :=
  if ts.isCancelled s.token then some .cancelled
  else if passed now s.deadline then some .deadlineExceeded
  else none

/-- What a task that waits for the end of the scope gets if it looks now. With a deadline it waits
for the token and for a timer, in this order, and else for the token alone. -/
def cancelled? (s : Scope) (ts : Tokens) (now : Nat) : Option Cause :=
  let token := if ts.isCancelled s.token then some Cause.cancelled else none
  match s.deadline with
  | some deadline =>
    let timer := if deadline ≤ now then some Cause.deadlineExceeded else none
    token.or timer
  | none => token

end Scope

end Gatehouse
