import Gatehouse.Bulkhead.Basic
import Gatehouse.Clock
import Gatehouse.Scope.Directory

/-!
# Contention for a bulkhead

Tasks that compete for the slots of one bulkhead, in virtual time. After every step, and at every
timer on the way, the waiting tasks are looked at in the order in which they came.

* `Contention.perform`: a step of the run.
* `Contention.settle`: every waiting task takes up its slot or gives up, as far as it can.
-/

namespace Gatehouse.Bulkhead

inductive Status where
  | waiting
  | held (since : Nat)
  | released
  | aborted
  | refused (reason : Refusal) (ended : Nat)
  deriving DecidableEq, Repr

structure Attempt where
  id : String
  ticket : Nat
  deadline : Nat
  scope : Option Scope
  status : Status
  deriving Repr

/-- When a task may give up. -/
def Attempt.due (a : Attempt) : Option Nat :=
  if a.status == .waiting then Clock.earlier (some a.deadline) (a.scope.bind (·.deadline))
  else none

/-- A bulkhead and the tasks that compete for it. -/
structure Contention where
  now : Nat
  directory : Scope.Directory
  bulkhead : Bulkhead
  attempts : List Attempt
  journal : Journal

namespace Contention

inductive Step where
  | scope (command : Scope.Command)
  | acquire (id : String) (scope : Option String)
  | release (id : String)
  | abort (id : String)
  | advance (d : Nat)

def start (b : Bulkhead) : Contention := ⟨0, .empty, b, [], []⟩

/-- Looks at one task; only a waiting one can change. -/
def visit (tokens : Tokens) (now : Nat) (b : Bulkhead) (a : Attempt) :
    Attempt × Bulkhead × Journal :=
  match a.status with
  | .waiting =>
    let cause := a.scope.bind fun s => s.cancelled? tokens now
    let (progress, b, journal) := b.poll a.ticket a.deadline now cause
    match progress with
    | .waits => (a, b, journal)
    | .holds => ({ a with status := .held now }, b, journal)
    | .refused reason => ({ a with status := .refused reason now }, b, journal)
  | _ => (a, b, [])

def visitAll (tokens : Tokens) (now : Nat) (b : Bulkhead) :
    List Attempt → List Attempt × Bulkhead × Journal
  | [] => ([], b, [])
  | a :: rest =>
    let (a, b, first) := visit tokens now b a
    let (rest, b, later) := visitAll tokens now b rest
    (a :: rest, b, first ++ later)

def waitingCount (attempts : List Attempt) : Nat :=
  (attempts.filter fun a => a.status == .waiting).length

/-- Looks at the tasks until no wait ends any more: a task that gives up may pass a slot on. -/
def settle (c : Contention) : Contention :=
  let (attempts, b, journal) := visitAll c.directory.tokens c.now c.bulkhead c.attempts
  let c' := { c with attempts := attempts, bulkhead := b, journal := c.journal ++ journal }
  if waitingCount attempts < waitingCount c.attempts then settle c' else c'
termination_by waitingCount c.attempts

def due (c : Contention) : Option Nat := Clock.earliest (c.attempts.map Attempt.due)

def fire (t : Nat) (c : Contention) : Contention := settle { c with now := t }

def find? (c : Contention) (id : String) : Option Attempt :=
  c.attempts.reverse.find? fun a => a.id == id

def mark (c : Contention) (ticket : Nat) (status : Status) : Contention :=
  { c with attempts := c.attempts.map fun a =>
      if a.ticket = ticket then { a with status := status } else a }

def perform (c : Contention) : Step → Contention
  | .scope command => settle { c with directory := c.directory.perform c.now command }
  | .acquire id scope =>
    let (ticket, b) := c.bulkhead.enter
    let attempt : Attempt :=
      ⟨id, ticket, c.now + b.acquireTimeout, scope.bind c.directory.find?, .waiting⟩
    settle { c with bulkhead := b, attempts := c.attempts ++ [attempt] }
  | .release id =>
    match c.find? id with
    | some a =>
      match a.status with
      | .held _ =>
        let (b, journal) := c.bulkhead.release
        settle ({ c with bulkhead := b, journal := c.journal ++ journal }.mark a.ticket .released)
      | _ => settle c
    | none => settle c
  | .abort id =>
    match c.find? id with
    | some a =>
      match a.status with
      | .waiting =>
        settle ({ c with bulkhead := c.bulkhead.withdraw a.ticket }.mark a.ticket .aborted)
      | _ => settle c
    | none => settle c
  | .advance d => Clock.runUntil due fire c.now (c.now + d) c

end Contention

end Gatehouse.Bulkhead
