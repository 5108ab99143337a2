import Gatehouse.Outbound.Loopback
import Mathlib.Algebra.GroupWithZero.Nat
import Mathlib.Data.List.Induction

/-!
# What a connection lets through

A connection is used for as long as its owner likes, while time passes and the stream below changes
as it pleases. What the stream gets to see is told by the instants of the operations alone: those
that were issued while the connection was young, and every shutdown. It answers them as it would
answer anybody else. All the others come back with the age of the connection, and the stream does
not learn of them.

* `Use`: a connection, and all the operations on it with their replies.
* `Bare`: the same stream, used without a connection around it.
* `Enforced`, `enforced_run`: the use of a connection, told by the instants of the operations.
* `lifetime_enforced`: so is the use of every connection that was dialed.
-/

namespace Gatehouse.Outbound

variable {σ : Type}

/-! ## Connections and streams in use -/

/-- What goes on while a connection is open. -/
inductive Event (σ : Type) where
  | elapse (d : Nat)
  /-- The stream changes by itself, as when its peer sends something or hangs up. -/
  | stir (change : σ → σ)
  | operate (op : Operation)

namespace Event

/-- How much time passes. -/
def duration : Event σ → Nat
  | .elapse d => d
  | _ => 0

def operation? : Event σ → Option Operation
  | .operate op => some op
  | _ => none

end Event

/-- The events with their instants. -/
def stamped (now : Nat) : List (Event σ) → List (Nat × Event σ)
  | [] => []
  | e :: rest => (now, e) :: stamped (now + e.duration) rest

/-- An operation, the instant at which it was issued, and its reply. -/
structure Exchange where
  at_ : Nat
  op : Operation
  reply : Reply
  deriving DecidableEq, Repr

/-- A connection in use, with what was asked of it and what it replied, the earliest first. -/
structure Use (σ : Type) where
  now : Nat
  connection : Connection σ
  exchanges : List Exchange

namespace Use

def start (now : Nat) (c : Connection σ) : Use σ := ⟨now, c, []⟩

def step (kind : StreamKind σ) (u : Use σ) : Event σ → Use σ
  | .elapse d => { u with now := u.now + d }
  | .stir change =>
    { u with connection := { u.connection with stream := change u.connection.stream } }
  | .operate op =>
    let (reply, connection) := u.connection.perform kind u.now op
    { u with connection := connection, exchanges := u.exchanges ++ [⟨u.now, op, reply⟩] }

def run (kind : StreamKind σ) (u : Use σ) (events : List (Event σ)) : Use σ :=
  events.foldl (step kind) u

end Use

/-- A stream in use without a connection around it, with the replies it gave. -/
structure Bare (σ : Type) where
  stream : σ
  replies : List (Operation × Reply)

namespace Bare

def step (kind : StreamKind σ) (b : Bare σ) : Event σ → Bare σ
  | .elapse _ => b
  | .stir change => { b with stream := change b.stream }
  | .operate op => ⟨(kind.perform op b.stream).2, b.replies ++ [(op, (kind.perform op b.stream).1)]⟩

def run (kind : StreamKind σ) (stream : σ) (events : List (Event σ)) : Bare σ :=
  events.foldl (step kind) ⟨stream, []⟩

end Bare

/-! ## Which operations are let through -/

/-- A connection that was opened at an instant is young when the operation is issued, or it is being
shut down. -/
def letsThrough (opened lifetime at_ : Nat) (op : Operation) : Bool :=
  op = .shutdown ∨ at_ - opened < lifetime

/-- What of the events takes place at the stream. -/
def reaches (opened lifetime : Nat) : Nat × Event σ → Bool
  | (at_, .operate op) => letsThrough opened lifetime at_ op
  | _ => true

/-- The operations with the instants at which they are issued. -/
def issued (opened : Nat) (events : List (Event σ)) : List (Nat × Operation) :=
  (stamped opened events).filterMap fun e => e.2.operation?.map (e.1, ·)

/-- The events that take place at the stream. -/
def admitted (opened lifetime : Nat) (events : List (Event σ)) : List (Event σ) :=
  ((stamped opened events).filter (reaches opened lifetime)).map (·.2)

namespace Connection

variable {kind : StreamKind σ} {c : Connection σ} {now : Nat} {op : Operation}

theorem isExpired_iff : c.isExpired now = true ↔ c.maxLifetime ≤ now - c.openedAt :=
  decide_eq_true_iff

theorem perform_of_letsThrough (kind : StreamKind σ)
    (h : letsThrough c.openedAt c.maxLifetime now op = true) :
    c.perform kind now op =
      ((kind.perform op c.stream).1, { c with stream := (kind.perform op c.stream).2 }) := by
  have hOpen : ¬ (op ≠ .shutdown ∧ c.isExpired now = true) := by
    simp only [letsThrough, decide_eq_true_eq] at h
    rw [isExpired_iff, Nat.not_lt.symm]
    exact fun hRefused => h.elim hRefused.1 hRefused.2
  rw [perform, if_neg hOpen]

theorem perform_of_not_letsThrough (kind : StreamKind σ)
    (h : letsThrough c.openedAt c.maxLifetime now op = false) :
    c.perform kind now op = (.failed (.ioAround .other (.expired (c.expiry now))), c) := by
  have hShut : op ≠ .shutdown ∧ c.isExpired now = true := by
    simp only [letsThrough, decide_eq_false_iff_not, not_or, Nat.not_lt] at h
    exact ⟨h.1, isExpired_iff.mpr h.2⟩
  rw [perform, if_pos hShut]

/-- Whether a connection is expired is what its next read, write or flush finds. -/
theorem perform_of_ne_shutdown (hOp : op ≠ .shutdown) :
    c.perform kind now op =
      if c.isExpired now then (.failed (.ioAround .other (.expired (c.expiry now))), c)
      else ((kind.perform op c.stream).1, { c with stream := (kind.perform op c.stream).2 }) := by
  simp only [perform, ne_eq, hOp, not_false_eq_true, true_and]

end Connection

/-! ## A whole use -/

/-- The time that passes in a list of events. -/
def total (events : List (Event σ)) : Nat := (events.map Event.duration).sum

theorem total_concat (events : List (Event σ)) (e : Event σ) :
    total (events ++ [e]) = total events + e.duration := by
  simp [total]

theorem stamped_concat (now : Nat) (events : List (Event σ)) (e : Event σ) :
    stamped now (events ++ [e]) = stamped now events ++ [(now + total events, e)] := by
  induction events generalizing now with
  | nil => rfl
  | cons first rest ih =>
    rw [List.cons_append, stamped, stamped, ih, List.cons_append, Nat.add_assoc]
    rfl

theorem issued_concat (opened : Nat) (events : List (Event σ)) (e : Event σ) :
    issued opened (events ++ [e]) =
      issued opened events ++ (e.operation?.map (opened + total events, ·)).toList := by
  rw [issued, stamped_concat, List.filterMap_append]
  cases e <;> rfl

theorem admitted_concat (opened lifetime : Nat) (events : List (Event σ)) (e : Event σ) :
    admitted opened lifetime (events ++ [e]) = admitted opened lifetime events ++
      if reaches opened lifetime (opened + total events, e) then [e] else [] := by
  rw [admitted, stamped_concat, List.filter_append, List.map_append, List.filter_cons]
  split <;> rfl

theorem reaches_of_quiet (opened lifetime at_ : Nat) {e : Event σ} (h : e.operation? = none) :
    reaches opened lifetime (at_, e) = true := by
  cases e with
  | elapse d => rfl
  | stir change => rfl
  | operate op => cases h

/-- What was asked of a connection, what its stream made of it, and what its owner was told, by the
instants of the events since it was opened. -/
structure Enforced (kind : StreamKind σ) (stream : σ) (opened lifetime : Nat)
    (events : List (Event σ)) (u : Use σ) : Prop where
  clock : u.now = opened + total events
  openedAt : u.connection.openedAt = opened
  maxLifetime : u.connection.maxLifetime = lifetime
  /-- Every operation is answered once, at its instant. -/
  answered : u.exchanges.map (fun x => (x.at_, x.op)) = issued opened events
  /-- The stream is as if it had been used alone, for what is let through, with the same replies. -/
  reached : Bare.run kind stream (admitted opened lifetime events) =
    ⟨u.connection.stream,
      (u.exchanges.filter fun x => letsThrough opened lifetime x.at_ x.op).map
        fun x => (x.op, x.reply)⟩
  refused : ∀ x ∈ u.exchanges, letsThrough opened lifetime x.at_ x.op = false →
    x.reply = .failed (.ioAround .other (.expired ⟨x.at_ - opened, lifetime⟩))

variable {kind : StreamKind σ} {stream : σ} {opened lifetime : Nat} {events : List (Event σ)}
  {u : Use σ}

theorem Use.run_concat (kind : StreamKind σ) (u : Use σ) (events : List (Event σ)) (e : Event σ) :
    u.run kind (events ++ [e]) = (u.run kind events).step kind e := by
  rw [Use.run, Use.run, List.foldl_append]
  rfl

theorem Bare.run_concat (kind : StreamKind σ) (stream : σ) (events : List (Event σ))
    (e : Event σ) : run kind stream (events ++ [e]) = (run kind stream events).step kind e := by
  rw [run, run, List.foldl_append]
  rfl

theorem Use.now_step (kind : StreamKind σ) (u : Use σ) (e : Event σ) :
    (u.step kind e).now = u.now + e.duration := by
  cases e <;> rfl

/-- The instant of the next event, for the connection and for the list of events. -/
theorem Enforced.now_step (h : Enforced kind stream opened lifetime events u) (e : Event σ) :
    (u.step kind e).now = opened + total (events ++ [e]) := by
  rw [Use.now_step, h.clock, total_concat, Nat.add_assoc]

/-- An operation that is let through, and answered by the stream. -/
theorem Enforced.pass (h : Enforced kind stream opened lifetime events u) {op : Operation}
    (hThrough : letsThrough opened lifetime u.now op = true) :
    Enforced kind stream opened lifetime (events ++ [.operate op]) (u.step kind (.operate op)) := by
  have hPerform := Connection.perform_of_letsThrough (c := u.connection) kind
    (by rw [h.openedAt, h.maxLifetime]; exact hThrough)
  have hReaches : reaches opened lifetime (opened + total events, (.operate op : Event σ)) = true :=
    h.clock ▸ hThrough
  have hNow := h.now_step (.operate op)
  rw [Use.step, hPerform] at hNow ⊢
  refine ⟨hNow, h.openedAt, h.maxLifetime, ?_, ?_, fun x hMem hNot => ?_⟩
  · rw [issued_concat, List.map_append, h.answered, h.clock]
    rfl
  · rw [admitted_concat, if_pos hReaches, Bare.run_concat, h.reached, List.filter_append,
      List.filter_cons, if_pos hThrough, List.map_append]
    rfl
  · obtain hMem | hMem := List.mem_append.mp hMem
    · exact h.refused x hMem hNot
    · rw [List.mem_singleton.mp hMem, hThrough] at hNot
      cases hNot

/-- An operation that is refused, of which the stream does not learn. -/
theorem Enforced.refuse (h : Enforced kind stream opened lifetime events u) {op : Operation}
    (hRefused : letsThrough opened lifetime u.now op = false) :
    Enforced kind stream opened lifetime (events ++ [.operate op]) (u.step kind (.operate op)) := by
  have hPerform := Connection.perform_of_not_letsThrough (c := u.connection) kind
    (by rw [h.openedAt, h.maxLifetime]; exact hRefused)
  have hReaches :
      reaches opened lifetime (opened + total events, (.operate op : Event σ)) ≠ true :=
    fun hThrough => Bool.false_ne_true (hRefused.symm.trans (h.clock ▸ hThrough))
  have hNow := h.now_step (.operate op)
  rw [Use.step, hPerform] at hNow ⊢
  refine ⟨hNow, h.openedAt, h.maxLifetime, ?_, ?_, fun x hMem hNot => ?_⟩
  · rw [issued_concat, List.map_append, h.answered, h.clock]
    rfl
  · rw [admitted_concat, if_neg hReaches, List.append_nil, h.reached, List.filter_append,
      List.filter_cons, if_neg (by rw [hRefused]; exact Bool.false_ne_true), List.filter_nil,
      List.append_nil]
  · obtain hMem | hMem := List.mem_append.mp hMem
    · exact h.refused x hMem hNot
    · rw [List.mem_singleton.mp hMem, Connection.expiry, Connection.age, h.openedAt, h.maxLifetime]

/-- The step lemma: one more event. -/
theorem Enforced.step (h : Enforced kind stream opened lifetime events u) (e : Event σ) :
    Enforced kind stream opened lifetime (events ++ [e]) (u.step kind e) := by
  cases e with
  | elapse d =>
    refine ⟨h.now_step _, h.openedAt, h.maxLifetime, ?_, ?_, h.refused⟩
    · rw [issued_concat]
      exact h.answered.trans (List.append_nil _).symm
    · rw [admitted_concat, if_pos (reaches_of_quiet _ _ _ rfl), Bare.run_concat, h.reached]
      rfl
  | stir change =>
    refine ⟨h.now_step _, h.openedAt, h.maxLifetime, ?_, ?_, h.refused⟩
    · rw [issued_concat]
      exact h.answered.trans (List.append_nil _).symm
    · rw [admitted_concat, if_pos (reaches_of_quiet _ _ _ rfl), Bare.run_concat, h.reached]
      rfl
  | operate op =>
    cases hThrough : letsThrough opened lifetime u.now op with
    | true => exact h.pass hThrough
    | false => exact h.refuse hThrough

/-- The run lemma, from the instant at which the connection was opened. -/
theorem enforced_run (kind : StreamKind σ) (stream : σ) (opened lifetime : Nat)
    (events : List (Event σ)) :
    Enforced kind stream opened lifetime events
      ((Use.start opened ⟨stream, opened, lifetime⟩).run kind events) := by
  induction events using List.reverseRecOn with
  | nil => exact ⟨rfl, rfl, rfl, rfl, rfl, fun x hMem => by cases hMem⟩
  | append_singleton events e ih =>
    rw [Use.run_concat]
    exact ih.step e

theorem Enforced.isExpired_iff (h : Enforced kind stream opened lifetime events u) :
    u.connection.isExpired u.now = true ↔ lifetime ≤ total events := by
  rw [Connection.isExpired_iff, h.maxLifetime, h.openedAt, h.clock, Nat.add_sub_cancel_left]

theorem Dial.eq_of_connected {d : Dial} {begun : Nat} {c : Connection σ}
    (h : d.connect stream lifetime begun = .connected c) :
    c = ⟨stream, begun + d.duration, lifetime⟩ := by
  unfold connect at h
  split at h
  · cases h
  · cases h
  · split at h
    · cases h
    · cases h
      rfl

/-- The use of every connection that was dialed, whatever its stream is and does. Its age counts
from the end of the dial, and what reaches the stream goes by the age. Whether the connection is
expired is what the next read, write or flush would find, and it stays expired. -/
theorem lifetime_enforced (kind : StreamKind σ) {d : Dial} {begun : Nat} {c : Connection σ}
    (hDialed : d.connect stream lifetime begun = .connected c) (events : List (Event σ)) :
    let opened := begun + d.duration
    let u := (Use.start opened c).run kind events
    u.connection.age u.now = total events ∧
    Enforced kind stream opened lifetime events u ∧
    (u.connection.isExpired u.now = true ↔ lifetime ≤ total events) ∧
    (∀ op, op ≠ .shutdown → u.connection.perform kind u.now op =
      if u.connection.isExpired u.now then
        (.failed (.ioAround .other (.expired ⟨total events, lifetime⟩)), u.connection)
      else ((kind.perform op u.connection.stream).1,
        { u.connection with stream := (kind.perform op u.connection.stream).2 })) ∧
    (u.connection.isExpired u.now = true → ∀ later,
      (u.run kind later).connection.isExpired (u.run kind later).now = true) := by
  intro opened u
  have hFresh : c = ⟨stream, opened, lifetime⟩ := Dial.eq_of_connected hDialed
  have hUse : ∀ events, Enforced kind stream opened lifetime events
      ((Use.start opened c).run kind events) := by
    rw [hFresh]
    exact enforced_run kind stream opened lifetime
  have hNow : Enforced kind stream opened lifetime events u := hUse events
  have hAge : u.connection.age u.now = total events := by
    rw [Connection.age, hNow.openedAt, hNow.clock, Nat.add_sub_cancel_left]
  refine ⟨hAge, hNow, hNow.isExpired_iff, fun op hOp => ?_, fun hExpired later => ?_⟩
  · have hExpiry : u.connection.expiry u.now = ⟨total events, lifetime⟩ := by
      rw [Connection.expiry, hAge, hNow.maxLifetime]
    rw [Connection.perform_of_ne_shutdown hOp, hExpiry]
  · -- The use goes on as one of a longer list of events, in which more time passes.
    have hLater : u.run kind later = (Use.start opened c).run kind (events ++ later) := by
      rw [Use.run, Use.run, List.foldl_append]
      rfl
    rw [hLater, (hUse (events ++ later)).isExpired_iff, total, List.map_append, List.sum_append]
    exact Nat.le_trans (hNow.isExpired_iff.mp hExpired) (Nat.le_add_right _ _)

/-- A stream that is written to, flushed too late and then shut down. -/
theorem lifetime_enforced_too_late :
    let dial : Dial := ⟨.ready, 5, none⟩
    let c : Connection Loopback := ⟨.create, 5, 60⟩
    let events : List (Event Loopback) := [.elapse 59, .operate (.write "sku 42"), .elapse 1,
      .operate .flush, .operate .shutdown]
    let u := (Use.start 5 c).run Loopback.kind events
    dial.connect Loopback.create 60 0 = .connected c ∧
    u.connection.age u.now = 60 ∧
    u.exchanges.map (·.reply) =
      [.written 6, .failed (.ioAround .other (.expired ⟨60, 60⟩)), .done] ∧
    u.connection.stream =
      { Loopback.create with writes := 1, shutdowns := 1, written := "sku 42" } ∧
    u.connection.isExpired u.now = true := by
  intro dial c events u
  have hDialed : dial.connect Loopback.create 60 0 = .connected c := rfl
  obtain ⟨hAge, -, hExpired, -⟩ := lifetime_enforced Loopback.kind hDialed events
  exact ⟨hDialed, hAge, by decide, by decide, hExpired.mpr (by decide)⟩

end Gatehouse.Outbound
