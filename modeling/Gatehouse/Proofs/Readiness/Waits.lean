import Gatehouse.Proofs.Clock
import Gatehouse.Proofs.Readiness.Signals
import Gatehouse.Proofs.Scope.Causes
import Gatehouse.Readiness.Waiters

/-!
# When a wait for readiness ends

A task that waits for a signal has a look at it, and at its scope, now and then. Between two looks
anything may happen: components are added and marked, traffic is notified, scopes are made and
cancelled, other tasks begin to wait and have their looks. Only the clock is held up. It does not go
on while a task has something to see that it has not looked at, nor past the end of a scope under
which a task waits.

* `Waiters.move`, `Waiters.Reachable`: a single thing that happens, and any number of them.
* `Reachable.perform`, `Reachable.run`: a whole step, with everything that follows from it, is a
  sequence of moves, and so are many.
* `QuietBefore`: at no earlier instant had the signal fired or the scope ended.
* `Reachable.wait`: a wait goes on, or was ended by a look of its own at one instant.
* `waits_end_in_time`: a wait ends at the first instant at which its signal has fired or its scope
  has ended, with the signal going first, whatever the other tasks do.
-/

namespace Gatehouse.Readiness

/-- A signal that has fired stays so. -/
theorem Coordinator.fired_next (c : Coordinator) (call : Call) {signal : Signal}
    (h : c.fired signal = true) : (c.next call).fired signal = true := by
  have hChange := c.change call
  generalize c.next call = c' at hChange ⊢
  cases hChange with
  | emptyName | again | unknown | remarked | unmoved | added => exact h
  | notified moment hMode hReady hFirst =>
    cases signal with
    | allReady => exact h
    | trafficReady => rfl
  | marked moment hKnown hReady =>
    rw [fireIfAllReady_eq]
    split
    · cases signal with
      | allReady => rfl
      | trafficReady =>
        simp only [fired, isTrafficReady] at h ⊢
        obtain ⟨at', hTraffic⟩ := Option.isSome_iff_exists.mp h
        cases c.mode <;> simp [hTraffic]
    · exact h

/-- Only a task that waits has a timer. -/
theorem Waiter.due_eq_some {w : Waiter} {t : Nat} :
    w.due = some t ↔ w.ended = none ∧ w.scope.bind (·.deadline) = some t := by
  cases hEnded : w.ended <;> simp [Waiter.due, hEnded]

namespace Waiters

/-- A single thing that happens around a coordinator. -/
inductive Move where
  | command (command : Command) (moment : Nat)
  | scope (command : Scope.Command)
  | wait (id : String) (signal : Signal) (scope : Option Scope)
  | visit (index : Nat)
  | clock (now : Nat)

def cause? (r : Waiters) (scope : Option Scope) : Option Cause :=
  scope.bind fun s => s.cause? r.directory.tokens r.now

/-- What a task sees that looks at its signal and at its scope. -/
def look (r : Waiters) (signal : Signal) (scope : Option Scope) : Option (Except Error Unit) :=
  r.coordinator.poll signal (r.cause? scope)

/-- One task has a look. -/
def visit (r : Waiters) (index : Nat) : Waiters :=
  { r with
    waiters := r.waiters.modify index (Waiter.release r.coordinator r.directory.tokens r.now) }

def move (r : Waiters) : Move → Waiters
  | .command command moment =>
    let (_, c, journal) := r.coordinator.perform moment command
    { r with coordinator := c, journal := r.journal ++ journal }
  | .scope command => { r with directory := r.directory.perform r.now command }
  | .wait id signal scope => { r with waiters := r.waiters ++ [⟨id, signal, scope, none⟩] }
  | .visit index => r.visit index
  | .clock now => { r with now := now }

/-- No task that waits has anything to see. -/
def Settled (r : Waiters) : Prop :=
  ∀ w ∈ r.waiters, w.ended = none → r.look w.signal w.scope = none

instance (r : Waiters) : Decidable r.Settled :=
  inferInstanceAs (Decidable (∀ w ∈ r.waiters, w.ended = none → r.look w.signal w.scope = none))

/-- What may happen next. The clock goes on when there is nothing left to see, and not past the
deadline of a task that waits. -/
def Admits (r : Waiters) : Move → Prop
  | .clock now =>
    r.now ≤ now ∧ r.Settled ∧
      ∀ w ∈ r.waiters, w.ended = none → ∀ d ∈ w.scope.bind (·.deadline), now ≤ d
  | _ => True

/-- What the tasks around a coordinator can come to. -/
inductive Reachable (begun : Waiters) : Waiters → Prop where
  | begun : Reachable begun begun
  | move {r : Waiters} (h : Reachable begun r) (m : Move) (hAdmits : r.Admits m) :
      Reachable begun (r.move m)

/-- At no instant before that of `r`, and not before `q`, had the signal fired or the scope ended,
and no deadline of the scope was passed over. -/
def QuietBefore (q : Waiters) (signal : Signal) (scope : Option Scope) (r : Waiters) : Prop :=
  ∀ p, Reachable q p → Reachable p r → p.now < r.now →
    p.coordinator.fired signal = false ∧ p.cause? scope = none ∧
      ∀ d ∈ scope.bind (·.deadline), r.now ≤ d

/-- Between `q` and `r` a wait was ended with an answer: it was so by a look at `p`. -/
structure EndedAt (q r : Waiters) (index : Nat) (id : String) (signal : Signal)
    (scope : Option Scope) (answer : Except Error Unit) (p : Waiters) : Prop where
  before : Reachable q p
  after : Reachable (p.visit index) r
  waited : p.waiters[index]? = some ⟨id, signal, scope, none⟩
  seen : p.look signal scope = some answer
  quiet : QuietBefore q signal scope p

variable {begun q p r : Waiters} {signal : Signal} {scope : Option Scope} {id : String}
  {index : Nat} {ended : Option (Except Error Unit)}

/-! ## What a look sees -/

theorem look_eq_none :
    r.look signal scope = none ↔ r.coordinator.fired signal = false ∧ r.cause? scope = none := by
  cases hFired : r.coordinator.fired signal <;> simp [look, Coordinator.poll, hFired]

theorem look_eq_ok :
    r.look signal scope = some (.ok ()) ↔ r.coordinator.fired signal = true := by
  cases hFired : r.coordinator.fired signal <;> simp [look, Coordinator.poll, hFired]

theorem look_eq_error {e : Error} :
    r.look signal scope = some (.error e) ↔
      r.coordinator.fired signal = false ∧ ∃ c, r.cause? scope = some c ∧ e = .ended c := by
  cases hFired : r.coordinator.fired signal
  · simp only [look, Coordinator.poll, hFired, Bool.false_eq_true, if_false, Option.map_eq_some_iff,
      Except.error.injEq, true_and]
    exact ⟨fun ⟨c, hCause, hError⟩ => ⟨c, hCause, hError.symm⟩,
      fun ⟨c, hCause, hError⟩ => ⟨c, hCause, hError.symm⟩⟩
  · simp [look, Coordinator.poll, hFired]

theorem visit_getElem?_self (hWaiter : r.waiters[index]? = some ⟨id, signal, scope, none⟩) :
    (r.visit index).waiters[index]? = some ⟨id, signal, scope, r.look signal scope⟩ := by
  simp [visit, hWaiter, Waiter.release, look, cause?]

theorem visit_getElem?_of_ended {w : Waiter} (hWaiter : r.waiters[index]? = some w)
    (hEnded : w.ended ≠ none) (other : Nat) : (r.visit other).waiters[index]? = some w := by
  obtain ⟨answer, hAnswer⟩ := Option.ne_none_iff_exists'.mp hEnded
  by_cases hMine : other = index <;>
    simp [visit, hWaiter, hMine, Waiter.release, hAnswer]

theorem visit_getElem?_of_ne {w : Waiter} (hWaiter : r.waiters[index]? = some w) {other : Nat}
    (hOther : other ≠ index) : (r.visit other).waiters[index]? = some w := by
  simp [visit, hWaiter, hOther]

/-- Only a look of its own ends a wait, and what has ended stays as it is. -/
theorem move_getElem? {w : Waiter} (m : Move) (hWaiter : r.waiters[index]? = some w) :
    (r.move m).waiters[index]? = some w ∨ (m = .visit index ∧ w.ended = none) := by
  obtain ⟨hIndex, -⟩ := List.getElem?_eq_some_iff.mp hWaiter
  cases m with
  | command _ _ | scope _ | clock _ => exact .inl hWaiter
  | wait id' signal' scope' => exact .inl ((List.getElem?_append_left hIndex).trans hWaiter)
  | visit other =>
    by_cases hMine : other = index
    · cases hEnded : w.ended with
      | none => exact .inr ⟨congrArg Move.visit hMine, rfl⟩
      | some answer =>
        exact .inl (visit_getElem?_of_ended hWaiter (by simp [hEnded]) other)
    · exact .inl (visit_getElem?_of_ne hWaiter hMine)

/-! ## What stays -/

/-- The clock goes on, signals stay fired and tokens cancelled. -/
structure Onward (r r' : Waiters) : Prop where
  now : r.now ≤ r'.now
  fired : ∀ signal, r.coordinator.fired signal = true → r'.coordinator.fired signal = true
  cancelled : r.directory.tokens.cancelled ⊆ r'.directory.tokens.cancelled

theorem onward_move (r : Waiters) {m : Move} (hAdmits : r.Admits m) : Onward r (r.move m) := by
  cases m with
  | command command moment =>
    exact ⟨Nat.le_refl _, fun _ h => Coordinator.fired_next r.coordinator (command, moment) h,
      List.Subset.refl _⟩
  | scope command =>
    exact ⟨Nat.le_refl _, fun _ h => h, r.directory.cancelled_perform r.now command⟩
  | wait _ _ _ | visit _ => exact ⟨Nat.le_refl _, fun _ h => h, List.Subset.refl _⟩
  | clock now => exact ⟨hAdmits.1, fun _ h => h, List.Subset.refl _⟩

namespace Reachable

theorem trans (h : Reachable q p) (h' : Reachable p r) : Reachable q r := by
  induction h' with
  | begun => exact h
  | move _ m hAdmits ih => exact ih.move m hAdmits

theorem onward (h : Reachable p r) : Onward p r := by
  induction h with
  | begun => exact ⟨Nat.le_refl _, fun _ h => h, List.Subset.refl _⟩
  | move _ m hAdmits ih =>
    have hStep := onward_move _ hAdmits
    exact ⟨Nat.le_trans ih.now hStep.now, fun s h => hStep.fired s (ih.fired s h),
      List.Subset.trans ih.cancelled hStep.cancelled⟩

/-- Where there is nothing to see now, there was nothing before. -/
theorem look_eq_none (h : Reachable p r) (hNone : r.look signal scope = none) :
    p.look signal scope = none := by
  have hOnward := h.onward
  obtain ⟨hFired, hCause⟩ := Waiters.look_eq_none.mp hNone
  refine Waiters.look_eq_none.mpr ⟨Bool.eq_false_iff.mpr fun hBefore => ?_, ?_⟩
  · rw [hOnward.fired signal hBefore] at hFired
    cases hFired
  · cases scope with
    | none => rfl
    | some s => exact Scope.cause?_eq_none_of_later hOnward.cancelled hOnward.now hCause

/-- A task stays at its place, and an answer that it has is kept. -/
theorem keeps {w : Waiter} (h : Reachable p r) (hWaiter : p.waiters[index]? = some w) :
    ∃ ended, r.waiters[index]? = some { w with ended := ended } ∧
      (w.ended ≠ none → ended = w.ended) := by
  induction h with
  | begun => exact ⟨w.ended, hWaiter, fun _ => rfl⟩
  | move _ m _ ih =>
    obtain ⟨ended, hNow, hKept⟩ := ih
    rcases move_getElem? m hNow with hSame | ⟨rfl, hNone⟩
    · exact ⟨ended, hSame, hKept⟩
    · obtain rfl : ended = none := hNone
      refine ⟨_, visit_getElem?_self hNow, fun hAnswered => ?_⟩
      exact absurd (hKept hAnswered).symm hAnswered

/-- A wait that goes on now went on before. -/
theorem waited_before {w : Waiter} (h : Reachable p r) (hBefore : p.waiters[index]? = some w)
    (hNow : r.waiters[index]? = some ⟨id, signal, scope, none⟩) :
    w = ⟨id, signal, scope, none⟩ := by
  obtain ⟨ended, hLater, hKept⟩ := h.keeps hBefore
  have hSame := Option.some.inj (hLater.symm.trans hNow)
  cases hEnded : w.ended with
  | none =>
    obtain ⟨id', signal', scope', ended'⟩ := w
    obtain rfl : ended' = none := hEnded
    cases hSame
    rfl
  | some answer =>
    have hAnswer := hKept (by simp [hEnded])
    rw [hAnswer, hEnded] at hSame
    cases congrArg Waiter.ended hSame

end Reachable

theorem now_move (r : Waiters) (m : Move) :
    (r.move m).now = r.now ∨ ∃ now, m = .clock now := by
  cases m with
  | clock now => exact .inr ⟨now, rfl⟩
  | command _ _ | scope _ | wait _ _ _ | visit _ => exact .inl rfl

/-! ## One wait -/

section Wait

variable (hWait : q.waiters[index]? = some ⟨id, signal, scope, none⟩)
include hWait

/-- As long as a wait goes on, whatever could end it has come at this very instant. -/
theorem quietBefore_of_waiting (h : Reachable q r)
    (hStill : r.waiters[index]? = some ⟨id, signal, scope, none⟩) :
    QuietBefore q signal scope r := by
  intro p hBefore hAfter hEarlier
  induction hAfter with
  | begun => exact absurd hEarlier (Nat.lt_irrefl _)
  | @move r hAfter m hAdmits ih =>
    obtain ⟨ended, hNow, -⟩ := (hBefore.trans hAfter).keeps hWait
    have hWaited := (Reachable.begun.move m hAdmits).waited_before hNow hStill
    rw [hWaited] at hNow
    rcases now_move r m with hSame | ⟨now, rfl⟩
    · rw [hSame] at hEarlier ⊢
      exact ih (hBefore.trans hAfter) hNow hEarlier
    · -- The clock goes on only because this task has nothing to see.
      have hMem := List.mem_of_getElem? hNow
      obtain ⟨-, hSettled, hAhead⟩ := hAdmits
      obtain ⟨hFired, hCause⟩ := look_eq_none.mp (hAfter.look_eq_none (hSettled _ hMem rfl))
      exact ⟨hFired, hCause, hAhead _ hMem rfl⟩

/-- A wait goes on, or was ended by a look of its own. -/
theorem Reachable.wait (h : Reachable q r) :
    ∃ ended, r.waiters[index]? = some ⟨id, signal, scope, ended⟩ ∧
      ∀ answer, ended = some answer → ∃ p, EndedAt q r index id signal scope answer p := by
  induction h with
  | begun => exact ⟨none, hWait, nofun⟩
  | @move r h m hAdmits ih =>
    obtain ⟨ended, hNow, hAnswered⟩ := ih
    rcases move_getElem? m hNow with hSame | ⟨rfl, hNone⟩
    · refine ⟨ended, hSame, fun answer hAnswer => ?_⟩
      obtain ⟨p, hEnded⟩ := hAnswered answer hAnswer
      exact ⟨p, { hEnded with after := hEnded.after.move m hAdmits }⟩
    · obtain rfl : ended = none := hNone
      exact ⟨_, visit_getElem?_self hNow, fun answer hSeen =>
        ⟨r, h, .begun, hNow, hSeen, quietBefore_of_waiting hWait h hNow⟩⟩

/-- A wait that goes on when its signal has fired ends with `Ok`, before the clock goes on. -/
theorem Reachable.released (h : Reachable q r) (hFired : q.coordinator.fired signal = true) :
    r.waiters[index]? = some ⟨id, signal, scope, some (.ok ())⟩ ∨
      r.waiters[index]? = some ⟨id, signal, scope, none⟩ ∧ r.now = q.now := by
  obtain ⟨ended, hNow, hAnswered⟩ := h.wait hWait
  cases ended with
  | none =>
    refine .inr ⟨hNow, Nat.le_antisymm (Nat.le_of_not_lt fun hLater => ?_) h.onward.now⟩
    obtain ⟨hNot, -⟩ := quietBefore_of_waiting hWait h hNow q .begun h hLater
    rw [hFired] at hNot
    cases hNot
  | some answer =>
    obtain ⟨p, hEnded⟩ := hAnswered answer rfl
    have hSeen : p.look signal scope = some (.ok ()) :=
      look_eq_ok.mpr (hEnded.before.onward.fired signal hFired)
    obtain rfl : .ok () = answer := Option.some.inj (hSeen.symm.trans hEnded.seen)
    exact .inl hNow

end Wait

/-! ## Letting everybody look -/

theorem release_eq (r : Waiters) (w : Waiter) :
    w.release r.coordinator r.directory.tokens r.now =
      { w with ended := w.ended.or (r.look w.signal w.scope) } := by
  obtain ⟨id, signal, scope, ended⟩ := w
  cases ended <;> simp [Waiter.release, look, cause?]

theorem settle_getElem? {w : Waiter} (hWaiter : r.waiters[index]? = some w) :
    r.settle.waiters[index]? = some { w with ended := w.ended.or (r.look w.signal w.scope) } := by
  simp only [settle, List.getElem?_map, hWaiter, Option.map_some, release_eq]

theorem settled_settle (r : Waiters) : r.settle.Settled := by
  intro w hMem hWaits
  obtain ⟨w', -, rfl⟩ := List.mem_map.mp hMem
  rw [release_eq] at hWaits ⊢
  exact (Option.or_eq_none_iff.mp hWaits).2

theorem visit_append (r : Waiters) (before : List Waiter) (w : Waiter) (rest : List Waiter) :
    ({ r with waiters := before ++ w :: rest } : Waiters).visit before.length =
      { r with
        waiters := before ++ w.release r.coordinator r.directory.tokens r.now :: rest } := by
  have hOne : ∀ before : List Waiter,
      (before ++ w :: rest).modify before.length
          (Waiter.release r.coordinator r.directory.tokens r.now) =
        before ++ w.release r.coordinator r.directory.tokens r.now :: rest := by
    intro before
    induction before with
    | nil => rfl
    | cons x before ih => simpa using ih
  simp only [visit, hOne]

/-- Where nobody has anything to see, every timer is ahead. -/
theorem Settled.due_gt (h : r.Settled) {t : Nat} (hDue : r.due = some t) : r.now < t := by
  obtain ⟨hOwn, -⟩ := Clock.earliest_spec hDue
  obtain ⟨w, hMem, hTimer⟩ := List.mem_map.mp hOwn
  obtain ⟨hWaits, hDeadline⟩ := Waiter.due_eq_some.mp hTimer
  obtain ⟨-, hCause⟩ := look_eq_none.mp (h w hMem hWaits)
  obtain ⟨s, hScope, hOwnDeadline⟩ := Option.bind_eq_some_iff.mp hDeadline
  rw [hScope] at hCause
  exact (Scope.cause?_eq_none.mp hCause).2 t hOwnDeadline

theorem due_le {w : Waiter} {d : Nat} (hMem : w ∈ r.waiters) (hWaits : w.ended = none)
    (hDeadline : w.scope.bind (·.deadline) = some d) : ∃ t ∈ r.due, t ≤ d := by
  have hListed : some d ∈ r.waiters.map Waiter.due :=
    List.mem_map.mpr ⟨w, hMem, Waiter.due_eq_some.mpr ⟨hWaits, hDeadline⟩⟩
  cases hFirst : r.due with
  | none => cases Clock.earliest_eq_none.mp hFirst _ hListed
  | some t => exact ⟨t, rfl, (Clock.earliest_spec hFirst).2 d hListed⟩

namespace Reachable

/-- Every task has a look, those behind the first few. -/
theorem visits (before rest : List Waiter)
    (h : Reachable begun { r with waiters := before ++ rest }) :
    Reachable begun
      { r with
        waiters :=
          before ++ rest.map (Waiter.release r.coordinator r.directory.tokens r.now) } := by
  induction rest generalizing before with
  | nil => exact h
  | cons w rest ih =>
    have hLook := h.move (.visit before.length) trivial
    simp only [Waiters.move, visit_append] at hLook
    rw [List.append_cons] at hLook
    have hRest := ih _ hLook
    rwa [List.append_assoc] at hRest

theorem settle (h : Reachable begun r) : Reachable begun r.settle := visits [] r.waiters h

theorem fire {now : Nat} (h : Reachable begun r) (hSettled : r.Settled) (hAhead : r.now ≤ now)
    (hDue : ∀ t ∈ r.due, t ≤ r.now ∨ now ≤ t) : Reachable begun (Waiters.fire now r) := by
  refine (h.move (.clock now) ⟨hAhead, hSettled, fun w hMem hWaits d hDeadline => ?_⟩).settle
  obtain ⟨t, hFirst, hBefore⟩ := due_le hMem hWaits hDeadline
  have hLater := hSettled.due_gt hFirst
  rcases hDue t hFirst with hPast | hNext
  · exact absurd hLater (Nat.not_lt.mpr hPast)
  · exact Nat.le_trans hNext hBefore

theorem runUntil (h : Reachable begun r) (hSettled : r.Settled) {target : Nat}
    (hAhead : r.now ≤ target) :
    Reachable begun (Clock.runUntil Waiters.due Waiters.fire r.now target r) ∧
      (Clock.runUntil Waiters.due Waiters.fire r.now target r).Settled := by
  have hFire : ∀ now t (r : Waiters), now ≤ t → (∀ t' ∈ r.due, t' ≤ now ∨ t ≤ t') →
      Reachable begun r ∧ r.Settled ∧ r.now = now →
        Reachable begun (Waiters.fire t r) ∧ (Waiters.fire t r).Settled ∧
          (Waiters.fire t r).now = t := by
    rintro _ t r hLater hDue ⟨h, hSettled, rfl⟩
    exact ⟨h.fire hSettled hLater hDue, settled_settle _, rfl⟩
  obtain ⟨hReached, hQuiet, -⟩ := Clock.runUntil_onward hFire hAhead ⟨h, hSettled, rfl⟩
  exact ⟨hReached, hQuiet⟩

/-- A whole step, with everything that follows from it, is a sequence of moves. -/
theorem perform (h : Reachable begun r) (hSettled : r.Settled) (step : Step) :
    Reachable begun (r.perform step).2 ∧ (r.perform step).2.Settled := by
  cases step with
  | command command moment =>
    exact ⟨(h.move (.command command moment) trivial).settle, settled_settle _⟩
  | scope command => exact ⟨(h.move (.scope command) trivial).settle, settled_settle _⟩
  | wait id signal scope =>
    exact ⟨(h.move (.wait id signal (scope.bind r.directory.find?)) trivial).settle,
      settled_settle _⟩
  | advance d => exact h.runUntil hSettled (Nat.le_add_right r.now d)

theorem run (h : Reachable begun r) (hSettled : r.Settled) (steps : List Step) :
    Reachable begun (steps.foldl (fun r step => (r.perform step).2) r) := by
  induction steps generalizing r with
  | nil => exact h
  | cons step steps ih =>
    obtain ⟨hStep, hSettledThen⟩ := h.perform hSettled step
    exact ih hStep hSettledThen

end Reachable

end Waiters

open Waiters

/-- A wait goes on as long as neither its signal has fired nor its scope has ended at an earlier
instant. It ends with a look of its own, at the first instant at which one of the two has come: with
`Ok` if the signal has fired by then, otherwise with the cause of its scope. A wait that goes on
when its signal has fired, or is begun then, ends with `Ok` before the clock goes on. And whoever
else waits, if every task has a look now then this one gets what it sees itself, nothing is left
that holds the clock up, and whatever steps are performed from there are among the moves. -/
theorem waits_end_in_time {begun r : Waiters} {id : String} {signal : Signal}
    {scope : Option Scope} (h : Reachable (begun.move (.wait id signal scope)) r) :
    ∃ ended, r.waiters[begun.waiters.length]? = some ⟨id, signal, scope, ended⟩ ∧
      (ended = none → QuietBefore (begun.move (.wait id signal scope)) signal scope r) ∧
      (ended = some (.ok ()) → ∃ p,
        EndedAt (begun.move (.wait id signal scope)) r begun.waiters.length id signal scope
          (.ok ()) p ∧ p.coordinator.fired signal = true) ∧
      (∀ e, ended = some (.error e) → ∃ p c,
        EndedAt (begun.move (.wait id signal scope)) r begun.waiters.length id signal scope
          (.error e) p ∧ p.coordinator.fired signal = false ∧ p.cause? scope = some c ∧
            e = .ended c) ∧
      (∀ p, Reachable (begun.move (.wait id signal scope)) p → Reachable p r →
        p.waiters[begun.waiters.length]? = some ⟨id, signal, scope, none⟩ →
        p.coordinator.fired signal = true →
          ended = some (.ok ()) ∨ ended = none ∧ r.now = p.now) ∧
      r.settle.waiters[begun.waiters.length]? =
          some ⟨id, signal, scope, ended.or (r.look signal scope)⟩ ∧
        r.settle.Settled ∧ r.settle.now = r.now ∧
        ∀ steps : List Step,
          Reachable r (steps.foldl (fun r step => (r.perform step).2) r.settle) := by
  have hWait : (begun.move (.wait id signal scope)).waiters[begun.waiters.length]? =
      some ⟨id, signal, scope, none⟩ := List.getElem?_concat_length
  obtain ⟨ended, hNow, hAnswered⟩ := h.wait hWait
  refine ⟨ended, hNow, ?_, ?_, ?_, ?_, settle_getElem? hNow, settled_settle r, rfl,
    Reachable.begun.settle.run (settled_settle r)⟩
  · rintro rfl
    exact quietBefore_of_waiting hWait h hNow
  · intro hOk
    obtain ⟨p, hEnded⟩ := hAnswered _ hOk
    exact ⟨p, hEnded, look_eq_ok.mp hEnded.seen⟩
  · intro e hError
    obtain ⟨p, hEnded⟩ := hAnswered _ hError
    obtain ⟨hNot, c, hCause, hCaused⟩ := look_eq_error.mp hEnded.seen
    exact ⟨p, c, hEnded, hNot, hCause, hCaused⟩
  · intro p _ hAfter hWaits hFired
    rcases hAfter.released hWaits hFired with hOk | ⟨hStill, hSame⟩
    · exact .inl (congrArg Waiter.ended (Option.some.inj (hNow.symm.trans hOk)))
    · exact .inr ⟨congrArg Waiter.ended (Option.some.inj (hNow.symm.trans hStill)), hSame⟩

/-- A coordinator that knows of a database. -/
def withDatabase : Waiters := (Waiters.start .standalone).move (.command (.add "database") 0)

/-- One task waits for it under a scope that ends after five units, another one without end. -/
def twoWait : Waiters :=
  (withDatabase.move (.wait "brief" .allReady (some ⟨⟨0, []⟩, some 5⟩))).move
    (.wait "patient" .trafficReady none)

/-- The scope ends, and at the same instant the database is ready. -/
def oneReleased : Waiters :=
  [Move.clock 5, .visit 0, .command (.mark "database") 5, .visit 1].foldl Waiters.move twoWait

theorem waits_end_in_time_brief :
    (∃ p c, EndedAt (withDatabase.move (.wait "brief" .allReady (some ⟨⟨0, []⟩, some 5⟩)))
        oneReleased 0 "brief" .allReady (some ⟨⟨0, []⟩, some 5⟩)
        (.error (.ended .deadlineExceeded)) p ∧ p.coordinator.fired .allReady = false ∧
        p.cause? (some ⟨⟨0, []⟩, some 5⟩) = some c ∧
        Error.ended .deadlineExceeded = .ended c) ∧
      oneReleased.waiters.map (·.ended) =
        [some (.error (.ended .deadlineExceeded)), some (.ok ())] := by
  have hReached : Reachable
      (withDatabase.move (.wait "brief" .allReady (some ⟨⟨0, []⟩, some 5⟩))) oneReleased :=
    ((((Reachable.begun.move (.wait "patient" .trafficReady none) trivial).move (.clock 5)
      ⟨by decide, by decide, by decide⟩).move (.visit 0) trivial).move
      (.command (.mark "database") 5) trivial).move (.visit 1) trivial
  obtain ⟨ended, hWaiter, -, -, hError, -⟩ := waits_end_in_time hReached
  have hEnded : oneReleased.waiters[0]? = some ⟨"brief", .allReady, some ⟨⟨0, []⟩, some 5⟩,
      some (.error (.ended .deadlineExceeded))⟩ := rfl
  refine ⟨hError _ ?_, rfl⟩
  exact congrArg Waiter.ended (Option.some.inj (hWaiter.symm.trans hEnded))

end Gatehouse.Readiness
