import Gatehouse.Breaker.Calls
import Gatehouse.Proofs.Breaker.Turn

/-!
# A breaker keeps its machine and publishes the changes

Each operation of a named breaker is one operation of its machine; the changes of state that the
machine notes are taken out of it and appended to the feed, with entries in the journal.

* `operate_eq`: what any operation does, in one equation.
* `tryAcquire_eq`, `record_eq`, `drop_eq`, `state_eq`, `counts_eq`: the operations.
-/

namespace Gatehouse.Breaker

namespace Machine

/-- Outside of a closed machine there is nothing left for the same instant to bring. -/
theorem refresh_refresh {m : Machine} {now : Nat} (h : (m.refresh now).state ≠ .closed) :
    (m.refresh now).refresh now = m.refresh now := by
  cases hExp : m.expired now with
  | false => rw [refresh_of_not_expired hExp, refresh_of_not_expired hExp]
  | true =>
    cases hs : m.state with
    | closed =>
      rw [refresh_of_closed hs hExp] at h
      exact absurd hs h
    | opened =>
      rw [refresh_of_opened hs hExp, setState_of_ne (by simp [hs])]
      exact refresh_of_halfOpen rfl
    | halfOpen => rw [refresh_of_halfOpen hs, refresh_of_halfOpen hs]

end Machine

namespace CircuitBreaker

/-- What is reported of a change of state. -/
def report (name : String) (t : Transition) : Journal :=
  [.log (transitionEvent name t), .measure (.breakerTransition name t),
    .measure (.breakerState name t.target)]

/-- The breaker once its machine has come to `m` and the changes have been published. -/
def after (b : CircuitBreaker) (m : Machine) : CircuitBreaker :=
  { b with
    machine := { m with transitions := [] }
    feed := { b.feed with published := b.feed.published ++ m.transitions } }

/-- Where no change waits, there is nothing to publish. -/
theorem after_machine {b : CircuitBreaker} (h : b.machine.transitions = []) :
    b.after b.machine = b := by
  obtain ⟨name, policy, m, feed⟩ := b
  obtain ⟨settings, state, generation, counts, expiry, trials, transitions⟩ := m
  cases h
  simp [after]

theorem publishAll_eq (b : CircuitBreaker) (ts : List Transition) :
    b.publishAll ts =
      ({ b with feed := { b.feed with published := b.feed.published ++ ts } },
        ts.flatMap (report b.name)) := by
  induction ts generalizing b with
  | nil => simp [publishAll]
  | cons t rest ih => simp [publishAll, publish, ih, report, Feed.publish]

theorem operate_eq {α : Type} (b : CircuitBreaker) (f : Machine → α × Machine) :
    b.operate f = ((f b.machine).1, b.after (f b.machine).2,
      (f b.machine).2.transitions.flatMap (report b.name)) := by
  simp [operate, locked, Machine.takeTransitions, publishAll_eq, after]

theorem state_eq (b : CircuitBreaker) (now : Nat) :
    b.state now = ((b.machine.refresh now).state, b.after (b.machine.refresh now),
      (b.machine.refresh now).transitions.flatMap (report b.name)) := by
  rw [state, operate_eq]

theorem counts_eq (b : CircuitBreaker) (now : Nat) :
    b.counts now = ((b.machine.refresh now).counts, b.after (b.machine.refresh now),
      (b.machine.refresh now).transitions.flatMap (report b.name)) := by
  rw [counts, operate_eq]

theorem record_eq (b : CircuitBreaker) (a : Admission) (v : Verdict) (now : Nat) :
    b.record a v now = (b.after (b.machine.record a v now),
      (b.machine.record a v now).transitions.flatMap (report b.name)) := by
  rw [record, operate_eq]

theorem drop_eq (b : CircuitBreaker) (a : Admission) :
    b.drop a = (b.after (b.machine.abandon a),
      (b.machine.abandon a).transitions.flatMap (report b.name)) := by
  rw [drop, operate_eq]

/-- A refusal tells the state that the machine refused in. -/
theorem tryAcquire_eq (b : CircuitBreaker) (now : Nat) :
    b.tryAcquire now =
      ((b.machine.acquire now).1.mapError fun _ => (b.machine.refresh now).state,
        b.after (b.machine.acquire now).2,
        (b.machine.acquire now).2.transitions.flatMap (report b.name)) := by
  rw [tryAcquire, operate_eq]
  rcases Machine.acquire_cases b.machine now with ⟨hs, h⟩ | ⟨hc, h⟩ | ⟨hs, hc, h⟩
  · have hOpen : (b.machine.refresh now).state ≠ .closed := by simp [hs]
    rw [h]
    simp only [Machine.refresh_refresh hOpen]
    rfl
  · have hOpen : (b.machine.refresh now).state ≠ .closed := by simp [hc.1]
    rw [h]
    simp only [Machine.refresh_refresh hOpen]
    rfl
  · rw [h]
    rfl

end CircuitBreaker

end Gatehouse.Breaker
