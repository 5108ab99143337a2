import Gatehouse.Proofs.Breaker.Publication

/-!
# What is read off a breaker

To ask a breaker for its state and its counts brings it up to date first. What is read is
therefore the same before and after, and it does not show trials, generations, or calls that were
forgotten.

* `reading`: the state and the counts as they are read at an instant.
* `reading_abandon`, `reading_record_ignored`: a call that is forgotten leaves no trace.
* `reading_record_failure_ne`: a failure does, if its call is of the present window.
-/

namespace Gatehouse.Breaker

namespace Machine

/-- The end of the open interval shows in the state. -/
theorem state_refresh (m : Machine) (now : Nat) :
    (m.refresh now).state =
      if m.state = .opened ∧ m.expired now = true then .halfOpen else m.state := by
  cases hExpired : m.expired now with
  | false => simp [refresh_of_not_expired hExpired]
  | true =>
    cases hState : m.state with
    | closed => simp [refresh_of_closed hState hExpired, newGeneration_eq, hState]
    | opened =>
      rw [refresh_of_opened hState hExpired, setState_of_ne (by simp [hState])]
      simp
    | halfOpen => simp [refresh_of_halfOpen hState, hState]

/-- The end of the open interval and that of a window clear the counts. -/
theorem counts_refresh (m : Machine) (now : Nat) :
    (m.refresh now).counts =
      if m.state ≠ .halfOpen ∧ m.expired now = true then .zero else m.counts := by
  cases hExpired : m.expired now with
  | false => simp [refresh_of_not_expired hExpired]
  | true =>
    cases hState : m.state with
    | closed => simp [refresh_of_closed hState hExpired, newGeneration_eq]
    | opened =>
      rw [refresh_of_opened hState hExpired, setState_of_ne (by simp [hState])]
      simp
    | halfOpen => simp [refresh_of_halfOpen hState]

/-- The state and the counts of a machine, after what time alone brings. -/
def reading (m : Machine) (now : Nat) : State × Counts :=
  ((m.refresh now).state, (m.refresh now).counts)

/-- Neither trials nor changes of state that nobody has taken yet can be read. -/
theorem reading_congr {m m' : Machine} (hState : m'.state = m.state)
    (hCounts : m'.counts = m.counts) (hExpiry : m'.expiry = m.expiry) (now : Nat) :
    m'.reading now = m.reading now := by
  have hExpired : m'.expired now = m.expired now := by
    unfold expired
    rw [hExpiry]
  simp only [reading, state_refresh, counts_refresh, hState, hCounts, hExpired]

/-- To read brings nothing new; where a window is so short that it ends at once, the next one has
counted nothing either. -/
theorem reading_refresh (m : Machine) (now : Nat) :
    (m.refresh now).reading now = m.reading now := by
  cases hExpired : m.expired now with
  | false => rw [refresh_of_not_expired hExpired]
  | true =>
    cases hState : m.state with
    | halfOpen => rw [refresh_of_halfOpen hState]
    | closed =>
      simp only [reading, state_refresh, counts_refresh, hExpired, hState]
      simp
    | opened =>
      simp only [reading, state_refresh, counts_refresh, hExpired, hState]
      simp

theorem reading_abandon (m : Machine) (a : Admission) (now : Nat) :
    (m.abandon a).reading now = m.reading now := by
  obtain ⟨k, hAbandon⟩ := m.abandon_eq a
  rw [hAbandon]
  exact reading_congr (m := m) (by rfl) (by rfl) (by rfl) now

theorem reading_record_ignored (m : Machine) (a : Admission) (now : Nat) :
    (m.record a .ignored now).reading now = m.reading now := by
  rw [record_ignored_eq, reading_abandon, reading_refresh]

/-- A verdict on a call of an earlier generation is forgotten with it. -/
theorem reading_record_of_ne {m : Machine} {a : Admission} {now : Nat}
    (h : a.generation ≠ (m.refresh now).generation) (v : Verdict) :
    (m.record a v now).reading now = m.reading now := by
  rw [record_eq, if_neg h, abandon_of_ne h, reading_refresh]

/-- A failure on a call of the present window opens a closed machine or is one more in a row. -/
theorem reading_record_failure_ne {m : Machine} {a : Admission} {now : Nat}
    (hClosed : m.state = .closed) (hWindow : m.expired now = false)
    (hGeneration : a.generation = m.generation) :
    (m.record a .failure now).reading now ≠ m.reading now := by
  intro hSame
  obtain ⟨k, hAbandon⟩ := m.abandon_eq a
  have hReading : m.reading now = (.closed, m.counts) := by
    simp [reading, refresh_of_not_expired hWindow, hClosed]
  rw [hReading, record_eq, refresh_of_not_expired hWindow, if_pos hGeneration, hAbandon] at hSame
  by_cases hTrips : ({ m with trialsInFlight := k } : Machine).Trips
  · have hState := congrArg Prod.fst hSame
    rw [count_failure_of_trips hTrips] at hState
    have hNe : ({ m with trialsInFlight := k } : Machine).state ≠ .opened := by simp [hClosed]
    rw [reading, state_refresh, setState_of_ne hNe] at hState
    split at hState <;> cases hState
  · have hUp := (consecutiveFailures_of_not_trips (m := { m with trialsInFlight := k }) hClosed
      hTrips).1
    have hCounts := congrArg Prod.snd hSame
    rw [count_failure_of_not_trips hTrips, reading, refresh_of_not_expired (by exact hWindow)]
      at hCounts
    have hFailures := congrArg Counts.consecutiveFailures hCounts
    simp only [hUp] at hFailures
    omega

end Machine

namespace CircuitBreaker

/-- The state and the counts of a breaker as they are read at an instant. -/
def reading (b : CircuitBreaker) (now : Nat) : State × Counts := b.machine.reading now

theorem reading_after (b : CircuitBreaker) (m : Machine) (now : Nat) :
    (b.after m).reading now = m.reading now :=
  Machine.reading_congr (m := m) (by rfl) (by rfl) (by rfl) now

end CircuitBreaker

end Gatehouse.Breaker
