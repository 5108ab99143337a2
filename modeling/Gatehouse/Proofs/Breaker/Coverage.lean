import Gatehouse.Proofs.Breaker.Publication

/-!
# Trials are covered by open calls

Whoever keeps the admissions of the calls that are still open can account for every trial of a
breaker: there are never more of them than open trial calls of the present generation. Unlike the
exact count, this needs no bound on the number of generations, and it is enough to know that a
breaker without open calls has no trial under way.

* `covered_tryAcquire`, `covered_record`, `covered_drop`: what the operations of a breaker leave.
-/

namespace Gatehouse.Breaker

/-- Whether a call takes the place of a trial in a generation. -/
def Admission.isTrialOf (generation : UInt64) (a : Admission) : Bool :=
  a.trial && a.generation == generation

namespace Machine

/-- The trials of a machine are among some open calls. -/
def Covered (m : Machine) (calls : List Admission) : Prop :=
  m.trialsInFlight ≤ calls.countP (Admission.isTrialOf m.generation)

variable {m : Machine} {calls : List Admission} {now : Nat}

theorem Covered.trialsInFlight_eq (h : m.Covered []) : m.trialsInFlight = 0 :=
  Nat.eq_zero_of_le_zero h

theorem Covered.congr {calls' : List Admission} (h : m.Covered calls)
    (hPerm : calls.Perm calls') : m.Covered calls' := by
  unfold Covered
  rw [← hPerm.countP_eq]
  exact h

theorem covered_of_trialsInFlight (h : m.trialsInFlight = 0) (calls : List Admission) :
    m.Covered calls := by
  unfold Covered
  rw [h]
  exact Nat.zero_le _

/-- A new generation has no trials, and the calls of the present one stay what they are. -/
theorem covered_turn {m' : Machine} (h : m.Covered calls) (hTurn : Turn now m m') :
    m'.Covered calls := by
  cases hTurn with
  | kept c eq =>
    rw [eq]
    exact h
  | window closed eq =>
    rw [eq]
    exact covered_of_trialsInFlight rfl calls
  | change next ne eq =>
    rw [eq, setState_of_ne ne]
    exact covered_of_trialsInFlight rfl calls

theorem covered_refresh (h : m.Covered calls) (now : Nat) : (m.refresh now).Covered calls :=
  covered_turn h (turn_refresh m now)

/-- Closing a call gives the place of its trial back, if it has one. -/
theorem covered_abandon {a : Admission} (h : m.Covered (a :: calls)) :
    (m.abandon a).Covered calls := by
  unfold Covered at h ⊢
  rw [List.countP_cons] at h
  by_cases hGeneration : a.generation = m.generation
  · rw [abandon_of_eq hGeneration]
    simp only [Admission.isTrialOf, hGeneration, beq_self_eq_true, Bool.and_true] at h ⊢
    omega
  · rw [abandon_of_ne hGeneration]
    simpa [Admission.isTrialOf, hGeneration] using h

theorem covered_record {a : Admission} (h : m.Covered (a :: calls)) (v : Verdict) (now : Nat) :
    (m.record a v now).Covered calls := by
  have hAbandon := covered_abandon (covered_refresh h now)
  rw [record_eq]
  split
  · exact covered_turn hAbandon (turn_count _ v now)
  · exact hAbandon

theorem covered_admitted (h : m.Covered calls) :
    m.admitted.Covered (⟨m.generation, decide (m.state = .halfOpen)⟩ :: calls) := by
  unfold Covered at h ⊢
  rw [List.countP_cons]
  by_cases hState : m.state = .halfOpen
  · simp only [admitted, hState, if_true, Admission.isTrialOf, decide_true, beq_self_eq_true,
      Bool.and_true]
    exact Nat.succ_le_succ h
  · simp only [admitted, hState, if_false]
    exact Nat.le_add_right_of_le h

/-- The calls that are open after a request for one was answered. -/
def openedBy (calls : List Admission) {ε : Type} : Except ε Admission → List Admission
  | .ok a => a :: calls
  | .error _ => calls

theorem covered_acquire (h : m.Covered calls) (now : Nat) :
    (m.acquire now).2.Covered (openedBy calls (m.acquire now).1) := by
  have hRefresh := covered_refresh h now
  rcases acquire_cases m now with ⟨-, hEq⟩ | ⟨-, hEq⟩ | ⟨-, -, hEq⟩
  · rw [hEq]
    exact hRefresh
  · rw [hEq]
    exact hRefresh
  · rw [hEq]
    exact covered_admitted hRefresh

end Machine

namespace CircuitBreaker

variable {b : CircuitBreaker} {calls : List Admission}

/-- Publishing leaves trials and calls alone. -/
theorem covered_after {m : Machine} (h : m.Covered calls) : (b.after m).machine.Covered calls := h

theorem covered_tryAcquire (h : b.machine.Covered calls) (now : Nat) :
    (b.tryAcquire now).2.1.machine.Covered (Machine.openedBy calls (b.tryAcquire now).1) := by
  have hAcquire := Machine.covered_acquire h now
  rw [tryAcquire_eq]
  cases hAnswer : (b.machine.acquire now).1 with
  | ok a =>
    rw [hAnswer] at hAcquire
    exact covered_after hAcquire
  | error reason =>
    rw [hAnswer] at hAcquire
    exact covered_after hAcquire

theorem covered_record {a : Admission} (h : b.machine.Covered (a :: calls)) (v : Verdict)
    (now : Nat) : (b.record a v now).1.machine.Covered calls := by
  rw [record_eq]
  exact covered_after (Machine.covered_record h v now)

theorem covered_drop {a : Admission} (h : b.machine.Covered (a :: calls)) :
    (b.drop a).1.machine.Covered calls := by
  rw [drop_eq]
  exact covered_after (Machine.covered_abandon h)

theorem covered_state (h : b.machine.Covered calls) (now : Nat) :
    (b.state now).2.1.machine.Covered calls := by
  rw [state_eq]
  exact covered_after (Machine.covered_refresh h now)

theorem covered_counts (h : b.machine.Covered calls) (now : Nat) :
    (b.counts now).2.1.machine.Covered calls := by
  rw [counts_eq]
  exact covered_after (Machine.covered_refresh h now)

end CircuitBreaker

end Gatehouse.Breaker
