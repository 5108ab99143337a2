import Gatehouse.Readiness.Coordinator

/-!
# What a coordinator reports

A coordinator logs what it does, and measures nothing.

* `measurements_perform`: whatever a coordinator is told.
-/

namespace Gatehouse.Readiness

theorem measurements_recordTraffic (c : Coordinator) (moment : Nat) :
    Journal.measurements (c.recordTraffic moment).2 = [] := by
  unfold Coordinator.recordTraffic
  split <;> rfl

theorem measurements_notify (c : Coordinator) (moment : Nat) :
    Journal.measurements (c.notify moment).2.2 = [] := by
  unfold Coordinator.notify
  split
  · rfl
  · split
    · exact measurements_recordTraffic c moment
    · rfl

theorem measurements_add (c : Coordinator) (name : String) (moment : Nat) :
    Journal.measurements (c.add name moment).2.2 = [] := by
  unfold Coordinator.add
  split
  · rfl
  · split
    · rfl
    · cases hReady : c.isReady <;> rfl

theorem measurements_fireIfAllReady (c : Coordinator) (moment : Nat) :
    Journal.measurements (c.fireIfAllReady moment).2 = [] := by
  unfold Coordinator.fireIfAllReady
  split
  · split
    · exact measurements_recordTraffic _ moment
    · rfl
  · rfl

theorem measurements_mark (c : Coordinator) (name : String) (moment : Nat) :
    Journal.measurements (c.mark name moment).2.2 = [] := by
  unfold Coordinator.mark
  split
  · rfl
  · split
    · rfl
    · exact measurements_fireIfAllReady _ moment

theorem measurements_perform (c : Coordinator) (moment : Nat) (command : Command) :
    Journal.measurements (c.perform moment command).2.2 = [] := by
  cases command with
  | add name => exact measurements_add c name moment
  | mark name => exact measurements_mark c name moment
  | notify => exact measurements_notify c moment

end Gatehouse.Readiness
