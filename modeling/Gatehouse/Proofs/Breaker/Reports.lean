import Gatehouse.Proofs.Breaker.Publication
import Gatehouse.Proofs.Telemetry.Readings
import Mathlib.Data.List.Induction

/-!
# What a scrape shows of a breaker

The report of a change of state counts the change and sets the gauge to the level of the new
state. After the reports of some changes the counters show how often each change is among them, in
whatever order they were made, and the gauge shows the last of them only.

* `Journal.transitionCounter_reports`, `Journal.stateGauge_reports`.
-/

namespace Gatehouse.Breaker

theorem State.name_injective {s s' : State} (h : s.name = s'.name) : s = s' := by
  revert h
  cases s <;> cases s' <;> decide

theorem State.level_injective {s s' : State} (h : s.level = s'.level) : s = s' := by
  revert h
  cases s <;> cases s' <;> decide

theorem series_breakerTransition (name : String) (t t' : Transition) :
    (Measurement.breakerTransition name t).series = (Measurement.breakerTransition name t').series ↔
      t = t' := by
  constructor
  · intro h
    simp only [Measurement.series, Series.mk.injEq, List.cons.injEq, Prod.mk.injEq, true_and,
      and_true] at h
    obtain ⟨source, target⟩ := t
    obtain ⟨source', target'⟩ := t'
    rw [Transition.mk.injEq]
    exact ⟨State.name_injective h.1, State.name_injective h.2⟩
  · rintro rfl
    rfl

end Gatehouse.Breaker

namespace Gatehouse.Journal

open Breaker Breaker.CircuitBreaker

/-- What a scrape shows of a change of state of a breaker, if it shows anything. -/
def transitionCounter (j : Journal) (name : String) (t : Transition) : Option Reading :=
  (readings j.measurements).lookup (Measurement.breakerTransition name t).series

/-- What a scrape shows of the state of a breaker, if it shows anything. -/
def stateGauge (j : Journal) (name : String) : Option Reading :=
  (readings j.measurements).lookup (Measurement.breakerState name .closed).series

theorem measurements_append_report (j : Journal) (name : String) (t : Transition) :
    (j ++ report name t).measurements =
      (j.measurements ++ [.breakerTransition name t]) ++ [.breakerState name t.target] := by
  rw [measurements_append, List.append_assoc]
  rfl

theorem flatMap_concat_report (name : String) (ts : List Transition) (t : Transition) :
    (ts ++ [t]).flatMap (report name) = ts.flatMap (report name) ++ report name t := by
  simp

theorem transitionCounter_append_report (j : Journal) (name : String) (t t' : Transition) :
    (j ++ report name t').transitionCounter name t =
      if t' = t then some ((Measurement.breakerTransition name t').update (j.transitionCounter name t))
      else j.transitionCounter name t := by
  have hGauge : (Measurement.breakerState name t'.target).series ≠
      (Measurement.breakerTransition name t).series := by
    simp [Measurement.series]
  rw [transitionCounter, measurements_append_report, lookup_readings_concat, if_neg hGauge,
    lookup_readings_concat]
  simp only [series_breakerTransition]
  rfl

/-- A counter shows how often its change was reported. -/
theorem transitionCounter_reports (name : String) (ts : List Transition) (t : Transition) :
    Journal.transitionCounter (ts.flatMap (report name)) name t =
      if ts.count t = 0 then none else some (.counter (ts.count t)) := by
  induction ts using List.reverseRecOn with
  | nil => rfl
  | append_singleton ts t' ih =>
    rw [flatMap_concat_report, transitionCounter_append_report, ih, List.count_append,
      List.count_singleton]
    by_cases hSame : t' = t
    · subst hSame
      by_cases hZero : ts.count t' = 0
      · simp [hZero, Measurement.update]
      · simp [hZero, Measurement.update]
    · have hOther : (t' == t) = false := beq_false_of_ne hSame
      simp [hSame, hOther]

/-- The gauge shows the change that was reported last. -/
theorem stateGauge_reports (name : String) (ts : List Transition) :
    Journal.stateGauge (ts.flatMap (report name)) name =
      ts.getLast?.map fun t => .gauge t.target.level := by
  induction ts using List.reverseRecOn with
  | nil => rfl
  | append_singleton ts t _ =>
    have hSeries : (Measurement.breakerState name t.target).series =
        (Measurement.breakerState name .closed).series := rfl
    rw [flatMap_concat_report, stateGauge, measurements_append_report, lookup_readings_concat,
      if_pos hSeries, List.getLast?_concat]
    rfl

end Gatehouse.Journal
