import Gatehouse.Telemetry.Journal

/-!
# What a scrape shows of one series

The readings of a list of measurements hold one reading for each series. What they hold for a
series is decided by the measurements of that series alone, each of which updates what was shown
before it. A gauge therefore shows the last value that it was set to.

* `lookup_readings`, `lookup_readings_concat`: the reading of a series, and one more measurement.
* `Journal.slotGauge_append_measure`: the gauge of the slots in use.
-/

namespace Gatehouse

theorem lookup_takeIn (m : Measurement) (shown : List (Series × Reading)) (s : Series) :
    (takeIn m shown).lookup s =
      if m.series = s then some (m.update (shown.lookup s)) else shown.lookup s := by
  induction shown with
  | nil =>
    by_cases hSeries : m.series = s
    · simp [takeIn, hSeries]
    · have hOther : (s == m.series) = false := beq_false_of_ne fun h => hSeries h.symm
      simp [takeIn, List.lookup_cons, hSeries, hOther]
  | cons entry rest ih =>
    obtain ⟨s', reading⟩ := entry
    by_cases hHere : s' = m.series
    · subst hHere
      by_cases hSeries : m.series = s
      · simp [takeIn, hSeries]
      · have hOther : (s == m.series) = false := beq_false_of_ne fun h => hSeries h.symm
        simp [takeIn, List.lookup_cons, hSeries, hOther]
    · by_cases hSame : s = s'
      · subst hSame
        have hNot : m.series ≠ s := fun h => hHere h.symm
        simp [takeIn, hHere, hNot]
      · have hOther : (s == s') = false := beq_false_of_ne hSame
        simp [takeIn, List.lookup_cons, hHere, hOther, ih]

/-- The reading of a series is what its own measurements make of it, one after the other. -/
theorem lookup_readings (ms : List Measurement) (s : Series) :
    (readings ms).lookup s =
      (ms.filter fun m => m.series = s).foldl (fun shown m => some (m.update shown)) none := by
  have hFrom : ∀ shown : List (Series × Reading),
      (ms.foldl (fun shown m => takeIn m shown) shown).lookup s =
        (ms.filter fun m => m.series = s).foldl (fun shown m => some (m.update shown))
          (shown.lookup s) := by
    induction ms with
    | nil => exact fun _ => rfl
    | cons m ms ih =>
      intro shown
      rw [List.foldl_cons, ih, lookup_takeIn]
      by_cases hSeries : m.series = s <;> simp [hSeries]
  exact hFrom []

theorem lookup_readings_concat (ms : List Measurement) (m : Measurement) (s : Series) :
    (readings (ms ++ [m])).lookup s =
      if m.series = s then some (m.update ((readings ms).lookup s)) else (readings ms).lookup s := by
  rw [readings, List.foldl_append]
  exact lookup_takeIn m _ s

namespace Journal

/-- What a scrape shows of the slots in use of a bulkhead, if it shows anything. -/
def slotGauge (j : Journal) : Option Reading :=
  (readings j.measurements).lookup (Measurement.bulkheadInFlight 0).series

theorem measurements_append (j j' : Journal) :
    (j ++ j').measurements = j.measurements ++ j'.measurements := List.filterMap_append

/-- The gauge shows the value that it was set to last. -/
theorem slotGauge_append_measure (j : Journal) (count : Nat) :
    (j ++ [.measure (.bulkheadInFlight count)] : Journal).slotGauge = some (.gauge count) := by
  have hSeries : (Measurement.bulkheadInFlight count).series =
      (Measurement.bulkheadInFlight 0).series := rfl
  have hLast : Journal.measurements [.measure (.bulkheadInFlight count)] =
      [.bulkheadInFlight count] := rfl
  rw [slotGauge, lookup_readings, measurements_append, hLast, List.filter_append,
    List.foldl_append]
  simp [hSeries, Measurement.update]

end Journal

end Gatehouse
