import Gatehouse.Pipeline.Gates
import Mathlib.Data.List.Nodup

/-!
# The stages of an assembled pipeline

A pipeline is built from registrations in any order. It has the stages that were registered, less
those whose gate is missing, in the order of their places. Among the usual stages, each registered
at most once, that leaves no choice: recovery is outermost, the gates follow, and inside of the
logging stage there are checks and translations.

* `interceptors_build_perm`: which stages there are.
* `interceptors_build_pairwise`: in which order, if no two share a place.
* `pipeline_eq_build`, `nodup_usualStages`: the pipeline of a configuration is built this way.
-/

namespace Gatehouse.Pipeline

theorem map_stage?_register (g : Gates) (stages : List Interceptor) :
    (stages.map g.register).filterMap Registration.stage? =
      (stages.filter g.provides).map fun i => ⟨i.priority, i.name, i⟩ := by
  rw [List.filterMap_map]
  induction stages with
  | nil => rfl
  | cons i stages ih =>
    have hStage : (Registration.stage? ∘ g.register) i =
        if g.provides i then some ⟨i.priority, i.name, i⟩ else none := by
      cases hProvides : g.provides i <;>
        simp [Gates.register, Registration.usual, Registration.stage?, hProvides]
    rw [List.filterMap_cons, List.filter_cons, hStage, ih]
    cases g.provides i <;> rfl

/-- A pipeline has the stages that were registered, without those whose gate is missing. -/
theorem interceptors_build_perm (g : Gates) (stages : List Interceptor) :
    (Pipeline.build (stages.map g.register)).interceptors.Perm (stages.filter g.provides) := by
  have hPerm := (List.mergeSort_perm ((stages.map g.register).filterMap Registration.stage?)
    fun a b => a.priority ≤ b.priority).map Stage.interceptor
  have hSame : ((stages.map g.register).filterMap Registration.stage?).map Stage.interceptor =
      stages.filter g.provides := by
    rw [map_stage?_register, List.map_map]
    exact List.map_id _
  rw [hSame] at hPerm
  exact hPerm

/-- Stages that are registered in their order stay in it. -/
theorem interceptors_build_of_pairwise (g : Gates) {stages : List Interceptor}
    (h : stages.Pairwise fun a b => a.priority ≤ b.priority) :
    (Pipeline.build (stages.map g.register)).interceptors = stages.filter g.provides := by
  have hSorted : ((stages.filter g.provides).map fun i : Interceptor =>
      (⟨i.priority, i.name, i⟩ : Stage)).Pairwise
      fun a b => decide (a.priority ≤ b.priority) = true := by
    rw [List.pairwise_map]
    exact (h.filter _).imp fun hLe => decide_eq_true hLe
  unfold Pipeline.build Pipeline.interceptors
  simp only [map_stage?_register]
  rw [List.mergeSort_of_pairwise hSorted, List.map_map]
  exact List.map_id _

theorem interceptors_build_sorted (g : Gates) (stages : List Interceptor) :
    (Pipeline.build (stages.map g.register)).interceptors.Pairwise fun a b =>
      a.priority ≤ b.priority := by
  have hSorted : (((stages.map g.register).filterMap Registration.stage?).mergeSort
      fun a b => a.priority ≤ b.priority).Pairwise
      fun a b => decide (a.priority ≤ b.priority) = true := by
    refine List.pairwise_mergeSort ?_ ?_ _
    · intro a b c hab hbc
      have hLe := Int.le_trans (of_decide_eq_true hab) (of_decide_eq_true hbc)
      exact decide_eq_true hLe
    · intro a b
      rcases Int.le_total a.priority b.priority with hLe | hLe <;> simp [hLe]
  have hPlace : ∀ s ∈ ((stages.map g.register).filterMap Registration.stage?).mergeSort
      fun a b => a.priority ≤ b.priority, s.priority = s.interceptor.priority := by
    intro s hs
    rw [List.mem_mergeSort, map_stage?_register] at hs
    obtain ⟨i, -, rfl⟩ := List.mem_map.mp hs
    rfl
  unfold Pipeline.build Pipeline.interceptors
  rw [List.pairwise_map]
  refine hSorted.imp_of_mem ?_
  intro a b ha hb hLe
  rw [← hPlace a ha, ← hPlace b hb]
  exact of_decide_eq_true hLe

/-- Stages of different places stand in the strict order of their places. -/
theorem interceptors_build_pairwise (g : Gates) {stages : List Interceptor}
    (hPlaces : (stages.map Interceptor.priority).Nodup) :
    (Pipeline.build (stages.map g.register)).interceptors.Pairwise fun a b =>
      a.priority < b.priority := by
  have hFiltered : ((stages.filter g.provides).map Interceptor.priority).Nodup :=
    (List.filter_sublist.map _).nodup hPlaces
  have hDistinct := ((interceptors_build_perm g stages).map Interceptor.priority).nodup_iff.mpr
    hFiltered
  have hDifferent := List.pairwise_map.mp hDistinct
  refine ((interceptors_build_sorted g stages).and hDifferent).imp ?_
  rintro a b ⟨hLe, hNe⟩
  omega

/-! ## The pipeline of a configuration -/

/-- The stages that a configuration asks for; those of the gates are there in any case. -/
def usualStages (c : Config.Admission) : List Interceptor :=
  (if c.recoverPanics then [.panicRecovery] else []) ++
  (if c.requestTimeoutMs = 0 then []
    else [.timeout (Duration.ofMillis c.requestTimeoutMs.toNat)]) ++
  [.rateLimit, .circuitBreaker, .bulkhead, .requestLogging]

theorem pipeline_eq_build (g : Gates) (c : Config.Admission) :
    g.pipeline c = .build ((usualStages c).map g.register) := by
  unfold Gates.pipeline usualStages
  by_cases hRecovery : c.recoverPanics <;> by_cases hTimeout : c.requestTimeoutMs = 0 <;>
    simp only [hRecovery, hTimeout, if_true, if_false, Bool.false_eq_true] <;> rfl

theorem nodup_usualStages (c : Config.Admission) :
    ((usualStages c).map Interceptor.priority).Nodup := by
  unfold usualStages
  by_cases hRecovery : c.recoverPanics <;> by_cases hTimeout : c.requestTimeoutMs = 0 <;>
    simp [hRecovery, hTimeout, Interceptor.priority]

end Gatehouse.Pipeline
