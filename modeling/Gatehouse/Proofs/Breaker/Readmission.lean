import Gatehouse.Proofs.Breaker.Coverage
import Gatehouse.Proofs.Breaker.Trials

/-!
# A breaker is never stuck

Calls are let through again after every run: an open breaker knows when its interval ends, and the
trials of a half-open one are among the calls that are still open. No bound on the number of
generations is needed here, and the uses may come at any instants.

* `Calls.Live`: the invariant, `live_perform`, `live_run`: a use and a run keep it.
* `Calls.admits_again`: without open calls a breaker lets one in, from some instant on.
-/

namespace Gatehouse.Breaker

namespace Machine

variable {m m' : Machine} {now : Nat}

/-- An open machine knows when it becomes half-open. -/
def Ends (m : Machine) : Prop := ∃ since, Due m since

theorem ends_turn (h : m.Ends) (hTurn : Turn now m m') : m'.Ends := by
  cases hTurn with
  | kept c eq =>
    rw [eq]
    exact h
  | window closed eq =>
    rw [eq, newGeneration_eq]
    refine ⟨now, fun hOpened => ?_⟩
    rw [closed] at hOpened
    cases hOpened
  | change next ne eq =>
    rw [eq, setState_of_ne ne]
    refine ⟨now, fun hOpened => ?_⟩
    obtain rfl : next = .opened := hOpened
    rfl

theorem ends_abandon (h : m.Ends) (a : Admission) : (m.abandon a).Ends := by
  obtain ⟨k, hEq⟩ := m.abandon_eq a
  rw [hEq]
  exact h

theorem ends_record (h : m.Ends) (a : Admission) (v : Verdict) (now : Nat) :
    (m.record a v now).Ends := by
  have hAbandon := ends_abandon (ends_turn h (turn_refresh m now)) a
  rw [record_eq]
  split
  · exact ends_turn hAbandon (turn_count _ v now)
  · exact hAbandon

theorem settings_record (m : Machine) (a : Admission) (v : Verdict) (now : Nat) :
    (m.record a v now).settings = m.settings := by
  obtain ⟨k, hEq⟩ := (m.refresh now).abandon_eq a
  rw [record_eq, hEq]
  split
  · rw [(turn_count _ v now).settings_eq]
    exact settings_refresh m now
  · exact settings_refresh m now

end Machine

namespace Calls

variable {c : Calls} {settings : Settings}

/-- The admissions of the calls that have not ended. -/
def admissions (calls : List (Option Admission)) : List Admission := calls.filterMap id

def run (c : Calls) (uses : List (Nat × Use)) : Calls :=
  uses.foldl (fun c use => c.perform use.1 use.2) c

/-- Ending a call takes its admission, and no other, from those that are open. -/
theorem admissions_set {calls : List (Option Admission)} {call : Nat} {a : Admission}
    (h : calls[call]? = some (some a)) :
    (admissions calls).Perm (a :: admissions (calls.set call none)) := by
  induction calls generalizing call with
  | nil => cases h
  | cons first rest ih =>
    cases call with
    | zero =>
      obtain rfl : first = some a := Option.some.inj h
      exact .refl _
    | succ call =>
      have hRest : (admissions rest).Perm (a :: admissions (rest.set call none)) := ih h
      cases first with
      | none => exact hRest
      | some b => exact (hRest.cons b).trans (.swap a b _)

/-- The trials of the breaker are among the open calls, and if it is open it knows until when. -/
structure Live (settings : Settings) (m : Machine) (calls : List (Option Admission)) : Prop where
  settings : m.settings = settings
  covered : m.Covered (admissions calls)
  ends : m.Ends

theorem live_effect {now : Nat} {m : Machine} {calls : List (Option Admission)}
    (h : Live settings c.breaker.machine c.calls) (hEffect : Effect c now m calls) :
    Live settings m calls := by
  have hTurn := Machine.turn_refresh c.breaker.machine now
  have hEnds := Machine.ends_turn h.ends hTurn
  cases hEffect with
  | nothing => exact h
  | looked =>
    exact ⟨hTurn.settings_eq.trans h.settings, Machine.covered_turn h.covered hTurn, hEnds⟩
  | admitted room =>
    have hAdmitted := Machine.covered_admitted (Machine.covered_turn h.covered hTurn)
    refine ⟨hTurn.settings_eq.trans h.settings, hAdmitted.congr ?_, hEnds⟩
    simp only [admissions, List.filterMap_append]
    exact (List.perm_append_singleton _ _).symm
  | recorded call a v pending =>
    exact ⟨(Machine.settings_record _ a v now).trans h.settings,
      Machine.covered_record (h.covered.congr (admissions_set pending)) v now,
      Machine.ends_record h.ends a v now⟩
  | dropped call a pending =>
    obtain ⟨k, hEq⟩ := c.breaker.machine.abandon_eq a
    refine ⟨?_, Machine.covered_abandon (h.covered.congr (admissions_set pending)),
      Machine.ends_abandon h.ends a⟩
    rw [hEq]
    exact h.settings

/-- Nothing waits to be published, and the breaker is live. -/
structure Sound (settings : Settings) (c : Calls) : Prop where
  drained : c.breaker.machine.transitions = []
  live : Live settings c.breaker.machine c.calls

theorem sound_perform (h : Sound settings c) (now : Nat) (use : Use) :
    Sound settings (c.perform now use) := by
  obtain ⟨m, calls, hEffect, hBreaker, hCalls⟩ := effect_perform c h.drained now use
  obtain ⟨hSettings, hCovered, hEnds⟩ := live_effect h.live hEffect
  rw [← hCalls] at hCovered
  constructor
  · rw [hBreaker]
    rfl
  · rw [hBreaker]
    exact ⟨hSettings, hCovered, hEnds⟩

theorem sound_run (h : Sound settings c) (uses : List (Nat × Use)) :
    Sound settings (c.run uses) := by
  induction uses generalizing c with
  | nil => exact h
  | cons use rest ih => exact ih (sound_perform h use.1 use.2)

theorem sound_start (name : String) (settings : Settings) (now : Nat) :
    Sound settings (start (CircuitBreaker.create name settings now)) :=
  ⟨rfl, rfl, Machine.covered_of_trialsInFlight rfl _, ⟨now, nofun⟩⟩

/-- Once all calls have ended, a breaker that allows trials lets a call in, from some instant
on. -/
theorem admits_again (h : Sound settings c) (hAllowed : 1 ≤ settings.halfOpenMaxCalls.toNat)
    (hEnded : ∀ call ∈ c.calls, call = none) :
    ∃ ready, ∀ now, ready ≤ now → ∃ call, ({ c with now := now }.acquire).1 = .ok call := by
  obtain ⟨since, hDue⟩ := h.live.ends
  have hNobody : admissions c.calls = [] := by
    rw [admissions, List.filterMap_eq_nil_iff]
    exact hEnded
  have hCovered := h.live.covered
  rw [hNobody] at hCovered
  refine ⟨since + settings.openInterval, fun now hReady => ?_⟩
  obtain ⟨a, hAdmitted⟩ := @acquire_ok _ since now hDue (h.live.settings ▸ hAllowed)
    (fun _ => hCovered.trialsInFlight_eq) (fun _ => h.live.settings ▸ hReady)
  refine ⟨c.calls.length, ?_⟩
  simp only [acquire, CircuitBreaker.tryAcquire_eq, hAdmitted]
  rfl

end Calls

end Gatehouse.Breaker
