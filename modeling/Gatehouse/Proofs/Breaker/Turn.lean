import Mathlib.Algebra.Group.Nat.Defs
import Gatehouse.Breaker.Machine

/-!
# How a machine turns from one generation to the next

Every operation on a machine is made of two parts: what time alone brings, and what the call
brings. Each part either keeps the generation or turns the machine over to the next one, where
counts and trials begin at zero (`Turn`). A turn is a change of state, which is noted among the
transitions, or the end of a counting window, which is not.

* `turn_refresh`: what time alone can do.
* `acquire_cases`: an admission, or one of the two refusals.
* `record_eq`: a verdict gives the place of its trial back and is counted, or it is discarded.
* `generationOf_eq_iff`: the generations of a run are told apart as long as the numbers last.
-/

namespace Gatehouse.Breaker

/-! ## Numbers of generations -/

/-- The number of the `n`-th generation; a machine begins with the first. -/
def generationOf (n : Nat) : UInt64 := UInt64.ofNat n

theorem generationOf_succ (n : Nat) : generationOf n + 1 = generationOf (n + 1) := by
  simp [generationOf]

/-- The numbers before and after an operation tell how many generations it began. -/
theorem generationOf_sub (n : Nat) {j : Nat} (hj : j ≤ 2) :
    (generationOf (n + j) - generationOf n).toNat = j := by
  have hMod : (n + j + (2 ^ 64 - n % 2 ^ 64)) % 2 ^ 64 = j := by omega
  simp only [generationOf, UInt64.toNat_sub, UInt64.toNat_ofNat']
  omega

/-- Among generations that were begun, and of which there are no more than numbers, a number
stands for one generation only. -/
theorem generationOf_eq_iff {k n : Nat} (hk : 0 < k) (hKn : k ≤ n) (hn : n ≤ 2 ^ 64) :
    generationOf k = generationOf n ↔ k = n := by
  constructor
  · intro h
    have hMod : k % 2 ^ 64 = n % 2 ^ 64 := by
      simpa [generationOf] using congrArg UInt64.toNat h
    omega
  · rintro rfl
    rfl

namespace Machine

/-! ## The two ways of beginning a generation -/

theorem newGeneration_eq (m : Machine) (now : Nat) :
    m.newGeneration now = ⟨m.settings, m.state, m.generation + 1, .zero,
      expiryOf m.settings m.state now, 0, m.transitions⟩ := rfl

theorem setState_of_ne {m : Machine} {next : State} (h : m.state ≠ next) (now : Nat) :
    m.setState next now = ⟨m.settings, next, m.generation + 1, .zero,
      expiryOf m.settings next now, 0, m.transitions ++ [⟨m.state, next⟩]⟩ := by
  unfold setState
  rw [if_neg h]
  rfl

/-- A closed machine in its first generation. -/
theorem create_eq (settings : Settings) (now : Nat) :
    create settings now = ⟨settings, .closed, generationOf 1, .zero,
      expiryOf settings .closed now, 0, []⟩ := rfl

/-- What a part of an operation at time `now` does to a machine. -/
inductive Turn (now : Nat) (m m' : Machine) : Prop where
  /-- The generation goes on; something may have been counted. -/
  | kept (c : Counts) (eq : m' = { m with counts := c })
  /-- A closed machine begins its next window. -/
  | window (closed : m.state = .closed) (eq : m' = m.newGeneration now)
  /-- The machine goes over to another state. -/
  | change (next : State) (ne : m.state ≠ next) (eq : m' = m.setState next now)

/-! ## What time alone brings -/

theorem refresh_of_not_expired {m : Machine} {now : Nat} (h : m.expired now = false) :
    m.refresh now = m := by
  simp [refresh, h]

theorem refresh_of_closed {m : Machine} {now : Nat} (hs : m.state = .closed)
    (h : m.expired now = true) : m.refresh now = m.newGeneration now := by
  simp [refresh, h, hs]

theorem refresh_of_opened {m : Machine} {now : Nat} (hs : m.state = .opened)
    (h : m.expired now = true) : m.refresh now = m.setState .halfOpen now := by
  simp [refresh, h, hs]

theorem refresh_of_halfOpen {m : Machine} {now : Nat} (hs : m.state = .halfOpen) :
    m.refresh now = m := by
  unfold refresh
  rw [hs]
  split <;> rfl

theorem turn_refresh (m : Machine) (now : Nat) : Turn now m (m.refresh now) := by
  cases h : m.expired now with
  | false => exact .kept m.counts (refresh_of_not_expired h)
  | true =>
    cases hs : m.state with
    | closed => exact .window hs (refresh_of_closed hs h)
    | opened => exact .change .halfOpen (by simp [hs]) (refresh_of_opened hs h)
    | halfOpen => exact .kept m.counts (refresh_of_halfOpen hs)

namespace Turn

variable {now : Nat} {m m' : Machine}

theorem settings_eq (h : Turn now m m') : m'.settings = m.settings := by
  cases h with
  | kept c eq => rw [eq]
  | window _ eq => rw [eq, newGeneration_eq]
  | change next ne eq => rw [eq, setState_of_ne ne]

end Turn

theorem settings_refresh (m : Machine) (now : Nat) : (m.refresh now).settings = m.settings :=
  (turn_refresh m now).settings_eq

/-! ## What a call brings -/

/-- The machine once it has let a call in. -/
def admitted (m : Machine) : Machine :=
  { m with
    trialsInFlight := if m.state = .halfOpen then m.trialsInFlight + 1 else m.trialsInFlight
    counts := m.counts.onRequest }

/-- Whether a half-open machine has as many trials under way as it allows. -/
def Crowded (m : Machine) : Prop :=
  m.state = .halfOpen ∧ m.settings.halfOpenMaxCalls.toNat ≤ m.trialsInFlight

theorem acquire_of_opened {m : Machine} {now : Nat} (h : (m.refresh now).state = .opened) :
    m.acquire now = (.error .opened, m.refresh now) := by
  simp [acquire, h]

theorem acquire_of_crowded {m : Machine} {now : Nat} (h : (m.refresh now).Crowded) :
    m.acquire now = (.error .tooManyTrials, m.refresh now) := by
  obtain ⟨hs, hFull⟩ := h
  simp only [settings_refresh] at hFull
  simp [acquire, hs, hFull, settings_refresh]

theorem acquire_of_room {m : Machine} {now : Nat} (hs : (m.refresh now).state ≠ .opened)
    (hc : ¬ (m.refresh now).Crowded) :
    m.acquire now = (.ok ⟨(m.refresh now).generation, decide ((m.refresh now).state = .halfOpen)⟩,
      (m.refresh now).admitted) := by
  unfold acquire
  revert hs hc
  generalize m.refresh now = r
  intro hs hc
  cases hr : r.state with
  | opened => exact absurd hr hs
  | closed => simp [hr, admitted]
  | halfOpen =>
    have hRoom : ¬ r.settings.halfOpenMaxCalls.toNat ≤ r.trialsInFlight := fun h => hc ⟨hr, h⟩
    simp [hr, hRoom, admitted]

/-- The answer to a request for a call is settled by the state after what time alone brought. -/
theorem acquire_cases (m : Machine) (now : Nat) :
    (m.refresh now).state = .opened ∧ m.acquire now = (.error .opened, m.refresh now) ∨
    (m.refresh now).Crowded ∧ m.acquire now = (.error .tooManyTrials, m.refresh now) ∨
    (m.refresh now).state ≠ .opened ∧ ¬ (m.refresh now).Crowded ∧
      m.acquire now = (.ok ⟨(m.refresh now).generation, decide ((m.refresh now).state = .halfOpen)⟩,
        (m.refresh now).admitted) := by
  by_cases hs : (m.refresh now).state = .opened
  · exact .inl ⟨hs, acquire_of_opened hs⟩
  · by_cases hc : (m.refresh now).Crowded
    · exact .inr (.inl ⟨hc, acquire_of_crowded hc⟩)
    · exact .inr (.inr ⟨hs, hc, acquire_of_room hs hc⟩)

/-- What the verdict on a call of the present generation does, once the place of its trial has
been given back. -/
def count (m : Machine) (v : Verdict) (now : Nat) : Machine :=
  match v with
  | .success => m.onSuccess now
  | .failure => m.onFailure now
  | .ignored => m

/-- A verdict gives the place of its trial back, as an abandoned call does, and is then counted if
its generation is the present one. -/
theorem record_eq (m : Machine) (a : Admission) (v : Verdict) (now : Nat) :
    m.record a v now =
      if a.generation = (m.refresh now).generation then ((m.refresh now).abandon a).count v now
      else (m.refresh now).abandon a := by
  unfold record abandon count
  by_cases h : a.generation = (m.refresh now).generation
  · cases v <;> simp only [h, if_true]
  · simp only [h, if_false]

theorem abandon_of_ne {m : Machine} {a : Admission} (h : a.generation ≠ m.generation) :
    m.abandon a = m := by
  simp [abandon, h]

theorem abandon_of_eq {m : Machine} {a : Admission} (h : a.generation = m.generation) :
    m.abandon a = { m with
      trialsInFlight := m.trialsInFlight - if a.trial then 1 else 0 } := by
  unfold abandon settleTrial
  rw [if_pos h]
  split <;> rfl

/-- An abandoned call can only free the place of a trial. -/
theorem abandon_eq (m : Machine) (a : Admission) :
    ∃ n, m.abandon a = { m with trialsInFlight := n } := by
  by_cases h : a.generation = m.generation
  · exact ⟨_, abandon_of_eq h⟩
  · exact ⟨m.trialsInFlight, abandon_of_ne h⟩

/-- A verdict that is ignored abandons the call. -/
theorem record_ignored_eq (m : Machine) (a : Admission) (now : Nat) :
    m.record a .ignored now = (m.refresh now).abandon a := by
  rw [record_eq]
  split <;> rfl

theorem transitions_abandon (m : Machine) (a : Admission) :
    (m.abandon a).transitions = m.transitions := by
  obtain ⟨n, hAbandon⟩ := m.abandon_eq a
  rw [hAbandon]

/-- Whether a failure opens the machine. -/
def Trips (m : Machine) : Prop :=
  m.state = .halfOpen ∨ m.state = .closed ∧
    m.settings.failureThreshold.toNat ≤ m.counts.onFailure.consecutiveFailures

theorem setState_counts {m : Machine} {next : State} (h : m.state ≠ next) (c : Counts)
    (now : Nat) : setState { m with counts := c } next now = m.setState next now := by
  rw [setState_of_ne h, setState_of_ne (m := { m with counts := c }) h]

theorem count_success_of_halfOpen {m : Machine} (h : m.state = .halfOpen) (now : Nat) :
    m.count .success now = m.setState .closed now := by
  rw [← setState_counts (by simp [h]) m.counts.onSuccess]
  simp [count, onSuccess, h]

theorem count_success_of_ne {m : Machine} (h : m.state ≠ .halfOpen) (now : Nat) :
    m.count .success now = { m with counts := m.counts.onSuccess } := by
  unfold count onSuccess
  cases hs : m.state with
  | halfOpen => exact absurd hs h
  | closed => rfl
  | opened => rfl

theorem count_failure_of_trips {m : Machine} (h : m.Trips) (now : Nat) :
    m.count .failure now = m.setState .opened now := by
  rcases h with hs | ⟨hs, hLe⟩
  · rw [← setState_counts (by simp [hs]) m.counts.onFailure]
    simp [count, onFailure, hs]
  · rw [← setState_counts (by simp [hs]) m.counts.onFailure]
    simp [count, onFailure, hs, hLe]

theorem count_failure_of_not_trips {m : Machine} (h : ¬ m.Trips) (now : Nat) :
    m.count .failure now = { m with counts := m.counts.onFailure } := by
  unfold count onFailure
  cases hs : m.state with
  | halfOpen => exact absurd (.inl hs) h
  | opened => rfl
  | closed =>
    have hLt : ¬ m.settings.failureThreshold.toNat ≤ m.counts.onFailure.consecutiveFailures :=
      fun hLe => h (.inr ⟨hs, hLe⟩)
    simp [hLt]

/-- A failure that does not open a closed machine is one more failure in a row. -/
theorem consecutiveFailures_of_not_trips {m : Machine} (hClosed : m.state = .closed)
    (h : ¬ m.Trips) :
    m.counts.onFailure.consecutiveFailures = m.counts.consecutiveFailures + 1 ∧
      m.counts.onFailure.consecutiveFailures < m.settings.failureThreshold.toNat := by
  have hBelow : m.counts.onFailure.consecutiveFailures < m.settings.failureThreshold.toNat :=
    Nat.lt_of_not_le fun hLe => h (.inr ⟨hClosed, hLe⟩)
  have hBound : m.settings.failureThreshold.toNat < 4294967296 :=
    UInt32.toNat_lt m.settings.failureThreshold
  refine ⟨?_, hBelow⟩
  simp only [Counts.onFailure, countUp, countLimit] at hBelow ⊢
  omega

/-- A verdict is counted, or moves the machine to another state. -/
theorem turn_count (m : Machine) (v : Verdict) (now : Nat) : Turn now m (m.count v now) := by
  cases v with
  | ignored => exact .kept m.counts rfl
  | success =>
    by_cases h : m.state = .halfOpen
    · exact .change .closed (by simp [h]) (count_success_of_halfOpen h now)
    · exact .kept _ (count_success_of_ne h now)
  | failure =>
    by_cases h : m.Trips
    · refine .change .opened ?_ (count_failure_of_trips h now)
      rcases h with h | h <;> simp [h]
    · exact .kept _ (count_failure_of_not_trips h now)

end Machine

end Gatehouse.Breaker
