import Gatehouse.Proofs.Breaker.Turn

/-!
# Admissions that are used again

Nothing keeps a caller from using an admission twice, or long after its generation has ended, and
the clock that a machine is told may run backwards. Its counts stay within what its state allows all
the same. An open machine gives no admissions, so that there are none of its generation, and the
admissions of other generations do nothing. A half-open machine leaves its state with the first
verdict that it hears.

* `Machine.Coherent`: what the state of a machine allows its counts to be.
* `Handled`: a machine, with all the admissions that it has given.
* `Kept`: the invariant, over the machine and the generations of the admissions.
* `counts_coherent`: the counts are coherent, and earlier admissions do nothing.
-/

namespace Gatehouse.Breaker

/-! ## Coherent counts -/

/-- The counts of a machine are among those that its state allows. -/
structure Machine.Coherent (m : Machine) : Prop where
  opened : m.state = .opened → m.counts = .zero ∧ m.trialsInFlight = 0
  halfOpen : m.state = .halfOpen →
    m.counts.totalSuccesses = 0 ∧ m.counts.totalFailures = 0 ∧
    m.counts.consecutiveSuccesses = 0 ∧ m.counts.consecutiveFailures = 0 ∧
    m.trialsInFlight ≤ m.settings.halfOpenMaxCalls.toNat
  closed : m.state = .closed → m.trialsInFlight = 0 ∧
    m.counts.consecutiveFailures < max 1 m.settings.failureThreshold.toNat
  /-- The last verdicts were not successes and failures at once. -/
  exclusive : m.counts.consecutiveSuccesses = 0 ∨ m.counts.consecutiveFailures = 0
  successes : m.counts.consecutiveSuccesses ≤ m.counts.totalSuccesses
  failures : m.counts.consecutiveFailures ≤ m.counts.totalFailures

namespace Machine

variable {m : Machine}

theorem countUp_le {k n : Nat} (h : k ≤ n) : countUp k ≤ countUp n := by
  simp only [countUp]
  omega

/-- At the beginning of a generation everything is zero. -/
theorem coherent_of_zero (hCounts : m.counts = .zero) (hTrials : m.trialsInFlight = 0) :
    m.Coherent where
  opened _ := ⟨hCounts, hTrials⟩
  halfOpen _ := by
    rw [hCounts, hTrials]
    exact ⟨rfl, rfl, rfl, rfl, Nat.zero_le _⟩
  closed _ := by
    rw [hCounts]
    exact ⟨hTrials, Nat.lt_of_lt_of_le Nat.one_pos (Nat.le_max_left _ _)⟩
  exclusive := by
    rw [hCounts]
    exact .inl rfl
  successes := by
    rw [hCounts]
    exact Nat.le_refl _
  failures := by
    rw [hCounts]
    exact Nat.le_refl _

/-- Fewer trials under way are allowed where more are. -/
theorem Coherent.lower (h : m.Coherent) {n : Nat} (hLe : n ≤ m.trialsInFlight) :
    Coherent { m with trialsInFlight := n } where
  opened hOpened := ⟨(h.opened hOpened).1, Nat.le_zero.mp ((h.opened hOpened).2 ▸ hLe)⟩
  halfOpen hHalf := by
    obtain ⟨hSuccesses, hFailures, hInARow, hInARow', hTrials⟩ := h.halfOpen hHalf
    exact ⟨hSuccesses, hFailures, hInARow, hInARow', Nat.le_trans hLe hTrials⟩
  closed hClosed := ⟨Nat.le_zero.mp ((h.closed hClosed).1 ▸ hLe), (h.closed hClosed).2⟩
  exclusive := h.exclusive
  successes := h.successes
  failures := h.failures

theorem Coherent.abandon (h : m.Coherent) (a : Admission) : (m.abandon a).Coherent := by
  by_cases hGeneration : a.generation = m.generation
  · rw [abandon_of_eq hGeneration]
    exact h.lower (Nat.sub_le _ _)
  · rw [abandon_of_ne hGeneration]
    exact h

/-- A call is let in where there is room for one. -/
theorem Coherent.admitted (h : m.Coherent) (hOpened : m.state ≠ .opened) (hRoom : ¬ m.Crowded) :
    m.admitted.Coherent where
  opened hNot := absurd hNot hOpened
  halfOpen hHalf := by
    have hHalf : m.state = .halfOpen := hHalf
    obtain ⟨hSuccesses, hFailures, hInARow, hInARow', -⟩ := h.halfOpen hHalf
    have hFree : m.trialsInFlight < m.settings.halfOpenMaxCalls.toNat :=
      Nat.lt_of_not_le fun hFull => hRoom ⟨hHalf, hFull⟩
    refine ⟨hSuccesses, hFailures, hInARow, hInARow', ?_⟩
    rw [Machine.admitted, if_pos hHalf]
    exact hFree
  closed hClosed := by
    have hClosed : m.state = .closed := hClosed
    refine ⟨?_, (h.closed hClosed).2⟩
    rw [Machine.admitted, if_neg (by rw [hClosed]; decide)]
    exact (h.closed hClosed).1
  exclusive := h.exclusive
  successes := h.successes
  failures := h.failures

theorem Coherent.onSuccess (h : m.Coherent) (hClosed : m.state = .closed) :
    Coherent { m with counts := m.counts.onSuccess } where
  opened hNot := by rw [hClosed] at hNot; cases hNot
  halfOpen hNot := by rw [hClosed] at hNot; cases hNot
  closed _ := ⟨(h.closed hClosed).1, Nat.lt_of_lt_of_le Nat.one_pos (Nat.le_max_left _ _)⟩
  exclusive := .inr rfl
  successes := countUp_le h.successes
  failures := Nat.zero_le _

/-- A failure that does not open a closed machine is below the threshold. -/
theorem Coherent.onFailure (h : m.Coherent) (hClosed : m.state = .closed) (hTrips : ¬ m.Trips) :
    Coherent { m with counts := m.counts.onFailure } where
  opened hNot := by rw [hClosed] at hNot; cases hNot
  halfOpen hNot := by rw [hClosed] at hNot; cases hNot
  closed _ := ⟨(h.closed hClosed).1, Nat.lt_of_lt_of_le
    (consecutiveFailures_of_not_trips hClosed hTrips).2 (Nat.le_max_right _ _)⟩
  exclusive := .inl rfl
  successes := Nat.zero_le _
  failures := countUp_le h.failures

end Machine

/-! ## A machine and the admissions that it has given -/

/-- What is done with a machine. An admission is known by its position among those that were given,
and may be used as often as one likes. -/
inductive Handling where
  | acquire (now : Nat)
  | record (admission : Nat) (v : Verdict) (now : Nat)
  | abandon (admission : Nat)
  | look (now : Nat)
  | takeTransitions

/-- A machine, all the admissions that it has given, each with the index of its generation, and how
many generations were begun. -/
structure Handled where
  machine : Machine
  given : List (Admission × Nat)
  generations : Nat

namespace Handled

def start (settings : Settings) (now : Nat) : Handled := ⟨Machine.create settings now, [], 1⟩

/-- The machine after an operation. -/
def become (x : Handled) (m : Machine) : Handled :=
  { x with
    machine := m
    generations := x.generations + (m.generation - x.machine.generation).toNat }

/-- An admission is given by the generation that it finds. -/
def give (x : Handled) (a : Admission) : Handled :=
  { x with given := x.given ++ [(a, x.generations)] }

def perform (x : Handled) : Handling → Handled
  | .acquire now =>
    match x.machine.acquire now with
    | (.ok a, m) => (x.become m).give a
    | (.error _, m) => x.become m
  | .record admission v now =>
    match x.given[admission]? with
    | some (a, _) => x.become (x.machine.record a v now)
    | none => x
  | .abandon admission =>
    match x.given[admission]? with
    | some (a, _) => x.become (x.machine.abandon a)
    | none => x
  | .look now => x.become (x.machine.refresh now)
  | .takeTransitions => x.become x.machine.takeTransitions.2

def run (x : Handled) (handlings : List Handling) : Handled := handlings.foldl perform x

end Handled

/-! ## The invariant -/

/-- An admission was given in generation `n` of those begun by a machine, which was not open. -/
structure Given (m : Machine) (generations : Nat) (a : Admission) (n : Nat) : Prop where
  pos : 0 < n
  le : n ≤ generations
  generation : a.generation = generationOf n
  current : n = generations → m.state ≠ .opened

/-- A machine with coherent counts, and the admissions that it has given. -/
structure Kept (settings : Settings) (m : Machine) (given : List (Admission × Nat))
    (generations : Nat) : Prop where
  settings : m.settings = settings
  pos : 0 < generations
  generation : m.generation = generationOf generations
  given : ∀ a n, (a, n) ∈ given → Given m generations a n
  coherent : m.Coherent

namespace Kept

variable {settings : Settings} {m m' : Machine} {given : List (Admission × Nat)} {generations : Nat}
  {a : Admission} {n now : Nat}

/-- A new generation, of which no admission was given yet. -/
theorem next (h : Kept settings m given generations) (hSettings : m'.settings = m.settings)
    (hGeneration : m'.generation = m.generation + 1) (hCounts : m'.counts = .zero)
    (hTrials : m'.trialsInFlight = 0) : Kept settings m' given (generations + 1) where
  settings := hSettings.trans h.settings
  pos := Nat.succ_pos _
  generation := by rw [hGeneration, h.generation, generationOf_succ]
  given a n hMem := by
    have hGiven := h.given a n hMem
    have hLe := hGiven.le
    exact ⟨hGiven.pos, Nat.le_succ_of_le hLe, hGiven.generation, fun hCurrent => by omega⟩
  coherent := Machine.coherent_of_zero hCounts hTrials

theorem setState (h : Kept settings m given generations) {next : State} (hNe : m.state ≠ next)
    (now : Nat) : Kept settings (m.setState next now) given (generations + 1) := by
  rw [Machine.setState_of_ne hNe]
  exact h.next rfl rfl rfl rfl

theorem refresh (h : Kept settings m given generations) (now : Nat) :
    ∃ j, j ≤ 1 ∧ Kept settings (m.refresh now) given (generations + j) := by
  cases hExpired : m.expired now with
  | false =>
    rw [Machine.refresh_of_not_expired hExpired]
    exact ⟨0, Nat.zero_le _, h⟩
  | true =>
    cases hState : m.state with
    | closed =>
      rw [Machine.refresh_of_closed hState hExpired]
      exact ⟨1, Nat.le_refl _, h.next rfl rfl rfl rfl⟩
    | opened =>
      rw [Machine.refresh_of_opened hState hExpired]
      exact ⟨1, Nat.le_refl _, h.setState (by rw [hState]; decide) now⟩
    | halfOpen =>
      rw [Machine.refresh_of_halfOpen hState]
      exact ⟨0, Nat.zero_le _, h⟩

/-- What keeps the state and the generation keeps the admissions. -/
theorem keep (h : Kept settings m given generations) (hSettings : m'.settings = m.settings)
    (hState : m'.state = m.state) (hGeneration : m'.generation = m.generation)
    (hCoherent : m'.Coherent) : Kept settings m' given generations where
  settings := hSettings.trans h.settings
  pos := h.pos
  generation := hGeneration.trans h.generation
  given a n hMem := by
    have hGiven := h.given a n hMem
    exact ⟨hGiven.pos, hGiven.le, hGiven.generation,
      fun hCurrent => hState ▸ hGiven.current hCurrent⟩
  coherent := hCoherent

theorem abandon (h : Kept settings m given generations) (a : Admission) :
    Kept settings (m.abandon a) given generations := by
  obtain ⟨trials, hAbandon⟩ := m.abandon_eq a
  have hCoherent := h.coherent.abandon a
  rw [hAbandon] at hCoherent ⊢
  exact h.keep rfl rfl rfl hCoherent

theorem takeTransitions (h : Kept settings m given generations) :
    Kept settings m.takeTransitions.2 given generations :=
  h.keep rfl rfl rfl ⟨h.coherent.opened, h.coherent.halfOpen, h.coherent.closed,
    h.coherent.exclusive, h.coherent.successes, h.coherent.failures⟩

/-- A verdict on a call of the present generation, which is not that of an open machine. -/
theorem count (h : Kept settings m given generations) (hNotOpened : m.state ≠ .opened) (v : Verdict)
    (now : Nat) : ∃ j, j ≤ 1 ∧ Kept settings (m.count v now) given (generations + j) := by
  have hClosed : m.state ≠ .halfOpen → m.state = .closed := by
    intro hNotHalf
    cases hState : m.state <;> simp_all
  cases v with
  | ignored => exact ⟨0, Nat.zero_le _, h⟩
  | success =>
    by_cases hHalf : m.state = .halfOpen
    · rw [Machine.count_success_of_halfOpen hHalf]
      exact ⟨1, Nat.le_refl _, h.setState (by rw [hHalf]; decide) now⟩
    · rw [Machine.count_success_of_ne hHalf]
      exact ⟨0, Nat.zero_le _, h.keep rfl rfl rfl (h.coherent.onSuccess (hClosed hHalf))⟩
  | failure =>
    by_cases hTrips : m.Trips
    · rw [Machine.count_failure_of_trips hTrips]
      exact ⟨1, Nat.le_refl _, h.setState hNotOpened now⟩
    · rw [Machine.count_failure_of_not_trips hTrips]
      have hState := hClosed fun hHalf => hTrips (.inl hHalf)
      exact ⟨0, Nat.zero_le _, h.keep rfl rfl rfl (h.coherent.onFailure hState hTrips)⟩

/-- Among generations that were begun, an admission shows whether its own is the present one. -/
theorem generation_eq_iff (h : Kept settings m given generations) (hMem : (a, n) ∈ given)
    (hLast : generations ≤ 2 ^ 64) : a.generation = m.generation ↔ n = generations := by
  have hGiven := h.given a n hMem
  rw [hGiven.generation, h.generation, generationOf_eq_iff hGiven.pos hGiven.le hLast]

theorem record (h : Kept settings m given generations) (hMem : (a, n) ∈ given)
    (hLast : generations + 1 ≤ 2 ^ 64) (v : Verdict) (now : Nat) :
    ∃ j, j ≤ 2 ∧ Kept settings (m.record a v now) given (generations + j) := by
  obtain ⟨j, hj, hRefresh⟩ := h.refresh now
  have hAbandon := hRefresh.abandon a
  rw [Machine.record_eq]
  split
  · next hGeneration =>
    -- A generation in which admissions were given is not that of an open machine.
    have hCurrent := (hRefresh.generation_eq_iff hMem (by omega)).mp hGeneration
    have hNotOpened : ((m.refresh now).abandon a).state ≠ .opened := by
      rw [Machine.abandon_of_eq hGeneration]
      exact (hRefresh.given a n hMem).current hCurrent
    obtain ⟨k, hk, hCount⟩ := hAbandon.count hNotOpened v now
    exact ⟨j + k, by omega, by rw [← Nat.add_assoc]; exact hCount⟩
  · exact ⟨j, by omega, hAbandon⟩

/-- An admission of the present generation. -/
theorem admitted (h : Kept settings m given generations) (hNotOpened : m.state ≠ .opened)
    (hRoom : ¬ m.Crowded) :
    Kept settings m.admitted
      (given ++ [(⟨m.generation, decide (m.state = .halfOpen)⟩, generations)]) generations := by
  have hAdmitted : Kept settings m.admitted given generations :=
    h.keep rfl rfl rfl (h.coherent.admitted hNotOpened hRoom)
  refine ⟨h.settings, h.pos, h.generation, fun a n hMem => ?_, hAdmitted.coherent⟩
  obtain hOld | hNew := List.mem_append.mp hMem
  · exact hAdmitted.given a n hOld
  · cases List.mem_singleton.mp hNew
    exact ⟨h.pos, Nat.le_refl _, h.generation, fun _ => hNotOpened⟩

/-- A verdict on a call of an earlier generation is not heard. -/
theorem record_of_earlier (h : Kept settings (m.refresh now) given generations)
    (hMem : (a, n) ∈ given) (hLast : generations ≤ 2 ^ 64) (hEarlier : n < generations)
    (v : Verdict) :
    m.record a v now = m.refresh now := by
  have hNe : a.generation ≠ (m.refresh now).generation := by
    rw [ne_eq, h.generation_eq_iff hMem hLast]
    exact Nat.ne_of_lt hEarlier
  rw [Machine.record_eq, if_neg hNe, Machine.abandon_of_ne hNe]

theorem abandon_of_earlier (h : Kept settings m given generations) (hMem : (a, n) ∈ given)
    (hLast : generations ≤ 2 ^ 64) (hEarlier : n < generations) : m.abandon a = m := by
  refine Machine.abandon_of_ne ?_
  rw [ne_eq, h.generation_eq_iff hMem hLast]
  exact Nat.ne_of_lt hEarlier

end Kept

/-! ## Runs -/

namespace Handled

variable {settings : Settings} {x : Handled} {m : Machine} {j : Nat}

/-- The machine of a run is coherent, and the admissions are those it has given. -/
def Sound (settings : Settings) (x : Handled) : Prop :=
  Kept settings x.machine x.given x.generations

theorem sound_start (settings : Settings) (now : Nat) : Sound settings (start settings now) where
  settings := rfl
  pos := Nat.one_pos
  generation := rfl
  given a n hMem := by cases hMem
  coherent := Machine.coherent_of_zero rfl rfl

/-- How many generations an operation began is seen from the machine. -/
theorem generations_become (h : Sound settings x) (hj : j ≤ 2)
    (hGeneration : m.generation = generationOf (x.generations + j)) :
    (x.become m).generations = x.generations + j := by
  rw [become, hGeneration, h.generation, generationOf_sub _ hj]

theorem sound_become (h : Sound settings x) (hj : j ≤ 2)
    (hKept : Kept settings m x.given (x.generations + j)) : Sound settings (x.become m) := by
  rw [Sound, generations_become h hj hKept.generation]
  exact hKept

theorem sound_give (h : Sound settings x) (hj : j ≤ 2) {a : Admission}
    (hKept : Kept settings m (x.given ++ [(a, x.generations + j)]) (x.generations + j)) :
    Sound settings ((x.become m).give a) := by
  simp only [Sound, give, generations_become h hj hKept.generation]
  exact hKept

theorem generations_le_become (x : Handled) (m : Machine) :
    x.generations ≤ (x.become m).generations :=
  Nat.le_add_right _ _

theorem sound_acquire (h : Sound settings x) (now : Nat) :
    Sound settings (x.perform (.acquire now)) := by
  obtain ⟨j, hj, hRefresh⟩ := Kept.refresh h now
  have hLooked := sound_become h (Nat.le_succ_of_le hj) hRefresh
  rw [perform]
  obtain ⟨-, hAnswer⟩ | ⟨-, hAnswer⟩ | ⟨hNotOpened, hRoom, hAnswer⟩ :=
    x.machine.acquire_cases now
  · rw [hAnswer]
    exact hLooked
  · rw [hAnswer]
    exact hLooked
  · rw [hAnswer]
    exact sound_give h (Nat.le_succ_of_le hj) (hRefresh.admitted hNotOpened hRoom)

/-- The step lemma: one operation. -/
theorem sound_perform (h : Sound settings x) (hFew : x.generations < 2 ^ 64)
    (handling : Handling) : Sound settings (x.perform handling) := by
  cases handling with
  | acquire now => exact sound_acquire h now
  | record admission v now =>
    rw [perform]
    split
    · next a n hGiven =>
      obtain ⟨j, hj, hRecord⟩ := Kept.record h (List.mem_of_getElem? hGiven) hFew v now
      exact sound_become h hj hRecord
    · exact h
  | abandon admission =>
    rw [perform]
    split
    · next a n hGiven => exact sound_become h (Nat.zero_le 2) (Kept.abandon h a)
    · exact h
  | look now =>
    obtain ⟨j, hj, hRefresh⟩ := Kept.refresh h now
    exact sound_become h (Nat.le_succ_of_le hj) hRefresh
  | takeTransitions => exact sound_become h (Nat.zero_le 2) (Kept.takeTransitions h)

theorem generations_le_perform (x : Handled) (handling : Handling) :
    x.generations ≤ (x.perform handling).generations := by
  cases handling with
  | acquire now =>
    rw [perform]
    split <;> exact generations_le_become x _
  | record admission v now =>
    rw [perform]
    split
    · exact generations_le_become x _
    · exact Nat.le_refl _
  | abandon admission =>
    rw [perform]
    split
    · exact generations_le_become x _
    · exact Nat.le_refl _
  | look now => exact generations_le_become x _
  | takeTransitions => exact generations_le_become x _

theorem generations_le_run (x : Handled) (handlings : List Handling) :
    x.generations ≤ (x.run handlings).generations := by
  induction handlings generalizing x with
  | nil => exact Nat.le_refl _
  | cons handling rest ih =>
    exact Nat.le_trans (generations_le_perform x handling) (ih (x.perform handling))

/-- The run lemma, as long as there are numbers left for the generations. -/
theorem sound_run (h : Sound settings x) (handlings : List Handling)
    (hFew : (x.run handlings).generations < 2 ^ 64) : Sound settings (x.run handlings) := by
  induction handlings generalizing x with
  | nil => exact h
  | cons handling rest ih =>
    have hSoFar : x.generations < 2 ^ 64 :=
      Nat.lt_of_le_of_lt (generations_le_run x (handling :: rest)) hFew
    exact ih (sound_perform h hSoFar handling) hFew

end Handled

open Handled

/-- Whatever is done with a machine and its admissions, at whatever instants, the counts are
coherent with its state. An admission of an earlier generation does nothing beyond what time alone
brings: a verdict on it is not heard, and abandoning it frees no place. -/
theorem counts_coherent (settings : Settings) (begun : Nat) (handlings : List Handling)
    (hFew : ((start settings begun).run handlings).generations < 2 ^ 64) :
    let x := (start settings begun).run handlings
    x.machine.settings = settings ∧ x.machine.generation = generationOf x.generations ∧
    x.machine.Coherent ∧
    (∀ a n v now, (a, n) ∈ x.given → n < (x.perform (.look now)).generations →
      x.machine.record a v now = x.machine.refresh now) ∧
    (∀ a n, (a, n) ∈ x.given → n < x.generations → x.machine.abandon a = x.machine) := by
  intro x
  have hSound : Sound settings x := sound_run (sound_start settings begun) handlings hFew
  have hNumbers : x.generations < 2 ^ 64 := hFew
  refine ⟨hSound.settings, hSound.generation, hSound.coherent, ?_, ?_⟩
  · intro a n v now hGiven hEarlier
    obtain ⟨j, hj, hRefresh⟩ := Kept.refresh hSound now
    have hGenerations : (x.perform (.look now)).generations = x.generations + j :=
      generations_become hSound (Nat.le_succ_of_le hj) hRefresh.generation
    rw [hGenerations] at hEarlier
    exact hRefresh.record_of_earlier hGiven (by omega) hEarlier v
  · intro a n hGiven hEarlier
    exact Kept.abandon_of_earlier hSound hGiven (Nat.le_of_lt hNumbers) hEarlier

/-- One failure that is reported twice, the second time in the past, opens the machine. The trial
after that is abandoned twice, and the next one closes it. -/
def reused : List Handling :=
  [.acquire 5, .record 0 .failure 5, .record 0 .failure 3, .record 0 .failure 3, .acquire 20,
    .abandon 1, .abandon 1, .acquire 20, .record 2 .success 1]

/-- A fourth report of the failure does nothing to the closed machine, nor does the second trial. -/
theorem counts_coherent_reused :
    let x := (start ⟨2, 10, 1, none⟩ 0).run reused
    x.generations = 4 ∧ x.machine.state = .closed ∧ x.machine.Coherent ∧
    x.machine.record ⟨generationOf 1, false⟩ .failure 1 = x.machine.refresh 1 ∧
    x.machine.abandon ⟨generationOf 3, true⟩ = x.machine := by
  intro x
  obtain ⟨-, -, hCoherent, hRecord, hAbandon⟩ :=
    counts_coherent ⟨2, 10, 1, none⟩ 0 reused (by decide)
  exact ⟨by decide, by decide, hCoherent, hRecord _ 1 .failure 1 (by decide) (by decide),
    hAbandon _ 3 (by decide) (by decide)⟩

end Gatehouse.Breaker
