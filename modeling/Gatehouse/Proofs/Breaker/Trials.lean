import Gatehouse.Proofs.Breaker.Publication

/-!
# The places of trial calls

A half-open breaker counts the trials under way. The count is reset by every new generation, while
calls of earlier generations may still be open, and it is lowered by a subtraction that stops at
zero. An observer who only notes in which period a call was admitted, and which calls have been
resolved, always comes to the same number.

* `Ledger`: a run of a breaker with what such an observer notes.
* `Booked`: the invariant, over the machine and the calls with their periods. Each call keeps the
  index of its generation, of which the machine only knows the number.
* `trials_in_flight_exact`: the count is exact and bounded, it alone makes a half-open breaker
  refuse, and no place is ever lost.
-/

namespace Gatehouse.Breaker

/-! ## Runs of a breaker -/

inductive Use where
  | acquire
  | finish (call : Nat) (ending : Ending)
  | state
  | counts

namespace Calls

/-- What is done at an instant; the end of a call that has ended before is nothing. -/
def perform (c : Calls) (now : Nat) (use : Use) : Calls :=
  let c := { c with now := now }
  match use with
  | .acquire => c.acquire.2
  | .finish call ending => (c.finish call ending).getD c
  | .state => c.state.2
  | .counts => c.counts.2

/-- The number of the present period: the changes of state so far. -/
def period (c : Calls) : Nat := c.breaker.feed.published.length

end Calls

/-- A breaker and its calls with what an observer notes: the period in which each call was
admitted, when the present period began, and how many generations were begun. -/
structure Ledger where
  calls : Calls
  admittedIn : List Nat
  since : Nat
  generations : Nat

namespace Ledger

def start (name : String) (policy : Policy) (settings : Settings) (now : Nat) : Ledger :=
  { calls := .start { CircuitBreaker.create name settings now with policy := policy }
    admittedIn := []
    since := now
    generations := 1 }

def machine (l : Ledger) : Machine := l.calls.breaker.machine

/-- Notes what happened while the breaker was used. -/
def perform (l : Ledger) (now : Nat) (use : Use) : Ledger :=
  let c := l.calls.perform now use
  { calls := c
    admittedIn :=
      l.admittedIn ++ List.replicate (c.calls.length - l.calls.calls.length) c.period
    since := if c.period = l.calls.period then l.since else now
    generations :=
      l.generations + (c.breaker.machine.generation - l.machine.generation).toNat }

def run (l : Ledger) (uses : List (Nat × Use)) : Ledger :=
  uses.foldl (fun l u => l.perform u.1 u.2) l

/-- The calls, and the periods in which they were admitted. -/
def book (l : Ledger) : List (Option Admission × Nat) := l.calls.calls.zip l.admittedIn

end Ledger

/-- The calls of a book that were admitted in a period and have not been resolved. -/
def unresolvedIn (period : Nat) (book : List (Option Admission × Nat)) : Nat :=
  book.countP fun entry => entry.1.isSome && entry.2 == period

/-! ## The invariant -/

/-- Call `a` of period `p` belongs to generation `n` of those begun by a machine in state `s`. -/
structure Stamped (s : State) (period generations : Nat) (a : Admission) (p n : Nat) : Prop where
  pos : 0 < n
  le : n ≤ generations
  generation : a.generation = generationOf n
  period_le : p ≤ period
  current : n = generations → p = period ∧ a.trial = decide (s = .halfOpen)
  halfOpen : s = .halfOpen → p = period → n = generations

/-- A machine, of which `drained` changes of state were taken, keeps count of the trials in a
book. -/
structure Booked (m : Machine) (book : List (Option Admission × Nat)) (drained generations : Nat) :
    Prop where
  pos : 0 < generations
  generation : m.generation = generationOf generations
  stamped : ∀ a p, (some a, p) ∈ book →
    ∃ n, Stamped m.state (drained + m.transitions.length) generations a p n
  trials : m.trialsInFlight =
    if m.state = .halfOpen then unresolvedIn (drained + m.transitions.length) book else 0
  bound : m.trialsInFlight ≤ m.settings.halfOpenMaxCalls.toNat

theorem unresolvedIn_eq_zero {period : Nat} {book : List (Option Admission × Nat)}
    (h : ∀ a p, (some a, p) ∈ book → p < period) : unresolvedIn period book = 0 := by
  unfold unresolvedIn
  rw [List.countP_eq_zero]
  rintro ⟨call, p⟩ hMem
  cases call with
  | none => simp
  | some a =>
    have hLt := h a p hMem
    simp only [Option.isSome_some, Bool.true_and, beq_iff_eq]
    omega

/-- A turn keeps the books, with at most one more generation. -/
theorem booked_turn {m m' : Machine} {book : List (Option Admission × Nat)}
    {drained generations now : Nat} (h : Booked m book drained generations)
    (ht : Machine.Turn now m m') :
    ∃ j, j ≤ 1 ∧ Booked m' book drained (generations + j) := by
  cases ht with
  | kept c eq =>
    subst eq
    exact ⟨0, Nat.zero_le _, h.pos, h.generation, h.stamped, h.trials, h.bound⟩
  | window closed eq =>
    rw [eq, Machine.newGeneration_eq]
    refine ⟨1, Nat.le_refl _, Nat.succ_pos _, ?_, ?_, ?_, Nat.zero_le _⟩
    · rw [h.generation, generationOf_succ]
    · intro a p hMem
      obtain ⟨n, hn⟩ := h.stamped a p hMem
      have hLe := hn.le
      exact ⟨n, hn.pos, by omega, hn.generation, hn.period_le, fun hCur => by omega,
        fun hHalf => by simp [closed] at hHalf⟩
    · simp [closed]
  | change next ne eq =>
    rw [eq, Machine.setState_of_ne ne]
    have hLen : drained + (m.transitions ++ [(⟨m.state, next⟩ : Transition)]).length =
        drained + m.transitions.length + 1 := by
      rw [List.length_append, List.length_singleton]
      omega
    refine ⟨1, Nat.le_refl _, Nat.succ_pos _, ?_, ?_, ?_, Nat.zero_le _⟩
    · rw [h.generation, generationOf_succ]
    · intro a p hMem
      obtain ⟨n, hn⟩ := h.stamped a p hMem
      have hLe := hn.le
      have hPer := hn.period_le
      rw [hLen]
      exact ⟨n, hn.pos, by omega, hn.generation, by omega, fun hCur => by omega,
        fun _ hp => by omega⟩
    · rw [unresolvedIn_eq_zero]
      · simp
      · intro a p hMem
        obtain ⟨n, hn⟩ := h.stamped a p hMem
        have hPer := hn.period_le
        rw [hLen]
        omega

theorem booked_admitted {m : Machine} {book : List (Option Admission × Nat)}
    {drained generations : Nat} (h : Booked m book drained generations) (hRoom : ¬ m.Crowded) :
    Booked m.admitted
      (book ++ [(some ⟨m.generation, decide (m.state = .halfOpen)⟩,
        drained + m.transitions.length)]) drained generations := by
  refine ⟨h.pos, h.generation, ?_, ?_, ?_⟩
  · intro a p hMem
    rcases List.mem_append.mp hMem with hOld | hNew
    · exact h.stamped a p hOld
    · cases List.mem_singleton.mp hNew
      exact ⟨generations, h.pos, Nat.le_refl _, h.generation, Nat.le_refl _,
        fun _ => ⟨rfl, rfl⟩, fun _ _ => rfl⟩
  · have hTrials := h.trials
    by_cases hs : m.state = .halfOpen
    · simp only [hs, if_true] at hTrials
      simp [Machine.admitted, hs, hTrials, unresolvedIn]
    · simp only [hs, if_false] at hTrials
      simp [Machine.admitted, hs, hTrials]
  · have hBound := h.bound
    by_cases hs : m.state = .halfOpen
    · have hLt : ¬ m.settings.halfOpenMaxCalls.toNat ≤ m.trialsInFlight :=
        fun hFull => hRoom ⟨hs, hFull⟩
      simp only [Machine.admitted, hs, if_true]
      omega
    · simpa [Machine.admitted, hs] using hBound

theorem unresolvedIn_set {book : List (Option Admission × Nat)} {i : Nat} {a : Admission} {p : Nat}
    (h : book[i]? = some (some a, p)) (period : Nat) :
    unresolvedIn period (book.set i (none, p)) =
      unresolvedIn period book - if p = period then 1 else 0 := by
  obtain ⟨hLt, hGet⟩ := List.getElem?_eq_some_iff.mp h
  unfold unresolvedIn
  rw [List.countP_set hLt, hGet]
  simp

/-- A call that is resolved gives its place back once, if it has one. -/
theorem booked_abandon {m : Machine} {book : List (Option Admission × Nat)}
    {drained generations : Nat} (h : Booked m book drained generations)
    (hLast : generations ≤ 2 ^ 64) {i : Nat} {a : Admission} {p : Nat}
    (hi : book[i]? = some (some a, p)) :
    Booked (m.abandon a) (book.set i (none, p)) drained generations := by
  obtain ⟨n, hn⟩ := h.stamped a p (List.mem_of_getElem? hi)
  have hTrials := h.trials
  have hBound := h.bound
  -- the place is given back exactly when the observer sees one trial less
  have hSet : ∃ k, m.abandon a = { m with trialsInFlight := k } ∧ k ≤ m.trialsInFlight ∧
      k = if m.state = .halfOpen then
        unresolvedIn (drained + m.transitions.length) (book.set i (none, p)) else 0 := by
    rw [unresolvedIn_set hi]
    by_cases hCur : n = generations
    · obtain ⟨hp, hTrial⟩ := hn.current hCur
      refine ⟨_, Machine.abandon_of_eq (by rw [hn.generation, hCur, h.generation]),
        Nat.sub_le _ _, ?_⟩
      rw [hTrials, hTrial, hp]
      by_cases hs : m.state = .halfOpen <;> simp [hs]
    · have hNe : a.generation ≠ m.generation := by
        rw [hn.generation, h.generation, ne_eq, generationOf_eq_iff hn.pos hn.le hLast]
        exact hCur
      refine ⟨_, Machine.abandon_of_ne hNe, Nat.le_refl _, ?_⟩
      rw [hTrials]
      by_cases hs : m.state = .halfOpen
      · have hp : p ≠ drained + m.transitions.length := fun hp => hCur (hn.halfOpen hs hp)
        simp [hs, hp]
      · simp [hs]
  obtain ⟨k, hAbandon, hLe, hk⟩ := hSet
  rw [hAbandon]
  refine ⟨h.pos, h.generation, ?_, hk, Nat.le_trans hLe hBound⟩
  intro b q hMem
  rcases List.mem_or_eq_of_mem_set hMem with hOld | hNew
  · exact h.stamped b q hOld
  · cases hNew

/-! ## One use of a breaker -/

/-- What a use at `now` makes of the machine and the calls, before the changes of state are taken
out of the machine. -/
inductive Effect (c : Calls) (now : Nat) : Machine → List (Option Admission) → Prop where
  /-- There was no such call. -/
  | nothing : Effect c now c.breaker.machine c.calls
  /-- The machine was looked at, or it refused a call. -/
  | looked : Effect c now (c.breaker.machine.refresh now) c.calls
  | admitted (room : ¬ (c.breaker.machine.refresh now).Crowded) :
      Effect c now (c.breaker.machine.refresh now).admitted
        (c.calls ++ [some ⟨(c.breaker.machine.refresh now).generation,
          decide ((c.breaker.machine.refresh now).state = .halfOpen)⟩])
  | recorded (call : Nat) (a : Admission) (v : Verdict) (pending : c.calls[call]? = some (some a)) :
      Effect c now (c.breaker.machine.record a v now) (c.calls.set call none)
  | dropped (call : Nat) (a : Admission) (pending : c.calls[call]? = some (some a)) :
      Effect c now (c.breaker.machine.abandon a) (c.calls.set call none)

namespace Calls

theorem close_eq (b : CircuitBreaker) (a : Admission) (now : Nat) (ending : Ending) :
    (∃ v, (close b a now ending).1 = b.after (b.machine.record a v now)) ∨
      (close b a now ending).1 = b.after (b.machine.abandon a) := by
  cases ending with
  | verdict v => exact .inl ⟨v, congrArg Prod.fst (CircuitBreaker.record_eq b a v now)⟩
  | outcome o =>
    exact .inl ⟨b.policy o, congrArg Prod.fst (CircuitBreaker.record_eq b a (b.policy o) now)⟩
  | dropped => exact .inr (congrArg Prod.fst (CircuitBreaker.drop_eq b a))
  | panicked => exact .inl ⟨.failure, congrArg Prod.fst (CircuitBreaker.record_eq b a .failure now)⟩

theorem effect_acquire (c : Calls) (now : Nat) :
    ∃ m calls, Effect c now m calls ∧ (c.perform now .acquire).breaker = c.breaker.after m ∧
      (c.perform now .acquire).calls = calls := by
  simp only [perform, acquire, CircuitBreaker.tryAcquire_eq]
  rcases Machine.acquire_cases c.breaker.machine now with ⟨-, h⟩ | ⟨-, h⟩ | ⟨-, hRoom, h⟩
  · rw [h]
    exact ⟨_, _, .looked, rfl, rfl⟩
  · rw [h]
    exact ⟨_, _, .looked, rfl, rfl⟩
  · rw [h]
    exact ⟨_, _, .admitted hRoom, rfl, rfl⟩

theorem effect_finish (c : Calls) (hDrained : c.breaker.machine.transitions = []) (now call : Nat)
    (ending : Ending) :
    ∃ m calls, Effect c now m calls ∧
      (c.perform now (.finish call ending)).breaker = c.breaker.after m ∧
      (c.perform now (.finish call ending)).calls = calls := by
  simp only [perform, finish]
  split
  · rename_i a hPending
    rcases close_eq c.breaker a now ending with ⟨v, h⟩ | h
    · exact ⟨_, _, .recorded call a v hPending, h, rfl⟩
    · exact ⟨_, _, .dropped call a hPending, h, rfl⟩
  · exact ⟨_, _, .nothing, (CircuitBreaker.after_machine hDrained).symm, rfl⟩

/-- Every use has one of the effects, and publishes the changes of state. -/
theorem effect_perform (c : Calls) (hDrained : c.breaker.machine.transitions = []) (now : Nat)
    (use : Use) :
    ∃ m calls, Effect c now m calls ∧ (c.perform now use).breaker = c.breaker.after m ∧
      (c.perform now use).calls = calls := by
  cases use with
  | acquire => exact effect_acquire c now
  | finish call ending => exact effect_finish c hDrained now call ending
  | state =>
    simp only [perform, state, CircuitBreaker.state_eq]
    exact ⟨_, _, .looked, rfl, rfl⟩
  | counts =>
    simp only [perform, counts, CircuitBreaker.counts_eq]
    exact ⟨_, _, .looked, rfl, rfl⟩

end Calls

/-! ## The ledger -/

/-- An open machine becomes half-open one interval after its period began. -/
def Due (m : Machine) (since : Nat) : Prop :=
  m.state = .opened → m.expiry = some (since + m.settings.openInterval)

/-- The book of a ledger is right about its machine. -/
structure Accurate (l : Ledger) : Prop where
  drained : l.machine.transitions = []
  aligned : l.calls.calls.length = l.admittedIn.length
  booked : Booked l.machine l.book l.calls.period l.generations
  due : Due l.machine l.since

/-- What holds of the machine of a ledger, and of its book, in the course of a use at `now`. -/
structure During (l : Ledger) (now : Nat) (m : Machine) (book : List (Option Admission × Nat))
    (generations : Nat) : Prop where
  settings : m.settings = l.machine.settings
  booked : Booked m book l.calls.period generations
  due : Due m (if m.transitions = [] then l.since else now)

theorem accurate_start (name : String) (policy : Policy) (settings : Settings) (now : Nat) :
    Accurate (.start name policy settings now) := by
  refine ⟨rfl, rfl, ⟨Nat.one_pos, rfl, ?_, rfl, Nat.zero_le _⟩, ?_⟩
  · intro a p hMem
    cases hMem
  · intro hOpened
    cases hOpened

theorem during_self {l : Ledger} (h : Accurate l) (now : Nat) :
    During l now l.machine l.book l.generations := by
  refine ⟨rfl, h.booked, ?_⟩
  rw [if_pos h.drained]
  exact h.due

theorem due_turn {l : Ledger} {m m' : Machine} {now : Nat}
    (h : Due m (if m.transitions = [] then l.since else now)) (ht : Machine.Turn now m m') :
    Due m' (if m'.transitions = [] then l.since else now) := by
  cases ht with
  | kept c eq =>
    rw [eq]
    exact h
  | window closed eq =>
    rw [eq, Machine.newGeneration_eq]
    intro hOpened
    rw [closed] at hOpened
    cases hOpened
  | change next ne eq =>
    rw [eq, Machine.setState_of_ne ne]
    intro hOpened
    have hNext : next = .opened := hOpened
    rw [if_neg (by simp), hNext]
    rfl

theorem during_turn {l : Ledger} {now generations : Nat} {m m' : Machine}
    {book : List (Option Admission × Nat)} (h : During l now m book generations)
    (ht : Machine.Turn now m m') :
    ∃ j, j ≤ 1 ∧ During l now m' book (generations + j) := by
  obtain ⟨j, hj, hBooked⟩ := booked_turn h.booked ht
  exact ⟨j, hj, ht.settings_eq.trans h.settings, hBooked, due_turn h.due ht⟩

theorem during_admitted {l : Ledger} {now generations : Nat} {m : Machine}
    {book : List (Option Admission × Nat)} (h : During l now m book generations)
    (hRoom : ¬ m.Crowded) :
    During l now m.admitted
      (book ++ [(some ⟨m.generation, decide (m.state = .halfOpen)⟩,
        l.calls.period + m.transitions.length)]) generations :=
  ⟨h.settings, booked_admitted h.booked hRoom, h.due⟩

theorem during_abandon {l : Ledger} {now generations : Nat} {m : Machine}
    {book : List (Option Admission × Nat)} (h : During l now m book generations)
    (hLast : generations ≤ 2 ^ 64) {i : Nat} {a : Admission} {p : Nat}
    (hi : book[i]? = some (some a, p)) :
    During l now (m.abandon a) (book.set i (none, p)) generations := by
  have hBooked := booked_abandon h.booked hLast hi
  by_cases hGen : a.generation = m.generation
  · rw [Machine.abandon_of_eq hGen] at hBooked ⊢
    exact ⟨h.settings, hBooked, h.due⟩
  · rw [Machine.abandon_of_ne hGen] at hBooked ⊢
    exact ⟨h.settings, hBooked, h.due⟩

/-- A verdict on a call is what time brings, the end of the call, and what the verdict brings. -/
theorem during_record {l : Ledger} {now generations : Nat} {m : Machine}
    {book : List (Option Admission × Nat)} (h : During l now m book generations)
    (hLast : generations + 1 ≤ 2 ^ 64) {i : Nat} {a : Admission} {p : Nat}
    (hi : book[i]? = some (some a, p)) (v : Verdict) :
    ∃ j, j ≤ 2 ∧ During l now (m.record a v now) (book.set i (none, p)) (generations + j) := by
  obtain ⟨j, hj, hRefresh⟩ := during_turn h (Machine.turn_refresh m now)
  have hAbandon := during_abandon hRefresh (by omega) hi
  rw [Machine.record_eq]
  split
  · obtain ⟨k, hk, hCount⟩ := during_turn hAbandon (Machine.turn_count _ v now)
    exact ⟨j + k, by omega, by rw [← Nat.add_assoc]; exact hCount⟩
  · exact ⟨j, by omega, hAbandon⟩

theorem set_zip {α β : Type} {as : List α} {bs : List β} {i : Nat} {b : β} (h : bs[i]? = some b)
    (a : α) : (as.set i a).zip bs = (as.zip bs).set i (a, b) := by
  induction as generalizing bs i with
  | nil => simp
  | cons a' as ih =>
    cases bs with
    | nil => simp at h
    | cons b' bs =>
      cases i with
      | zero =>
        cases h
        rfl
      | succ i => simpa using ih (by simpa using h)

/-- Calls that are still open have a place in the book. -/
theorem book_getElem? {l : Ledger} (h : Accurate l) {call : Nat} {a : Admission}
    (hPending : l.calls.calls[call]? = some (some a)) :
    ∃ p, l.admittedIn[call]? = some p ∧ l.book[call]? = some (some a, p) := by
  have hLt : call < l.admittedIn.length := by
    rw [← h.aligned]
    exact (List.getElem?_eq_some_iff.mp hPending).1
  refine ⟨l.admittedIn[call], List.getElem?_eq_getElem hLt, ?_⟩
  rw [Ledger.book, List.getElem?_zip_eq_some]
  exact ⟨hPending, List.getElem?_eq_getElem hLt⟩

/-- One case for each effect: the machine and the new book agree before the changes of state are
taken out. -/
theorem during_effect {l : Ledger} (h : Accurate l) {now : Nat} {m : Machine}
    {calls : List (Option Admission)} (he : Effect l.calls now m calls)
    (hLast : l.generations < 2 ^ 64) :
    ∃ j periods, j ≤ 2 ∧
      periods = l.admittedIn ++
        List.replicate (calls.length - l.calls.calls.length)
          (l.calls.period + m.transitions.length) ∧
      calls.length = periods.length ∧ During l now m (calls.zip periods) (l.generations + j) := by
  have hSelf := during_self h now
  have hRefresh := during_turn hSelf (Machine.turn_refresh l.machine now)
  cases he with
  | nothing =>
    exact ⟨0, l.admittedIn, Nat.zero_le _, by simp, h.aligned, hSelf⟩
  | looked =>
    obtain ⟨j, hj, hLooked⟩ := hRefresh
    exact ⟨j, l.admittedIn, by omega, by simp, h.aligned, hLooked⟩
  | admitted room =>
    obtain ⟨j, hj, hLooked⟩ := hRefresh
    refine ⟨j, l.admittedIn ++ [l.calls.period + (l.machine.refresh now).transitions.length],
      by omega, ?_, ?_, ?_⟩
    · rw [List.length_append, List.length_singleton, Nat.add_sub_cancel_left]
      rfl
    · simp [h.aligned]
    · rw [List.zip_append h.aligned]
      exact during_admitted hLooked room
  | recorded call a v pending =>
    obtain ⟨p, hp, hBook⟩ := book_getElem? h pending
    obtain ⟨j, hj, hRecord⟩ := during_record hSelf (by omega) hBook v
    refine ⟨j, l.admittedIn, hj, by simp, by simp [h.aligned], ?_⟩
    rw [set_zip hp]
    exact hRecord
  | dropped call a pending =>
    obtain ⟨p, hp, hBook⟩ := book_getElem? h pending
    refine ⟨0, l.admittedIn, Nat.zero_le _, by simp, by simp [h.aligned], ?_⟩
    rw [set_zip hp]
    exact during_abandon hSelf (by omega) hBook

/-- The step lemma: a use keeps the book right, and begins at most two generations. -/
theorem accurate_perform {l : Ledger} (h : Accurate l) (hLast : l.generations < 2 ^ 64)
    (now : Nat) (use : Use) : Accurate (l.perform now use) := by
  obtain ⟨m, calls, hEffect, hBreaker, hCalls⟩ := l.calls.effect_perform h.drained now use
  obtain ⟨j, periods, hj, hPeriods, hLen, hDuring⟩ := during_effect h hEffect hLast
  have hPeriod : (l.calls.perform now use).period = l.calls.period + m.transitions.length := by
    simp [Calls.period, hBreaker, CircuitBreaker.after]
  have hMachine : (l.perform now use).machine = { m with transitions := [] } := by
    simp [Ledger.machine, Ledger.perform, hBreaker, CircuitBreaker.after]
  have hAdmitted : (l.perform now use).admittedIn = periods := by
    rw [hPeriods, ← hPeriod, ← hCalls]
    rfl
  have hGenerations : (l.perform now use).generations = l.generations + j := by
    have hSub := generationOf_sub l.generations hj
    rw [← hDuring.booked.generation, ← h.booked.generation] at hSub
    simp [Ledger.perform, hBreaker, CircuitBreaker.after, hSub]
  have hBook : (l.perform now use).book = calls.zip periods := by
    rw [Ledger.book, hAdmitted, ← hCalls]
    rfl
  have hSince : (l.perform now use).since = if m.transitions = [] then l.since else now := by
    simp [Ledger.perform, hPeriod]
  refine ⟨by rw [hMachine], ?_, ?_, ?_⟩
  · rw [hAdmitted, ← hLen, ← hCalls]
    rfl
  · have hNow : (l.perform now use).calls.period = l.calls.period + m.transitions.length := hPeriod
    have hBooked := hDuring.booked
    rw [hMachine, hBook, hGenerations, hNow]
    exact ⟨hBooked.pos, hBooked.generation, hBooked.stamped, hBooked.trials, hBooked.bound⟩
  · rw [hMachine, hSince]
    exact hDuring.due

theorem generations_le_perform (l : Ledger) (now : Nat) (use : Use) :
    l.generations ≤ (l.perform now use).generations := Nat.le_add_right _ _

theorem generations_le_run (l : Ledger) (uses : List (Nat × Use)) :
    l.generations ≤ (l.run uses).generations := by
  induction uses generalizing l with
  | nil => exact Nat.le_refl _
  | cons u uses ih => exact Nat.le_trans (generations_le_perform l u.1 u.2) (ih _)

/-- The run lemma. -/
theorem accurate_run {l : Ledger} (h : Accurate l) (uses : List (Nat × Use))
    (hLast : (l.run uses).generations < 2 ^ 64) : Accurate (l.run uses) := by
  induction uses generalizing l with
  | nil => exact h
  | cons u uses ih =>
    have hLe : l.generations ≤ (l.run (u :: uses)).generations := generations_le_run l (u :: uses)
    exact ih (accurate_perform h (by omega) u.1 u.2) hLast

theorem settings_perform (l : Ledger) (h : Accurate l) (hLast : l.generations < 2 ^ 64) (now : Nat)
    (use : Use) : (l.perform now use).machine.settings = l.machine.settings := by
  obtain ⟨m, calls, hEffect, hBreaker, -⟩ := l.calls.effect_perform h.drained now use
  obtain ⟨j, periods, -, -, -, hDuring⟩ := during_effect h hEffect hLast
  rw [Ledger.machine, Ledger.perform, hBreaker]
  exact hDuring.settings

theorem settings_run {l : Ledger} (h : Accurate l) (uses : List (Nat × Use))
    (hLast : (l.run uses).generations < 2 ^ 64) :
    (l.run uses).machine.settings = l.machine.settings := by
  induction uses generalizing l with
  | nil => rfl
  | cons u uses ih =>
    have hLe : l.generations ≤ (l.run (u :: uses)).generations := generations_le_run l (u :: uses)
    have hStep := accurate_perform h (by omega) u.1 u.2
    exact (ih hStep hLast).trans (settings_perform l h (by omega) u.1 u.2)

/-! ## Refusals -/

theorem acquire_tooManyTrials_iff (m : Machine) (now : Nat) :
    (m.acquire now).1 = .error .tooManyTrials ↔ (m.refresh now).Crowded := by
  constructor
  · intro h
    rcases Machine.acquire_cases m now with ⟨-, hEq⟩ | ⟨hc, -⟩ | ⟨-, -, hEq⟩
    · rw [hEq] at h
      cases h
    · exact hc
    · rw [hEq] at h
      cases h
  · intro hc
    rw [Machine.acquire_of_crowded hc]

theorem machine_perform_state (l : Ledger) (now : Nat) :
    (l.perform now .state).machine = { l.machine.refresh now with transitions := [] } := by
  simp [Ledger.machine, Ledger.perform, Calls.perform, Calls.state, CircuitBreaker.state_eq,
    Calls.keep, CircuitBreaker.after]

theorem Accurate.trialsInFlight_eq {l : Ledger} (h : Accurate l) :
    l.machine.trialsInFlight =
      if l.machine.state = .halfOpen then unresolvedIn l.calls.period l.book else 0 := by
  have hCount := h.booked.trials
  rw [h.drained] at hCount
  exact hCount

/-- A request is refused for too many trials if, after what time brings, there are that many. -/
theorem Accurate.refused_iff {l : Ledger} (h : Accurate l) (hLast : l.generations < 2 ^ 64)
    (now : Nat) :
    (l.machine.acquire now).1 = .error .tooManyTrials ↔
      (l.perform now .state).machine.state = .halfOpen ∧
        l.machine.settings.halfOpenMaxCalls.toNat ≤
          unresolvedIn (l.perform now .state).calls.period (l.perform now .state).book := by
  have hCount := (accurate_perform h hLast now .state).trialsInFlight_eq
  rw [acquire_tooManyTrials_iff, Machine.Crowded, Machine.settings_refresh]
  rw [machine_perform_state l now] at hCount ⊢
  constructor
  · rintro ⟨hHalf, hFull⟩
    rw [if_pos hHalf] at hCount
    exact ⟨hHalf, Nat.le_trans hFull (Nat.le_of_eq hCount)⟩
  · rintro ⟨hHalf, hFull⟩
    rw [if_pos hHalf] at hCount
    exact ⟨hHalf, Nat.le_trans hFull (Nat.le_of_eq hCount.symm)⟩

/-- A machine that allows trials and has none under way lets a call in once its interval is
over. -/
theorem acquire_ok {m : Machine} {since now : Nat} (hDue : Due m since)
    (hAllowed : 1 ≤ m.settings.halfOpenMaxCalls.toNat)
    (hNone : m.state = .halfOpen → m.trialsInFlight = 0)
    (hElapsed : m.state = .opened → since + m.settings.openInterval ≤ now) :
    ∃ a, (m.acquire now).1 = .ok a := by
  have hSet := Machine.settings_refresh m now
  have hRoom : (m.refresh now).state ≠ .opened ∧
      ((m.refresh now).state = .halfOpen → (m.refresh now).trialsInFlight = 0) := by
    cases hs : m.state with
    | closed =>
      cases hExp : m.expired now with
      | false =>
        rw [Machine.refresh_of_not_expired hExp, hs]
        exact ⟨by simp, fun h => by cases h⟩
      | true =>
        rw [Machine.refresh_of_closed hs hExp, Machine.newGeneration_eq]
        exact ⟨by simp [hs], fun _ => rfl⟩
    | opened =>
      have hExp : m.expired now = true := by
        rw [Machine.expired, hDue hs]
        exact decide_eq_true (hElapsed hs)
      rw [Machine.refresh_of_opened hs hExp, Machine.setState_of_ne (by simp [hs])]
      exact ⟨by simp, fun _ => rfl⟩
    | halfOpen =>
      rw [Machine.refresh_of_halfOpen hs]
      exact ⟨by simp [hs], fun _ => hNone hs⟩
  have hCrowded : ¬ (m.refresh now).Crowded := by
    rintro ⟨hHalf, hFull⟩
    rw [hRoom.2 hHalf, hSet] at hFull
    omega
  rw [Machine.acquire_of_room hRoom.1 hCrowded]
  exact ⟨_, rfl⟩

/-- In every run of a breaker with at most as many generations as can be numbered, the count of
trials is the number of unresolved calls of the present half-open period and never passes its
limit; a request for a call is refused for too many trials exactly when, after what time brings,
there are that many of them; and where there are none, a request once the open interval is over is
granted. -/
theorem trials_in_flight_exact (name : String) (policy : Policy) (settings : Settings)
    (begun : Nat) (uses : List (Nat × Use))
    (hLast : ((Ledger.start name policy settings begun).run uses).generations < 2 ^ 64) :
    let l := (Ledger.start name policy settings begun).run uses
    l.machine.trialsInFlight =
        (if l.machine.state = .halfOpen then unresolvedIn l.calls.period l.book else 0) ∧
      l.machine.trialsInFlight ≤ settings.halfOpenMaxCalls.toNat ∧
      (∀ now, (l.machine.acquire now).1 = .error .tooManyTrials ↔
        (l.perform now .state).machine.state = .halfOpen ∧
          settings.halfOpenMaxCalls.toNat ≤
            unresolvedIn (l.perform now .state).calls.period (l.perform now .state).book) ∧
      (1 ≤ settings.halfOpenMaxCalls.toNat →
        (l.machine.state = .halfOpen → unresolvedIn l.calls.period l.book = 0) →
        ∀ now, (l.machine.state = .opened → l.since + settings.openInterval ≤ now) →
          ∃ a, (l.machine.acquire now).1 = .ok a) := by
  intro l
  have hStart := accurate_start name policy settings begun
  have hAcc : Accurate l := accurate_run hStart uses hLast
  have hSet : l.machine.settings = settings := settings_run hStart uses hLast
  have hTrials := hAcc.trialsInFlight_eq
  refine ⟨hTrials, ?_, ?_, ?_⟩
  · rw [← hSet]
    exact hAcc.booked.bound
  · intro now
    rw [← hSet]
    exact hAcc.refused_iff hLast now
  · intro hAllowed hNone now hElapsed
    refine acquire_ok hAcc.due (by rw [hSet]; exact hAllowed) ?_ (by rw [hSet]; exact hElapsed)
    intro hHalf
    rw [hTrials, if_pos hHalf]
    exact hNone hHalf

/-- A breaker that opens twice, while a call of its first window is still open; one trial ends by
a panic and one is dropped before the last is admitted. -/
def lateCalls : Ledger :=
  (Ledger.start "db" serverFaults ⟨1, 10, 1, some 5⟩ 0).run
    [(0, .acquire), (6, .acquire), (6, .finish 1 (.verdict .failure)), (16, .acquire),
      (17, .finish 2 .panicked), (27, .acquire), (27, .finish 0 (.verdict .failure)),
      (28, .finish 3 .dropped), (28, .finish 3 .dropped), (28, .acquire)]

theorem trials_in_flight_exact_late_calls :
    lateCalls.generations < 2 ^ 64 ∧ lateCalls.machine.trialsInFlight = 1 ∧
      (lateCalls.machine.acquire 30).1 = .error .tooManyTrials := by
  have hLast : lateCalls.generations < 2 ^ 64 := by decide +kernel
  obtain ⟨hTrials, -, hRefused, -⟩ := trials_in_flight_exact "db" serverFaults ⟨1, 10, 1, some 5⟩ 0
    [(0, .acquire), (6, .acquire), (6, .finish 1 (.verdict .failure)), (16, .acquire),
      (17, .finish 2 .panicked), (27, .acquire), (27, .finish 0 (.verdict .failure)),
      (28, .finish 3 .dropped), (28, .finish 3 .dropped), (28, .acquire)] hLast
  refine ⟨hLast, hTrials.trans (by decide +kernel), (hRefused 30).mpr (by decide +kernel)⟩

end Gatehouse.Breaker
