import Gatehouse.Proofs.Breaker.Reference

/-!
# Which verdicts a breaker with windows hears

A closed breaker with a counting window begins a new generation when the window is over, as it
does when its state changes. A verdict is heard if its call was admitted in the present
generation. So a verdict is lost through a change of state, and just as well through the end of
the window in which its call was admitted, although the breaker did not change state at all.
A call that takes longer than the window is never heard.

* `perform_machine`: what one operation can do to a machine, first time and then the call.
* `Since`: how a machine is related to what it was when a call was admitted.
* `record_since_admission`: what becomes of the verdict on a call.
* `failures_open`: within one window, failures of calls of that window open the breaker.
* `heard_iff_same_window`: a verdict is counted if and only if the state has not changed and the
  window of the admission has not ended, and the failures that are counted open the breaker.
-/

namespace Gatehouse.Breaker

/-! ## Times -/

/-- When an operation happens. A call is abandoned at no particular time. -/
def Operation.time? : Operation → Option Nat
  | .acquire now => some now
  | .record _ _ now => some now
  | .abandon _ => none
  | .state now => some now

/-- Time does not go back, from the time when the machine was created. -/
def Chronological (begun : Nat) (ops : List Operation) : Prop :=
  (begun :: ops.filterMap Operation.time?).Pairwise (· ≤ ·)

instance (begun : Nat) (ops : List Operation) : Decidable (Chronological begun ops) :=
  inferInstanceAs (Decidable (List.Pairwise _ _))

/-- Nothing happens after what happens last. -/
theorem Chronological.le_last {begun t : Nat} {before between : List Operation}
    {op last : Operation} (h : Chronological begun (before ++ op :: (between ++ [last])))
    (hLast : last.time? = some t) :
    ∀ o ∈ between, ∀ now, o.time? = some now → now ≤ t := by
  intro o hMem now hNow
  have hAfter : (between ++ [last]).filterMap Operation.time? |>.Pairwise (· ≤ ·) := by
    refine h.sublist (List.Sublist.cons _ (List.Sublist.filterMap _ ?_))
    exact ((List.sublist_cons_self _ _)).trans (List.sublist_append_right _ _)
  rw [List.filterMap_append, List.pairwise_append] at hAfter
  exact hAfter.2.2 now (List.mem_filterMap.mpr ⟨o, hMem, hNow⟩) t (by simp [hLast])

namespace Machine

/-- The counting window in which a machine is closed has ended. -/
def WindowOver (m : Machine) (now : Nat) : Prop := m.state = .closed ∧ m.expired now = true

instance (m : Machine) (now : Nat) : Decidable (m.WindowOver now) :=
  inferInstanceAs (Decidable (_ ∧ _))

theorem expired_mono {m : Machine} {now t : Nat} (hLe : now ≤ t) (h : m.expired now = true) :
    m.expired t = true := by
  unfold expired at h ⊢
  cases hExpiry : m.expiry with
  | none => simp [hExpiry] at h
  | some expiry =>
    simp only [hExpiry, decide_eq_true_eq] at h ⊢
    exact Nat.le_trans h hLe

/-- A machine that admits calls keeps its generation until its window is over. -/
theorem refresh_generation_iff {m : Machine} (h : m.state ≠ .opened) (now : Nat) :
    (m.refresh now).generation = m.generation ↔ ¬ m.WindowOver now := by
  cases hExpired : m.expired now with
  | false =>
    rw [refresh_of_not_expired hExpired]
    simp [WindowOver, hExpired]
  | true =>
    cases hState : m.state with
    | opened => exact absurd hState h
    | halfOpen =>
      rw [refresh_of_halfOpen hState]
      simp [WindowOver, hState]
    | closed =>
      rw [refresh_of_closed hState hExpired]
      simp [WindowOver, hState, hExpired, newGeneration_eq]

/-! ## What an operation can do to a machine -/

/-- A verdict on a call of the present generation is counted, or it changes the state. -/
theorem count_cases (m : Machine) (v : Verdict) (now : Nat) :
    (∃ c, m.count v now = { m with counts := c }) ∨
      ∃ next, m.state ≠ next ∧ m.count v now = m.setState next now := by
  cases v with
  | ignored => exact .inl ⟨m.counts, rfl⟩
  | success =>
    by_cases h : m.state = .halfOpen
    · exact .inr ⟨.closed, by simp [h], count_success_of_halfOpen h now⟩
    · exact .inl ⟨_, count_success_of_ne h now⟩
  | failure =>
    by_cases h : m.Trips
    · refine .inr ⟨.opened, ?_, count_failure_of_trips h now⟩
      rcases h with h | h <;> simp [h]
    · exact .inl ⟨_, count_failure_of_not_trips h now⟩

/-- What the call of an operation does to a machine, once time has done its part. -/
def Touched (m m' : Machine) : Prop :=
  (∃ c n, m' = { m with counts := c, trialsInFlight := n }) ∨
    ∃ next now, m.state ≠ next ∧ m' = m.setState next now

theorem touched_self (m : Machine) : Touched m m := .inl ⟨m.counts, m.trialsInFlight, rfl⟩

theorem touched_record (m : Machine) (a : Admission) (v : Verdict) (now : Nat) :
    Touched (m.refresh now) (m.record a v now) := by
  obtain ⟨n, hAbandon⟩ := (m.refresh now).abandon_eq a
  rw [record_eq, hAbandon]
  split
  · rcases count_cases { m.refresh now with trialsInFlight := n } v now with
      ⟨c, hCount⟩ | ⟨next, hNe, hCount⟩
    · exact .inl ⟨c, n, hCount⟩
    · refine .inr ⟨next, now, hNe, hCount.trans ?_⟩
      rw [setState_of_ne hNe, setState_of_ne (m := m.refresh now) hNe]
  · exact .inl ⟨(m.refresh now).counts, n, rfl⟩

end Machine

namespace Session

theorem run_cons (s : Session) (op : Operation) (ops : List Operation) :
    s.run (op :: ops) = (s.perform op).2.run ops := rfl

/-- First comes what time alone brings, if the operation has a time, and then what the call
brings. -/
theorem perform_machine (s : Session) (op : Operation) :
    ∃ r, (r = s.machine ∨ ∃ now, op.time? = some now ∧ r = s.machine.refresh now) ∧
      r.Touched (s.perform op).2.machine := by
  cases op with
  | acquire now =>
    refine ⟨s.machine.refresh now, .inr ⟨now, rfl, rfl⟩, ?_⟩
    simp only [perform]
    rcases Machine.acquire_cases s.machine now with ⟨-, h⟩ | ⟨-, h⟩ | ⟨-, -, h⟩
    · rw [h]
      exact Machine.touched_self _
    · rw [h]
      exact Machine.touched_self _
    · rw [h]
      exact .inl ⟨_, _, rfl⟩
  | record call v now =>
    simp only [perform]
    split
    · exact ⟨s.machine.refresh now, .inr ⟨now, rfl, rfl⟩, Machine.touched_record _ _ v now⟩
    · exact ⟨s.machine, .inl rfl, Machine.touched_self _⟩
  | abandon call =>
    refine ⟨s.machine, .inl rfl, ?_⟩
    simp only [perform]
    split
    · obtain ⟨n, hAbandon⟩ := s.machine.abandon_eq ‹Admission›
      exact .inl ⟨s.machine.counts, n, hAbandon⟩
    · exact Machine.touched_self _
  | state now => exact ⟨s.machine.refresh now, .inr ⟨now, rfl, rfl⟩, Machine.touched_self _⟩

/-- A call that is still open when one has ended was open before. -/
theorem pending?_of_set_none {calls : List (Option Admission)} {call i : Nat} {a : Admission}
    (h : pending? (calls.set call none) i = some a) : pending? calls i = some a := by
  rw [pending?_set_none] at h
  split at h
  · cases h
  · exact h

/-- A call that is still open after an operation was open before, unless it is a new one. -/
theorem pending?_of_perform {s : Session} {op : Operation} {call : Nat} {a : Admission}
    (hOld : call < s.calls.length) (h : pending? (s.perform op).2.calls call = some a) :
    pending? s.calls call = some a := by
  cases op with
  | acquire now =>
    simp only [perform] at h
    rcases Machine.acquire_cases s.machine now with ⟨-, hEq⟩ | ⟨-, hEq⟩ | ⟨-, -, hEq⟩
    · rw [hEq] at h
      exact h
    · rw [hEq] at h
      exact h
    · rw [hEq] at h
      simpa [pending?_append, Nat.ne_of_lt hOld] using h
  | record i v now =>
    simp only [perform] at h
    split at h
    · exact pending?_of_set_none h
    · exact h
  | abandon i =>
    simp only [perform] at h
    split at h
    · exact pending?_of_set_none h
    · exact h
  | state now => exact h

theorem length_le_perform (s : Session) (op : Operation) :
    s.calls.length ≤ (s.perform op).2.calls.length := by
  cases op with
  | acquire now =>
    simp only [perform]
    rcases Machine.acquire_cases s.machine now with ⟨-, h⟩ | ⟨-, h⟩ | ⟨-, -, h⟩ <;> simp [h]
  | record call v now =>
    simp only [perform]
    split <;> simp
  | abandon call =>
    simp only [perform]
    split <;> simp
  | state now => exact Nat.le_refl _

theorem pending?_of_run {s : Session} {ops : List Operation} {call : Nat} {a : Admission}
    (hOld : call < s.calls.length) (h : pending? (s.run ops).calls call = some a) :
    pending? s.calls call = some a := by
  induction ops generalizing s with
  | nil => exact h
  | cons op ops ih =>
    have hNext := ih (Nat.lt_of_lt_of_le hOld (length_le_perform s op)) h
    exact pending?_of_perform hOld hNext

end Session

/-! ## Since an admission -/

namespace Machine

/-- A machine `j` generations after it was `first`, with nothing done after time `t`. -/
structure Since (first : Machine) (t j : Nat) (m : Machine) : Prop where
  generation : m.generation = first.generation + UInt64.ofNat j
  same : j = 0 → m.state = first.state ∧ m.expiry = first.expiry ∧
    m.transitions = first.transitions
  grown : first.transitions.length ≤ m.transitions.length
  /-- The first new generation began with a change of state or with the end of the window. -/
  turned : 0 < j → first.transitions.length < m.transitions.length ∨ first.WindowOver t

variable {first m : Machine} {t j : Nat}

theorem since_self (first : Machine) (t : Nat) : Since first t 0 first :=
  ⟨by simp, fun _ => ⟨rfl, rfl, rfl⟩, Nat.le_refl _, fun h => absurd h (Nat.lt_irrefl 0)⟩

theorem generation_succ (g : UInt64) (j : Nat) :
    g + UInt64.ofNat j + 1 = g + UInt64.ofNat (j + 1) := by
  rw [UInt64.add_assoc]
  simp

theorem since_setState (h : Since first t j m) {next : State} (hNe : m.state ≠ next) (now : Nat) :
    Since first t (j + 1) (m.setState next now) := by
  have hGrown := h.grown
  rw [setState_of_ne hNe]
  refine ⟨?_, fun hZero => absurd hZero (Nat.succ_ne_zero j), ?_, fun _ => .inl ?_⟩
  · simp only
    rw [h.generation, generation_succ]
  all_goals
    simp only [List.length_append, List.length_singleton]
    omega

/-- Time ends the window of the admission, or a later generation. -/
theorem since_refresh (h : Since first t j m) {now : Nat} (hLe : now ≤ t) :
    ∃ k, k ≤ 1 ∧ Since first t (j + k) (m.refresh now) := by
  cases hExpired : m.expired now with
  | false =>
    rw [refresh_of_not_expired hExpired]
    exact ⟨0, Nat.zero_le _, h⟩
  | true =>
    cases hState : m.state with
    | opened =>
      rw [refresh_of_opened hState hExpired]
      exact ⟨1, Nat.le_refl _, since_setState h (by simp [hState]) now⟩
    | halfOpen =>
      rw [refresh_of_halfOpen hState]
      exact ⟨0, Nat.zero_le _, h⟩
    | closed =>
      rw [refresh_of_closed hState hExpired, newGeneration_eq]
      refine ⟨1, Nat.le_refl _, ?_, fun hZero => absurd hZero (Nat.succ_ne_zero j), h.grown,
        fun _ => ?_⟩
      · simp only
        rw [h.generation, generation_succ]
      · rcases Nat.eq_zero_or_pos j with hZero | hPos
        · obtain ⟨hFirst, hExpiry, -⟩ := h.same hZero
          refine .inr ⟨hFirst ▸ hState, expired_mono hLe ?_⟩
          unfold expired at hExpired ⊢
          rwa [← hExpiry]
        · exact h.turned hPos

theorem since_touched {m' : Machine} (h : Since first t j m) (hTouched : Touched m m') :
    ∃ k, k ≤ 1 ∧ Since first t (j + k) m' := by
  rcases hTouched with ⟨c, n, rfl⟩ | ⟨next, now, hNe, rfl⟩
  · exact ⟨0, Nat.zero_le _, h.generation, h.same, h.grown, h.turned⟩
  · exact ⟨1, Nat.le_refl _, since_setState h hNe now⟩

end Machine

namespace Session

/-- The step lemma: an operation begins at most two generations. -/
theorem since_perform {first : Machine} {t j : Nat} {s : Session}
    (h : Machine.Since first t j s.machine) {op : Operation}
    (hLe : ∀ now, op.time? = some now → now ≤ t) :
    ∃ k, k ≤ 2 ∧ Machine.Since first t (j + k) (s.perform op).2.machine := by
  obtain ⟨r, hTime, hTouched⟩ := s.perform_machine op
  have hRefresh : ∃ k, k ≤ 1 ∧ Machine.Since first t (j + k) r := by
    rcases hTime with rfl | ⟨now, hNow, rfl⟩
    · exact ⟨0, Nat.zero_le _, h⟩
    · exact Machine.since_refresh h (hLe now hNow)
  obtain ⟨k, hk, hr⟩ := hRefresh
  obtain ⟨l, hl, hAfter⟩ := Machine.since_touched hr hTouched
  exact ⟨k + l, by omega, by rw [← Nat.add_assoc]; exact hAfter⟩

/-- The run lemma. -/
theorem since_run {first : Machine} {t j : Nat} {s : Session}
    (h : Machine.Since first t j s.machine) {ops : List Operation}
    (hLe : ∀ op ∈ ops, ∀ now, op.time? = some now → now ≤ t) :
    ∃ k, k ≤ 2 * ops.length ∧ Machine.Since first t (j + k) (s.run ops).machine := by
  induction ops generalizing s j with
  | nil => exact ⟨0, Nat.zero_le _, h⟩
  | cons op ops ih =>
    obtain ⟨k, hk, hStep⟩ := since_perform h (hLe op List.mem_cons_self)
    obtain ⟨l, hl, hRun⟩ := ih hStep fun o hMem => hLe o (List.mem_cons_of_mem op hMem)
    refine ⟨k + l, by simp only [List.length_cons]; omega, ?_⟩
    rw [← Nat.add_assoc]
    exact hRun

end Session

/-! ## When a verdict is heard -/

namespace Machine.Since

variable {first m : Machine} {t j : Nat}

theorem windowOver_iff (h : Since first t j m) (hZero : j = 0) :
    m.WindowOver t ↔ first.WindowOver t := by
  obtain ⟨hState, hExpiry, -⟩ := h.same hZero
  simp only [WindowOver, expired, hState, hExpiry]

/-- The generation of an admission goes on until the time `t` if the state has not changed and the
window has not ended. -/
theorem generation_refresh (h : Since first t j m) (hFirst : first.state ≠ .opened)
    (hTransitions : m.transitions = first.transitions) (hWindow : ¬ first.WindowOver t) :
    first.generation = (m.refresh t).generation := by
  have hZero : j = 0 := by
    rcases Nat.eq_zero_or_pos j with hZero | hPos
    · exact hZero
    · rcases h.turned hPos with hLt | hOver
      · rw [hTransitions] at hLt
        exact absurd hLt (Nat.lt_irrefl _)
      · exact absurd hOver hWindow
  have hState : m.state ≠ .opened := (h.same hZero).1 ▸ hFirst
  have hStays : ¬ m.WindowOver t := mt (h.windowOver_iff hZero).mp hWindow
  rw [(refresh_generation_iff hState t).mpr hStays, h.generation, hZero]
  simp

/-- Otherwise it has ended, as long as no number of a generation was used again. -/
theorem generation_refresh_ne (h : Since first t j m) (hFirst : first.state ≠ .opened)
    (hFew : j + 1 < 2 ^ 64)
    (hOther : ¬ (m.transitions = first.transitions ∧ ¬ first.WindowOver t)) :
    first.generation ≠ (m.refresh t).generation := by
  intro hEq
  obtain ⟨k, hk, hRefresh⟩ := since_refresh h (Nat.le_refl t)
  have hIndex : j + k = 0 := by
    have hZero : UInt64.ofNat (j + k) = 0 := by
      rw [hRefresh.generation] at hEq
      simpa using hEq.symm
    have hMod : (j + k) % 2 ^ 64 = 0 := by simpa using congrArg UInt64.toNat hZero
    omega
  have hZero : j = 0 := by omega
  obtain ⟨hState, -, hTransitions⟩ := h.same hZero
  refine hOther ⟨hTransitions, fun hOver => ?_⟩
  have hSame : (m.refresh t).generation = m.generation := by
    rw [← hEq, h.generation, hZero]
    simp
  have hOpened : m.state ≠ .opened := hState ▸ hFirst
  exact (refresh_generation_iff hOpened t).mp hSame ((h.windowOver_iff hZero).mpr hOver)

end Machine.Since

namespace Session

theorem machine_perform_record {s : Session} {call : Nat} {a : Admission}
    (h : pending? s.calls call = some a) (v : Verdict) (now : Nat) :
    (s.perform (.record call v now)).2.machine = s.machine.record a v now := by
  simp only [perform, h]

/-- An admitted call is the last of the session, and its admission is of the generation that the
machine is in. -/
theorem perform_admitted {s : Session} {now call : Nat} {trial : Bool}
    (h : (s.perform (.acquire now)).1 = .admitted call trial) :
    call = s.calls.length ∧ (s.perform (.acquire now)).2.machine.state ≠ .opened ∧
      (s.perform (.acquire now)).2.calls =
        s.calls ++ [some ⟨(s.perform (.acquire now)).2.machine.generation, trial⟩] := by
  simp only [perform] at h ⊢
  rcases Machine.acquire_cases s.machine now with ⟨-, hEq⟩ | ⟨-, hEq⟩ | ⟨hState, -, hEq⟩
  · rw [hEq] at h
    cases h
  · rw [hEq] at h
    cases h
  · rw [hEq] at h ⊢
    cases h
    exact ⟨rfl, hState, rfl⟩

/-- An admitted call that is still open keeps the generation of its admission, and the machine is
related to the one that admitted it. -/
theorem since_admitted {s : Session} {entered call t : Nat} {trial : Bool}
    (hAdmitted : (s.perform (.acquire entered)).1 = .admitted call trial)
    {between : List Operation} (hLe : ∀ op ∈ between, ∀ now, op.time? = some now → now ≤ t)
    {a : Admission}
    (hOpen : pending? ((s.perform (.acquire entered)).2.run between).calls call = some a) :
    a.generation = (s.perform (.acquire entered)).2.machine.generation ∧
      ∃ j, j ≤ 2 * between.length ∧ Machine.Since (s.perform (.acquire entered)).2.machine t j
        ((s.perform (.acquire entered)).2.run between).machine := by
  obtain ⟨hCall, -, hCalls⟩ := perform_admitted hAdmitted
  have hOld : call < (s.perform (.acquire entered)).2.calls.length := by
    rw [hCalls, hCall]
    simp
  have hBefore := pending?_of_run hOld hOpen
  rw [hCalls, pending?_append, if_pos hCall] at hBefore
  obtain ⟨j, hj, hSince⟩ := since_run (Machine.since_self _ t) hLe
  rw [Nat.zero_add] at hSince
  refine ⟨?_, j, hj, hSince⟩
  rw [← Option.some.inj hBefore]

end Session

/-! ## Failures within one window -/

namespace Session

/-- Whether an operation is a failing verdict on an open call, and the call is none of the first
`n`. -/
def fails (s : Session) (n : Nat) : Operation → Bool
  | .record call .failure _ => decide (n ≤ call) && (pending? s.calls call).isSome
  | _ => false

/-- The failing verdicts in the course of some operations on calls that are none of the first
`n`. -/
def failures (n : Nat) (s : Session) : List Operation → Nat
  | [] => 0
  | op :: ops => (s.fails n op).toNat + failures n (s.perform op).2 ops

end Session

/-- Whether an operation is a successful verdict. -/
def Operation.succeeds : Operation → Bool
  | .record _ .success _ => true
  | _ => false

/-- The machine is closed in generation `g`, and its window ends at `expiry`; the calls from number
`n` on were admitted in it. -/
structure InWindow (g : UInt64) (expiry : Option Nat) (n : Nat) (s : Session) : Prop where
  closed : s.machine.state = .closed
  generation : s.machine.generation = g
  expiry_eq : s.machine.expiry = expiry
  length_le : n ≤ s.calls.length
  calls : ∀ call a, n ≤ call → pending? s.calls call = some a → a.generation = g

namespace InWindow

variable {g : UInt64} {expiry : Option Nat} {n : Nat} {s : Session}

theorem start (h : s.machine.state = .closed) :
    InWindow s.machine.generation s.machine.expiry s.calls.length s :=
  ⟨h, rfl, rfl, Nat.le_refl _, fun call a hLe hOpen => by
    have hNone : s.calls[call]? = none := List.getElem?_eq_none hLe
    simp [pending?, hNone] at hOpen⟩

/-- What matters of the machine is neither counts nor trials. -/
theorem next (h : InWindow g expiry n s) (c : Counts) (k : Nat) {calls : List (Option Admission)}
    (hLength : n ≤ calls.length)
    (hCalls : ∀ call a, n ≤ call → pending? calls call = some a → a.generation = g) :
    InWindow g expiry n ⟨{ s.machine with counts := c, trialsInFlight := k }, calls⟩ :=
  ⟨h.closed, h.generation, h.expiry_eq, hLength, hCalls⟩

theorem resolve (h : InWindow g expiry n s) (c : Counts) (k i : Nat) :
    InWindow g expiry n
      ⟨{ s.machine with counts := c, trialsInFlight := k }, s.calls.set i none⟩ := by
  refine h.next c k (by simpa using h.length_le) fun call a hLe hOpen => ?_
  exact h.calls call a hLe (Session.pending?_of_set_none hOpen)

theorem admitted (h : InWindow g expiry n s) (trial : Bool) :
    InWindow g expiry n ⟨s.machine.admitted, s.calls ++ [some ⟨s.machine.generation, trial⟩]⟩ := by
  refine h.next _ _ (by simpa using Nat.le_succ_of_le h.length_le) fun call a hLe hOpen => ?_
  rw [pending?_append] at hOpen
  split at hOpen
  · cases hOpen
    exact h.generation
  · exact h.calls call a hLe hOpen

end InWindow

/-- The session `s'` has counted `b` more failures than `s`, and if there were any they are not
enough. -/
structure Patient (s s' : Session) (b : Nat) : Prop where
  settings : s'.machine.settings = s.machine.settings
  transitions : s'.machine.transitions = s.machine.transitions
  counted : s.machine.counts.consecutiveFailures + b ≤ s'.machine.counts.consecutiveFailures
  below : 0 < b →
    s'.machine.counts.consecutiveFailures < s.machine.settings.failureThreshold.toNat

/-- An operation that has nothing to do with failures. -/
theorem patient_zero {s s' : Session} (hSettings : s'.machine.settings = s.machine.settings)
    (hTransitions : s'.machine.transitions = s.machine.transitions)
    (hCounted : s'.machine.counts.consecutiveFailures = s.machine.counts.consecutiveFailures) :
    Patient s s' 0 :=
  ⟨hSettings, hTransitions, Nat.le_of_eq hCounted.symm, fun h => absurd h (Nat.lt_irrefl 0)⟩

/-- The machine has opened in one step. -/
def Opens (s s' : Session) : Prop :=
  s'.machine.transitions = s.machine.transitions ++ [⟨.closed, .opened⟩]

namespace InWindow

variable {g : UInt64} {expiry : Option Nat} {n : Nat} {s : Session}

/-- A failing verdict within the window opens the machine, or is counted if its call belongs to
the window. -/
theorem record_failure (h : InWindow g expiry n s) {call now : Nat} {a : Admission}
    (hNow : s.machine.expired now = false) (hOpen : pending? s.calls call = some a) :
    Opens s ⟨s.machine.record a .failure now, s.calls.set call none⟩ ∨
      InWindow g expiry n ⟨s.machine.record a .failure now, s.calls.set call none⟩ ∧
        Patient s ⟨s.machine.record a .failure now, s.calls.set call none⟩
          (decide (n ≤ call)).toNat := by
  obtain ⟨k, hAbandon⟩ := s.machine.abandon_eq a
  have hRecord := Machine.record_eq s.machine a .failure now
  rw [Machine.refresh_of_not_expired hNow, hAbandon] at hRecord
  by_cases hGeneration : a.generation = s.machine.generation
  · rw [if_pos hGeneration] at hRecord
    by_cases hTrips : ({ s.machine with trialsInFlight := k } : Machine).Trips
    · left
      have hNe : s.machine.state ≠ .opened := by simp [h.closed]
      rw [hRecord, Machine.count_failure_of_trips hTrips,
        Machine.setState_of_ne (m := { s.machine with trialsInFlight := k }) hNe]
      simp [Opens, h.closed]
    · right
      rw [hRecord, Machine.count_failure_of_not_trips hTrips]
      obtain ⟨hUp, hBelow⟩ := Machine.consecutiveFailures_of_not_trips h.closed hTrips
      refine ⟨h.resolve _ k call, rfl, rfl, ?_, fun _ => hBelow⟩
      have hAtMost := Bool.toNat_le (decide (n ≤ call))
      simp only [hUp]
      omega
  · right
    rw [if_neg hGeneration] at hRecord
    have hOther : ¬ n ≤ call := fun hLe =>
      hGeneration ((h.calls call a hLe hOpen).trans h.generation.symm)
    rw [hRecord, decide_eq_false hOther]
    exact ⟨h.resolve _ k call, patient_zero rfl rfl rfl⟩

/-- A verdict that is ignored frees the place of its call. -/
theorem record_ignored (h : InWindow g expiry n s) (call : Nat) (a : Admission) {now : Nat}
    (hNow : s.machine.expired now = false) :
    InWindow g expiry n ⟨s.machine.record a .ignored now, s.calls.set call none⟩ ∧
      Patient s ⟨s.machine.record a .ignored now, s.calls.set call none⟩ 0 := by
  obtain ⟨k, hAbandon⟩ := s.machine.abandon_eq a
  rw [Machine.record_ignored_eq, Machine.refresh_of_not_expired hNow, hAbandon]
  exact ⟨h.resolve _ k call, patient_zero rfl rfl rfl⟩

theorem record_success (h : InWindow g expiry n s) {call now : Nat} {a : Admission}
    (hNow : s.machine.expired now = false) :
    InWindow g expiry n ⟨s.machine.record a .success now, s.calls.set call none⟩ := by
  obtain ⟨k, hAbandon⟩ := s.machine.abandon_eq a
  have hClosed : ({ s.machine with trialsInFlight := k } : Machine).state ≠ .halfOpen := by
    simp [h.closed]
  rw [Machine.record_eq, Machine.refresh_of_not_expired hNow, hAbandon,
    Machine.count_success_of_ne hClosed]
  split
  · exact h.resolve _ k call
  · exact h.resolve _ k call

/-- The step lemma: an operation within the window opens the machine or leaves it in the window,
and failures add up unless there is a success. -/
theorem perform (h : InWindow g expiry n s) {op : Operation}
    (hNow : ∀ now, op.time? = some now → s.machine.expired now = false) :
    Opens s (s.perform op).2 ∨
      InWindow g expiry n (s.perform op).2 ∧
        (op.succeeds = false → Patient s (s.perform op).2 (s.fails n op).toNat) := by
  cases op with
  | acquire now =>
    have hRefresh := Machine.refresh_of_not_expired (hNow now rfl)
    have hState : (s.machine.refresh now).state ≠ .opened := by simp [hRefresh, h.closed]
    have hRoom : ¬ (s.machine.refresh now).Crowded := by
      simp [Machine.Crowded, hRefresh, h.closed]
    have hAcquire := Machine.acquire_of_room hState hRoom
    rw [hRefresh] at hAcquire
    right
    simp only [Session.perform, hAcquire, Session.fails, Bool.toNat_false]
    exact ⟨h.admitted _, fun _ => patient_zero rfl rfl rfl⟩
  | record call v now =>
    cases hOpen : pending? s.calls call with
    | none =>
      right
      cases v <;> simp only [Session.perform, hOpen, Session.fails, Option.isSome_none,
        Bool.and_false, Bool.toNat_false] <;> exact ⟨h, fun _ => patient_zero rfl rfl rfl⟩
    | some a =>
      simp only [Session.perform, hOpen]
      cases v with
      | success => exact .inr ⟨h.record_success (hNow now rfl), fun hFails => by cases hFails⟩
      | ignored =>
        obtain ⟨hWindow, hPatient⟩ := h.record_ignored call a (hNow now rfl)
        exact .inr ⟨hWindow, fun _ => hPatient⟩
      | failure =>
        simp only [Session.fails, hOpen, Option.isSome_some, Bool.and_true]
        rcases h.record_failure (hNow now rfl) hOpen with hOpens | ⟨hWindow, hPatient⟩
        · exact .inl hOpens
        · exact .inr ⟨hWindow, fun _ => hPatient⟩
  | abandon call =>
    right
    simp only [Session.perform, Session.fails, Bool.toNat_false]
    split
    · obtain ⟨k, hAbandon⟩ := s.machine.abandon_eq ‹Admission›
      rw [hAbandon]
      exact ⟨h.resolve _ k call, fun _ => patient_zero rfl rfl rfl⟩
    · exact ⟨h, fun _ => patient_zero rfl rfl rfl⟩
  | state now =>
    right
    simp only [Session.perform, Machine.refresh_of_not_expired (hNow now rfl), Session.fails,
      Bool.toNat_false]
    exact ⟨h, fun _ => patient_zero rfl rfl rfl⟩

end InWindow

/-! ### Changes of state stay noted -/

namespace Machine

theorem prefix_transitions_refresh (m : Machine) (now : Nat) :
    m.transitions <+: (m.refresh now).transitions := by
  cases turn_refresh m now with
  | kept c eq => exact eq ▸ List.prefix_rfl
  | window closed eq => exact eq ▸ List.prefix_rfl
  | change next ne eq =>
    rw [eq, setState_of_ne ne]
    exact List.prefix_append _ _

theorem Touched.prefix_transitions {m m' : Machine} (h : Touched m m') :
    m.transitions <+: m'.transitions := by
  rcases h with ⟨c, n, rfl⟩ | ⟨next, now, hNe, rfl⟩
  · exact List.prefix_rfl
  · rw [setState_of_ne hNe]
    exact List.prefix_append _ _

end Machine

namespace Session

theorem prefix_transitions_perform (s : Session) (op : Operation) :
    s.machine.transitions <+: (s.perform op).2.machine.transitions := by
  obtain ⟨r, hTime, hTouched⟩ := s.perform_machine op
  refine List.IsPrefix.trans ?_ hTouched.prefix_transitions
  rcases hTime with rfl | ⟨now, -, rfl⟩
  · exact List.prefix_rfl
  · exact s.machine.prefix_transitions_refresh now

theorem prefix_transitions_run (s : Session) (ops : List Operation) :
    s.machine.transitions <+: (s.run ops).machine.transitions := by
  induction ops generalizing s with
  | nil => exact List.prefix_rfl
  | cons op ops ih => exact (prefix_transitions_perform s op).trans (ih _)

end Session

/-- No operation happens after the window that the machine is in has ended. -/
def WithinWindow (m : Machine) (ops : List Operation) : Prop :=
  ∀ op ∈ ops, ∀ now, op.time? = some now → m.expired now = false

instance (m : Machine) (ops : List Operation) : Decidable (WithinWindow m ops) :=
  decidable_of_iff (∀ op ∈ ops, ∀ now ∈ op.time?, m.expired now = false) Iff.rfl

theorem WithinWindow.congr {m m' : Machine} {ops : List Operation} (h : WithinWindow m ops)
    (hExpiry : m'.expiry = m.expiry) : WithinWindow m' ops := by
  intro op hMem now hNow
  have hOld := h op hMem now hNow
  unfold Machine.expired at hOld ⊢
  rwa [hExpiry]

section Runs

variable {g : UInt64} {expiry : Option Nat} {n : Nat} {s : Session} {op : Operation}
  {ops : List Operation}

theorem WithinWindow.perform (h : InWindow g expiry n s)
    (hNext : InWindow g expiry n (s.perform op).2) (hWithin : WithinWindow s.machine (op :: ops)) :
    WithinWindow (s.perform op).2.machine ops := by
  have hRest : WithinWindow s.machine ops := fun o hMem => hWithin o (List.mem_cons_of_mem op hMem)
  exact hRest.congr (hNext.expiry_eq.trans h.expiry_eq.symm)

/-- A machine that has not changed its state is still in its window. -/
theorem inWindow_run (h : InWindow g expiry n s) (hWithin : WithinWindow s.machine ops)
    (hSame : (s.run ops).machine.transitions = s.machine.transitions) :
    InWindow g expiry n (s.run ops) := by
  induction ops generalizing s with
  | nil => exact h
  | cons op ops ih =>
    have hPrefix := Session.prefix_transitions_run (s.perform op).2 ops
    have hLe := hPrefix.length_le
    rw [← Session.run_cons, hSame] at hPrefix hLe
    rcases h.perform (hWithin op List.mem_cons_self) with hOpens | ⟨hNext, -⟩
    · rw [hOpens, List.length_append, List.length_singleton] at hLe
      exact absurd hLe (Nat.not_succ_le_self _)
    · have hStep := Session.prefix_transitions_perform s op
      have hNone : (s.perform op).2.machine.transitions = s.machine.transitions :=
        (hStep.eq_of_length_le hLe).symm
      exact ih hNext (hWithin.perform h hNext) (hSame.trans hNone.symm)

/-- The run lemma: failures in a row, of which at least one is still to come, open the machine in
the end. -/
theorem opens_run (h : InWindow g expiry n s) (hWithin : WithinWindow s.machine ops)
    (hFails : ∀ op ∈ ops, op.succeeds = false) (hSome : 0 < Session.failures n s ops)
    (hEnough : s.machine.settings.failureThreshold.toNat ≤
      s.machine.counts.consecutiveFailures + Session.failures n s ops) :
    (s.machine.transitions ++ [⟨.closed, .opened⟩]) <+: (s.run ops).machine.transitions := by
  induction ops generalizing s with
  | nil => exact absurd hSome (Nat.lt_irrefl 0)
  | cons op ops ih =>
    rcases h.perform (hWithin op List.mem_cons_self) with hOpens | ⟨hNext, hAdds⟩
    · rw [← hOpens]
      exact Session.prefix_transitions_run _ ops
    · have hPatient := hAdds (hFails op List.mem_cons_self)
      have hCounted := hPatient.counted
      have hBelow := hPatient.below
      simp only [Session.failures] at hSome hEnough
      have hRun := ih hNext (hWithin.perform h hNext)
        (fun o hMem => hFails o (List.mem_cons_of_mem op hMem))
        (by omega) (by rw [hPatient.settings]; omega)
      rwa [hPatient.transitions] at hRun

end Runs

namespace Session

theorem settings_perform (s : Session) (op : Operation) :
    (s.perform op).2.machine.settings = s.machine.settings := by
  obtain ⟨r, hTime, hTouched⟩ := s.perform_machine op
  have hRefresh : r.settings = s.machine.settings := by
    rcases hTime with rfl | ⟨now, -, rfl⟩
    · rfl
    · exact Machine.settings_refresh _ now
  rw [← hRefresh]
  rcases hTouched with ⟨c, k, hEq⟩ | ⟨next, now, hNe, hEq⟩
  · rw [hEq]
  · rw [hEq, Machine.setState_of_ne hNe]

theorem settings_run (s : Session) (ops : List Operation) :
    (s.run ops).machine.settings = s.machine.settings := by
  induction ops generalizing s with
  | nil => rfl
  | cons op ops ih => exact (ih _).trans (settings_perform s op)

theorem run_append (s : Session) (ops more : List Operation) :
    s.run (ops ++ more) = (s.run ops).run more := List.foldl_append

end Session

namespace Session

/-- A verdict is counted if the state has not changed since the admission of its call and the window
of the admission has not ended; otherwise, as long as no number of a generation is used twice, it
leaves the machine as time alone does. -/
theorem record_since_admission {s : Session} {entered call t : Nat} {trial : Bool}
    (hAdmitted : (s.perform (.acquire entered)).1 = .admitted call trial)
    {between : List Operation} (hLe : ∀ op ∈ between, ∀ now, op.time? = some now → now ≤ t)
    {a : Admission}
    (hOpen : pending? ((s.perform (.acquire entered)).2.run between).calls call = some a)
    (v : Verdict) :
    let first := (s.perform (.acquire entered)).2
    let last := first.run between
    let same := last.machine.transitions = first.machine.transitions ∧
      ¬ first.machine.WindowOver t
    (same → (last.perform (.record call v t)).2.machine =
      ((last.machine.refresh t).abandon a).count v t) ∧
    (¬ same → between.length < 2 ^ 63 →
      (last.perform (.record call v t)).2.machine = last.machine.refresh t) := by
  intro first last same
  obtain ⟨hAdmission, j, hj, hSince⟩ := since_admitted hAdmitted hLe hOpen
  have hFirst := (perform_admitted hAdmitted).2.1
  rw [machine_perform_record hOpen, Machine.record_eq, hAdmission]
  constructor
  · rintro ⟨hTransitions, hWindow⟩
    rw [if_pos (hSince.generation_refresh hFirst hTransitions hWindow)]
  · intro hOther hFew
    have hNe := hSince.generation_refresh_ne hFirst (by omega) hOther
    rw [if_neg hNe, Machine.abandon_of_ne (by rw [hAdmission]; exact hNe)]

/-- As many failures as the threshold, within one window and on calls of that window, with no
success between them, open a closed machine. -/
theorem failures_open {s : Session} (hClosed : s.machine.state = .closed)
    {earlier later : List Operation} (hWithin : WithinWindow s.machine (earlier ++ later))
    (hSame : (s.run earlier).machine.transitions = s.machine.transitions)
    (hFails : ∀ op ∈ later, op.succeeds = false)
    (hEnough : max 1 s.machine.settings.failureThreshold.toNat ≤
      failures s.calls.length (s.run earlier) later) :
    (s.machine.transitions ++ [⟨.closed, .opened⟩]) <+:
      (s.run (earlier ++ later)).machine.transitions := by
  have hEarlier : WithinWindow s.machine earlier :=
    fun op hMem => hWithin op (List.mem_append_left later hMem)
  have hWindow := inWindow_run (.start hClosed) hEarlier hSame
  have hLater : WithinWindow (s.run earlier).machine later :=
    WithinWindow.congr (fun op hMem => hWithin op (List.mem_append_right earlier hMem))
      hWindow.expiry_eq
  have hOpens := opens_run hWindow hLater hFails (by omega) (by rw [settings_run]; omega)
  rw [run_append, ← hSame]
  exact hOpens

end Session

/-- The verdict at time `t` on a call that was admitted after `before` and is still open after
`between` is counted if the state has not changed since the admission and the window of the
admission has not ended; otherwise, as long as no number of a generation is used twice, it leaves
the machine as time alone does. And as many failing verdicts as the threshold, on calls of one
window and within it, with no success between them, open a closed machine. -/
theorem heard_iff_same_window (settings : Settings) (begun : Nat) (before : List Operation) :
    let s := (Session.start settings begun).run before
    (∀ entered call trial between a v t,
      Chronological begun (before ++ .acquire entered :: (between ++ [.record call v t])) →
      (s.perform (.acquire entered)).1 = .admitted call trial →
      let first := (s.perform (.acquire entered)).2
      let last := first.run between
      let same := last.machine.transitions = first.machine.transitions ∧
        ¬ first.machine.WindowOver t
      pending? last.calls call = some a →
        (same → (last.perform (.record call v t)).2.machine =
          ((last.machine.refresh t).abandon a).count v t) ∧
        (¬ same → between.length < 2 ^ 63 →
          (last.perform (.record call v t)).2.machine = last.machine.refresh t)) ∧
    (s.machine.state = .closed → ∀ earlier later,
      WithinWindow s.machine (earlier ++ later) →
      (s.run earlier).machine.transitions = s.machine.transitions →
      (∀ op ∈ later, op.succeeds = false) →
      max 1 settings.failureThreshold.toNat ≤
        Session.failures s.calls.length (s.run earlier) later →
      (s.machine.transitions ++ [⟨.closed, .opened⟩]) <+:
        (s.run (earlier ++ later)).machine.transitions) := by
  intro s
  constructor
  · intro entered call trial between a v t hTimes hAdmitted first last same hOpen
    exact Session.record_since_admission hAdmitted (hTimes.le_last rfl) hOpen v
  · intro hClosed earlier later hWithin hSame hFails hEnough
    have hSettings : s.machine.settings = settings := Session.settings_run _ before
    exact Session.failures_open hClosed hWithin hSame hFails (by rwa [hSettings])

/-- Two calls of one window; a verdict on the first of them while the window lasts is counted, one
after its end is not, and two failures while it lasts open the breaker. -/
theorem heard_iff_same_window_two_calls :
    let s : Session := .start ⟨2, 100, 1, some 5⟩ 0
    let admitted := s.run [.acquire 0, .acquire 1]
    (admitted.perform (.record 0 .failure 4)).2.machine.counts = ⟨2, 0, 1, 0, 1⟩ ∧
      (admitted.perform (.record 0 .failure 6)).2.machine = admitted.machine.refresh 6 ∧
      [⟨.closed, .opened⟩] <+:
        (s.run ([.acquire 0, .acquire 1] ++
          [.record 0 .failure 3, .record 1 .failure 4])).machine.transitions := by
  intro s admitted
  obtain ⟨hVerdict, hFailures⟩ := heard_iff_same_window ⟨2, 100, 1, some 5⟩ 0 []
  obtain ⟨hCounted, -⟩ := hVerdict 0 0 false [.acquire 1] ⟨1, false⟩ .failure 4
    (by decide) (by decide) (by decide)
  obtain ⟨-, hLost⟩ := hVerdict 0 0 false [.acquire 1] ⟨1, false⟩ .failure 6
    (by decide) (by decide) (by decide)
  refine ⟨?_, hLost (by decide) (by decide), ?_⟩
  · exact (congrArg Machine.counts (hCounted (by decide))).trans (by decide)
  · exact hFailures rfl [.acquire 0, .acquire 1] [.record 0 .failure 3, .record 1 .failure 4]
      (by decide) (by decide) (by decide) (by decide)

/-- Two calls that are slower than the window of their admission and fail, both in the next one. -/
def slowCalls : List Operation :=
  [.acquire 0, .acquire 0, .record 0 .failure 6, .record 1 .failure 7]

/-- A verdict may be lost although the state has not changed, and failures within one window, as
many as the threshold, may leave a breaker closed. -/
theorem not_always_heard :
    (¬ ∀ (settings : Settings) (begun : Nat) (before between : List Operation)
        (entered call t : Nat) (trial : Bool) (a : Admission) (v : Verdict),
      Chronological begun (before ++ .acquire entered :: (between ++ [.record call v t])) →
      let s := (Session.start settings begun).run before
      let first := (s.perform (.acquire entered)).2
      let last := first.run between
      (s.perform (.acquire entered)).1 = .admitted call trial →
      pending? last.calls call = some a →
      last.machine.transitions = first.machine.transitions →
      (last.perform (.record call v t)).2.machine =
        ((last.machine.refresh t).abandon a).count v t) ∧
    Chronological 0 slowCalls ∧
      ((Session.start ⟨2, 100, 1, some 5⟩ 0).run slowCalls).machine.state = .closed ∧
      ((Session.start ⟨2, 100, 1, some 5⟩ 0).run slowCalls).machine.transitions = [] := by
  refine ⟨fun h => ?_, by decide, by decide, by decide⟩
  have hCounted := h ⟨2, 100, 1, some 5⟩ 0 [] [.acquire 0] 0 0 6 false ⟨1, false⟩ .failure
    (by decide) (by decide) (by decide) (by decide)
  exact absurd hCounted (by decide)

end Gatehouse.Breaker
