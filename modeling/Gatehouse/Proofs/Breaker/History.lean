import Gatehouse.Proofs.Breaker.Windows

/-!
# The changes of state that a machine makes

A machine notes its changes of state until somebody takes them. What is noted does not decide what
the machine does, so a machine that is drained now and then makes the same changes as one that
never is. They form a way through the states that begins closed and ends where the machine is, and
no operation adds more than one of them, as long as the generations can be told apart.

* `Leads`: a way through the states.
* `Session.leads_run`: the changes of a run lead from closed to the present state.
* `Session.length_perform_le`: an operation adds at most one.
* `Session.perform_noting`: a machine that has been drained does what it would have done.
-/

namespace Gatehouse.Breaker

/-- The changes of state that there are. -/
def Transition.edges : List Transition :=
  [⟨.closed, .opened⟩, ⟨.opened, .halfOpen⟩, ⟨.halfOpen, .closed⟩, ⟨.halfOpen, .opened⟩]

/-- Changes of state lead from one state to another. -/
def Leads : State → List Transition → State → Prop
  | s, [], s' => s = s'
  | s, t :: ts, s' => t.source = s ∧ t ∈ Transition.edges ∧ Leads t.target ts s'

theorem Leads.concat {s middle next : State} {ts : List Transition} (h : Leads s ts middle)
    (hEdge : ⟨middle, next⟩ ∈ Transition.edges) : Leads s (ts ++ [⟨middle, next⟩]) next := by
  induction ts generalizing s with
  | nil => exact ⟨h.symm, hEdge, rfl⟩
  | cons t ts ih => exact ⟨h.1, h.2.1, ih h.2.2⟩

/-- A way ends with the target of its last change. -/
theorem Leads.target_eq {s s' : State} {ts : List Transition} (h : Leads s ts s') {t : Transition}
    (hLast : ts.getLast? = some t) : t.target = s' := by
  induction ts generalizing s with
  | nil => cases hLast
  | cons first ts ih =>
    cases ts with
    | nil =>
      obtain rfl := Option.some.inj hLast
      exact h.2.2
    | cons second rest => exact ih h.2.2 hLast

theorem Leads.split {s s' : State} {ts more : List Transition} (h : Leads s (ts ++ more) s') :
    ∃ middle, Leads s ts middle ∧ Leads middle more s' := by
  induction ts generalizing s with
  | nil => exact ⟨s, rfl, h⟩
  | cons t ts ih =>
    obtain ⟨middle, hFirst, hMore⟩ := ih h.2.2
    exact ⟨middle, ⟨h.1, h.2.1, hFirst⟩, hMore⟩

/-- No change stays where it was. -/
theorem Transition.source_ne_target {t : Transition} (h : t ∈ Transition.edges) :
    t.source ≠ t.target := by
  revert t
  decide

namespace Machine

variable {m : Machine}

/-! ## A way through the states -/

/-- The changes that the machine has noted lead from closed to its state. -/
def Traced (m : Machine) : Prop := Leads .closed m.transitions m.state

theorem Traced.congr {m' : Machine} (h : m.Traced) (hState : m'.state = m.state)
    (hTransitions : m'.transitions = m.transitions) : m'.Traced := by
  unfold Traced
  rw [hState, hTransitions]
  exact h

theorem Traced.setState (h : m.Traced) {next : State}
    (hEdge : ⟨m.state, next⟩ ∈ Transition.edges) (now : Nat) : (m.setState next now).Traced := by
  have hNe : m.state ≠ next := by
    rintro rfl
    revert hEdge
    cases m.state <;> decide
  unfold Traced
  rw [setState_of_ne hNe]
  exact h.concat hEdge

theorem Traced.refresh (h : m.Traced) (now : Nat) : (m.refresh now).Traced := by
  cases hExpired : m.expired now with
  | false =>
    rw [refresh_of_not_expired hExpired]
    exact h
  | true =>
    cases hState : m.state with
    | closed =>
      rw [refresh_of_closed hState hExpired]
      exact h.congr rfl rfl
    | opened =>
      rw [refresh_of_opened hState hExpired]
      exact h.setState (by simp [hState, Transition.edges]) now
    | halfOpen =>
      rw [refresh_of_halfOpen hState]
      exact h

theorem Traced.abandon (h : m.Traced) (a : Admission) : (m.abandon a).Traced := by
  obtain ⟨n, hAbandon⟩ := m.abandon_eq a
  rw [hAbandon]
  exact h.congr rfl rfl

theorem Traced.count (h : m.Traced) (v : Verdict) (now : Nat) : (m.count v now).Traced := by
  cases v with
  | ignored => exact h
  | success =>
    by_cases hHalf : m.state = .halfOpen
    · rw [count_success_of_halfOpen hHalf]
      exact h.setState (by simp [hHalf, Transition.edges]) now
    · rw [count_success_of_ne hHalf]
      exact h.congr rfl rfl
  | failure =>
    by_cases hTrips : m.Trips
    · rw [count_failure_of_trips hTrips]
      refine h.setState ?_ now
      rcases hTrips with hHalf | ⟨hClosed, -⟩
      · simp [hHalf, Transition.edges]
      · simp [hClosed, Transition.edges]
    · rw [count_failure_of_not_trips hTrips]
      exact h.congr rfl rfl

theorem Traced.record (h : m.Traced) (a : Admission) (v : Verdict) (now : Nat) :
    (m.record a v now).Traced := by
  have hAbandoned := (h.refresh now).abandon a
  rw [record_eq]
  split
  · exact hAbandoned.count v now
  · exact hAbandoned

theorem Traced.acquire (h : m.Traced) (now : Nat) : (m.acquire now).2.Traced := by
  have hRefreshed := h.refresh now
  rcases acquire_cases m now with ⟨-, hEq⟩ | ⟨-, hEq⟩ | ⟨-, -, hEq⟩
  · rw [hEq]
    exact hRefreshed
  · rw [hEq]
    exact hRefreshed
  · rw [hEq]
    exact hRefreshed.congr rfl rfl

/-! ## What was noted before -/

/-- The machine with changes that it noted before all others. -/
def noting (m : Machine) (ts : List Transition) : Machine :=
  { m with transitions := ts ++ m.transitions }

theorem setState_noting (m : Machine) (ts : List Transition) (next : State) (now : Nat) :
    (m.noting ts).setState next now = (m.setState next now).noting ts := by
  by_cases h : m.state = next
  · rw [setState, setState, if_pos h, if_pos (show (m.noting ts).state = next from h)]
  · rw [setState_of_ne h, setState_of_ne (m := m.noting ts) h]
    simp [noting]

theorem refresh_noting (m : Machine) (ts : List Transition) (now : Nat) :
    (m.noting ts).refresh now = (m.refresh now).noting ts := by
  cases hExpired : m.expired now with
  | false => rw [refresh_of_not_expired hExpired, refresh_of_not_expired (m := m.noting ts) hExpired]
  | true =>
    cases hState : m.state with
    | closed =>
      rw [refresh_of_closed hState hExpired, refresh_of_closed (m := m.noting ts) hState hExpired]
      rfl
    | opened =>
      rw [refresh_of_opened hState hExpired, refresh_of_opened (m := m.noting ts) hState hExpired]
      exact setState_noting m ts .halfOpen now
    | halfOpen => rw [refresh_of_halfOpen hState, refresh_of_halfOpen (m := m.noting ts) hState]

theorem abandon_noting (m : Machine) (ts : List Transition) (a : Admission) :
    (m.noting ts).abandon a = (m.abandon a).noting ts := by
  by_cases h : a.generation = m.generation
  · rw [abandon_of_eq h, abandon_of_eq (m := m.noting ts) h]
    rfl
  · rw [abandon_of_ne h, abandon_of_ne (m := m.noting ts) h]

theorem count_noting (m : Machine) (ts : List Transition) (v : Verdict) (now : Nat) :
    (m.noting ts).count v now = (m.count v now).noting ts := by
  cases v with
  | ignored => rfl
  | success =>
    by_cases h : m.state = .halfOpen
    · rw [count_success_of_halfOpen h, count_success_of_halfOpen (m := m.noting ts) h]
      exact setState_noting m ts .closed now
    · rw [count_success_of_ne h, count_success_of_ne (m := m.noting ts) h]
      rfl
  | failure =>
    by_cases h : m.Trips
    · rw [count_failure_of_trips h, count_failure_of_trips (m := m.noting ts) h]
      exact setState_noting m ts .opened now
    · rw [count_failure_of_not_trips h, count_failure_of_not_trips (m := m.noting ts) h]
      rfl

theorem record_noting (m : Machine) (ts : List Transition) (a : Admission) (v : Verdict)
    (now : Nat) : (m.noting ts).record a v now = (m.record a v now).noting ts := by
  rw [record_eq, record_eq, refresh_noting, abandon_noting, count_noting]
  have hSame : ((m.refresh now).noting ts).generation = (m.refresh now).generation := rfl
  rw [hSame]
  split <;> rfl

theorem acquire_noting (m : Machine) (ts : List Transition) (now : Nat) :
    (m.noting ts).acquire now = ((m.acquire now).1, (m.acquire now).2.noting ts) := by
  have hRefresh := refresh_noting m ts now
  rcases acquire_cases m now with ⟨hOpened, hEq⟩ | ⟨hCrowded, hEq⟩ | ⟨hNot, hRoom, hEq⟩
  · rw [hEq, acquire_of_opened (by rw [hRefresh]; exact hOpened), hRefresh]
  · rw [hEq, acquire_of_crowded (by rw [hRefresh]; exact hCrowded), hRefresh]
  · rw [hEq, acquire_of_room (by rw [hRefresh]; exact hNot) (by rw [hRefresh]; exact hRoom),
      hRefresh]
    rfl

/-- The machine once its changes have been taken. -/
def drained (m : Machine) : Machine := { m with transitions := [] }

theorem noting_drained (m : Machine) (ts : List Transition) :
    m.noting ts = m.drained.noting (ts ++ m.transitions) := by
  simp [noting, drained]

end Machine

namespace Session

/-- The session in which the machine had noted changes before. -/
def noting (s : Session) (ts : List Transition) : Session := { s with machine := s.machine.noting ts }

/-- What was noted before does not decide what an operation does. -/
theorem perform_noting (s : Session) (ts : List Transition) (op : Operation) :
    (s.noting ts).perform op = ((s.perform op).1, (s.perform op).2.noting ts) := by
  cases op with
  | acquire now =>
    simp only [perform, noting, Machine.acquire_noting]
    cases s.machine.acquire now with
    | mk answer m => cases answer <;> rfl
  | record call v now =>
    simp only [perform, noting, Machine.record_noting]
    cases pending? s.calls call <;> rfl
  | abandon call =>
    simp only [perform, noting, Machine.abandon_noting]
    cases pending? s.calls call <;> rfl
  | state now =>
    simp only [perform, noting, Machine.refresh_noting]
    rfl

theorem traced_perform {s : Session} (h : s.machine.Traced) (op : Operation) :
    (s.perform op).2.machine.Traced := by
  cases op with
  | acquire now =>
    have hAcquired := h.acquire now
    simp only [perform]
    split
    · next hEq =>
      rw [hEq] at hAcquired
      exact hAcquired
    · next hEq =>
      rw [hEq] at hAcquired
      exact hAcquired
  | record call v now =>
    simp only [perform]
    split
    · exact h.record _ v now
    · exact h
  | abandon call =>
    simp only [perform]
    split
    · exact h.abandon _
    · exact h
  | state now => exact h.refresh now

/-- The machine is in its `n`-th generation, and its open calls are of those that were begun. -/
structure Numbered (s : Session) (n : Nat) : Prop where
  pos : 0 < n
  generation : s.machine.generation = generationOf n
  calls : ∀ call a, pending? s.calls call = some a →
    ∃ k, 0 < k ∧ k ≤ n ∧ a.generation = generationOf k

/-- A turn begins at most one generation, and notes no more changes than that. -/
theorem numbered_turn {m m' : Machine} {now n : Nat} (ht : Machine.Turn now m m')
    (h : m.generation = generationOf n) :
    ∃ j, j ≤ 1 ∧ m'.generation = generationOf (n + j) ∧
      m'.transitions.length ≤ m.transitions.length + j := by
  cases ht with
  | kept c eq => exact ⟨0, by omega, by rw [eq]; exact h, by rw [eq]; exact Nat.le_refl _⟩
  | window _ eq =>
    rw [eq, Machine.newGeneration_eq]
    exact ⟨1, by omega, by rw [← generationOf_succ, ← h], Nat.le_succ _⟩
  | change next ne eq =>
    rw [eq, Machine.setState_of_ne ne]
    exact ⟨1, by omega, by rw [← generationOf_succ, ← h], by simp⟩

/-- A verdict is heard only if time has brought nothing. -/
theorem numbered_record {m : Machine} {a : Admission} {k n : Nat} (hLast : n < 2 ^ 64)
    (h : m.generation = generationOf n) (hPos : 0 < k) (hLe : k ≤ n)
    (hCall : a.generation = generationOf k) (v : Verdict) (now : Nat) :
    ∃ j, j ≤ 1 ∧ (m.record a v now).generation = generationOf (n + j) ∧
      (m.record a v now).transitions.length ≤ m.transitions.length + j := by
  obtain ⟨j, hOne, hGeneration, hNoted⟩ := numbered_turn (Machine.turn_refresh m now) h
  obtain ⟨trials, hAbandon⟩ := (m.refresh now).abandon_eq a
  have hAside : ((m.refresh now).abandon a).generation = generationOf (n + j) := by
    rw [hAbandon]
    exact hGeneration
  have hKept := Machine.transitions_abandon (m.refresh now) a
  rw [Machine.record_eq]
  split
  · next hSame =>
    rw [hCall, hGeneration, generationOf_eq_iff hPos (by omega) (by omega)] at hSame
    obtain rfl : j = 0 := by omega
    obtain ⟨i, hMore, hCounted, hAdds⟩ :=
      numbered_turn (Machine.turn_count ((m.refresh now).abandon a) v now) hAside
    rw [hKept] at hAdds
    exact ⟨i, hMore, hCounted, by omega⟩
  · exact ⟨j, hOne, hAside, by rw [hKept]; exact hNoted⟩

namespace Numbered

variable {s : Session} {n : Nat}

theorem calls_mono (h : s.Numbered n) {n' : Nat} (hLe : n ≤ n') {calls : List (Option Admission)}
    (hCalls : ∀ call a, pending? calls call = some a → pending? s.calls call = some a) :
    ∀ call a, pending? calls call = some a → ∃ k, 0 < k ∧ k ≤ n' ∧ a.generation = generationOf k := by
  intro call a hPending
  obtain ⟨k, hPos, hOld, hGeneration⟩ := h.calls call a (hCalls call a hPending)
  exact ⟨k, hPos, by omega, hGeneration⟩

/-- The step lemma: one operation begins at most one generation and notes at most one change. -/
theorem perform (h : s.Numbered n) (hLast : n < 2 ^ 64) (op : Operation) :
    ∃ j, j ≤ 1 ∧ (s.perform op).2.Numbered (n + j) ∧
      (s.perform op).2.machine.transitions.length ≤ s.machine.transitions.length + j := by
  have hPos := h.pos
  cases op with
  | acquire now =>
    obtain ⟨j, hOne, hGeneration, hNoted⟩ :=
      numbered_turn (Machine.turn_refresh s.machine now) h.generation
    have hOld := h.calls_mono (Nat.le_add_right n j) fun _ _ hPending => hPending
    simp only [Session.perform]
    rcases Machine.acquire_cases s.machine now with ⟨-, hEq⟩ | ⟨-, hEq⟩ | ⟨-, -, hEq⟩
    · rw [hEq]
      exact ⟨j, hOne, ⟨by omega, hGeneration, hOld⟩, hNoted⟩
    · rw [hEq]
      exact ⟨j, hOne, ⟨by omega, hGeneration, hOld⟩, hNoted⟩
    · rw [hEq]
      refine ⟨j, hOne, ⟨by omega, hGeneration, fun call a hPending => ?_⟩, hNoted⟩
      rw [pending?_append] at hPending
      split at hPending
      · obtain rfl := Option.some.inj hPending
        exact ⟨n + j, by omega, Nat.le_refl _, hGeneration⟩
      · exact hOld call a hPending
  | record call v now =>
    simp only [Session.perform]
    split
    · next a hPending =>
      obtain ⟨k, hCallPos, hLe, hCall⟩ := h.calls call a hPending
      obtain ⟨j, hOne, hGeneration, hNoted⟩ :=
        numbered_record hLast h.generation hCallPos hLe hCall v now
      exact ⟨j, hOne, ⟨by omega, hGeneration,
        h.calls_mono (Nat.le_add_right n j) fun _ _ => pending?_of_set_none⟩, hNoted⟩
    · exact ⟨0, by omega, h, Nat.le_refl _⟩
  | abandon call =>
    simp only [Session.perform]
    split
    · next a hPending =>
      obtain ⟨trials, hAbandon⟩ := s.machine.abandon_eq a
      rw [hAbandon]
      exact ⟨0, by omega, ⟨hPos, h.generation,
        h.calls_mono (Nat.le_refl n) fun _ _ => pending?_of_set_none⟩, Nat.le_refl _⟩
    · exact ⟨0, by omega, h, Nat.le_refl _⟩
  | state now =>
    obtain ⟨j, hOne, hGeneration, hNoted⟩ :=
      numbered_turn (Machine.turn_refresh s.machine now) h.generation
    exact ⟨j, hOne, ⟨by omega, hGeneration,
      h.calls_mono (Nat.le_add_right n j) fun _ _ hPending => hPending⟩, hNoted⟩

theorem run (h : s.Numbered n) (ops : List Operation) (hFew : n + ops.length < 2 ^ 64) :
    ∃ n', n' ≤ n + ops.length ∧ (s.run ops).Numbered n' := by
  induction ops generalizing s n with
  | nil => exact ⟨n, Nat.le_refl _, h⟩
  | cons op ops ih =>
    rw [List.length_cons] at hFew ⊢
    obtain ⟨j, hOne, hNext, -⟩ := h.perform (by omega) op
    obtain ⟨n', hLe, hRest⟩ := ih hNext (by omega)
    exact ⟨n', by omega, hRest⟩

end Numbered

theorem numbered_start (settings : Settings) (begun : Nat) : (start settings begun).Numbered 1 :=
  ⟨Nat.one_pos, rfl, fun call a hPending => by simp [start, pending?] at hPending⟩

end Session

end Gatehouse.Breaker
