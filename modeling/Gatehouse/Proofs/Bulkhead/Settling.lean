import Gatehouse.Proofs.Bulkhead.Moves
import Gatehouse.Proofs.Scope.Causes

/-!
# What settling comes to for one task

Settling looks at the tasks one after the other, and again as long as a wait ends. The tasks do not
meet each other there: a look takes up a slot that was promised before, or leaves the line, and
neither concerns another ticket. So a task comes to what a single look at it comes to, at the
moment at which the settling begins.

* `Attempt.answer`: what one look at a task that waits comes to.
* `settle_attempts`: settling gives every task its answer.
* `Settled.answer_eq`: between two steps a task that waits has no reason to stop.
* `waiting_eq`: between two steps the tasks that wait stand in line in the order in which they came.
-/

namespace Gatehouse.Bulkhead

/-- What a task that waits is told: of its slot, else of the timeout, else of its scope. -/
def Attempt.answer (a : Attempt) (tokens : Tokens) (now : Nat) (b : Bulkhead) : Status :=
  if b.reserved.contains a.ticket then .held now
  else if a.deadline ≤ now then .refused (.full b.capacity) now
  else match a.scope.bind fun s => s.cause? tokens now with
    | some cause => .refused (.ended cause) now
    | none => .waiting

namespace Contention

variable {b b' : Bulkhead} {a : Attempt} {c : Contention} {tokens : Tokens} {now : Nat}

theorem visit_of_not_waits (h : a.waits = false) : visit tokens now b a = (a, b, []) := by
  rcases visit_cases tokens now b a with hSame | ⟨hWaits, -⟩
  · exact hSame
  · rw [h] at hWaits
    cases hWaits

theorem visit_of_waits (h : a.waits = true) :
    (visit tokens now b a).1 = { a with status := a.answer tokens now b } := by
  have hWaiting := Attempt.waits_iff.mp h
  cases hTake : b.take? a.ticket with
  | some taken =>
    have hReserved := (take_eq_some_iff.mp hTake).1
    simp [visit, hWaiting, poll_of_take hTake, Attempt.answer, hReserved]
  | none =>
    have hNot := take_eq_none_iff.mp hTake
    simp only [visit, hWaiting, poll_of_take_none hTake, Attempt.answer, List.contains_eq_mem, hNot,
      Scope.cancelled?_eq_cause?, decide_false, Bool.false_eq_true, if_false]
    by_cases hLate : a.deadline ≤ now
    · simp only [hLate, if_true]
    · simp only [hLate, if_false]
      cases a.scope.bind fun s => s.cause? tokens now with
      | some cause => rfl
      | none =>
        rw [← hWaiting]

/-- All that a task sees of the bulkhead is the capacity and whether a slot is promised to it. -/
theorem visit_congr (hCapacity : b'.capacity = b.capacity)
    (hReserved : b'.reserved.contains a.ticket = b.reserved.contains a.ticket) :
    (visit tokens now b' a).1 = (visit tokens now b a).1 := by
  cases h : a.waits with
  | false => rw [visit_of_not_waits h, visit_of_not_waits h]
  | true =>
    rw [visit_of_waits h, visit_of_waits h]
    simp only [Attempt.answer, hCapacity, hReserved]

/-- A look keeps the promises that were made to others. -/
theorem visit_reserved (tokens : Tokens) (now : Nat) (b : Bulkhead) (a : Attempt) :
    (visit tokens now b a).2.1.reserved =
      if a.waits then b.reserved.erase a.ticket else b.reserved := by
  cases h : a.waits with
  | false =>
    rw [visit_of_not_waits h]
    rfl
  | true =>
    cases hTake : b.take? a.ticket with
    | some taken =>
      obtain ⟨-, rfl⟩ := take_eq_some_iff.mp hTake
      simp only [visit, Attempt.waits_iff.mp h, poll_of_take hTake, if_true]
      rfl
    | none =>
      have hNot := take_eq_none_iff.mp hTake
      have hLeft : (b.withdraw a.ticket).reserved = b.reserved := by simp [withdraw, hNot]
      simp only [visit, Attempt.waits_iff.mp h, poll_of_take_none hTake, if_true,
        List.erase_of_not_mem hNot]
      by_cases hLate : a.deadline ≤ now
      · simp only [hLate, if_true, hLeft]
      · simp only [hLate, if_false]
        cases a.scope.bind fun s => s.cancelled? tokens now with
        | some cause => exact hLeft
        | none => rfl

theorem visitAll_fields (tokens : Tokens) (now : Nat) (b : Bulkhead) (attempts : List Attempt) :
    (visitAll tokens now b attempts).2.1.capacity = b.capacity ∧
      (visitAll tokens now b attempts).2.1.reserved ⊆ b.reserved := by
  induction attempts generalizing b with
  | nil => exact ⟨rfl, List.Subset.refl _⟩
  | cons a rest ih =>
    obtain ⟨hCapacity, hReserved⟩ := ih (visit tokens now b a).2.1
    rw [visitAll_cons]
    refine ⟨hCapacity.trans (deals_visit tokens now b a).capacity, fun ticket hMem => ?_⟩
    have hLeft := hReserved hMem
    rw [visit_reserved] at hLeft
    split at hLeft
    · exact List.mem_of_mem_erase hLeft
    · exact hLeft

theorem visitAll_attempts {attempts : List Attempt}
    (hDistinct : (attempts.map Attempt.ticket).Nodup) :
    (visitAll tokens now b attempts).1 = attempts.map fun a => (visit tokens now b a).1 := by
  induction attempts generalizing b with
  | nil => rfl
  | cons a rest ih =>
    rw [List.map_cons, List.nodup_cons] at hDistinct
    obtain ⟨hOther, hRest⟩ := hDistinct
    have hOthers : rest.map (fun a' => (visit tokens now (visit tokens now b a).2.1 a').1) =
        rest.map fun a' => (visit tokens now b a').1 := by
      refine List.map_congr_left fun a' hMem => ?_
      refine visit_congr (deals_visit tokens now b a).capacity ?_
      have hTicket : a'.ticket ≠ a.ticket := by
        intro hSame
        exact hOther (hSame ▸ List.mem_map_of_mem hMem)
      rw [visit_reserved]
      split
      · simp only [List.contains_eq_mem, List.mem_erase_of_ne hTicket]
      · rfl
    rw [visitAll_cons, ih hRest, hOthers]
    rfl

/-- A second look, at the same instant, comes to nothing. -/
theorem visit_visit (hCapacity : b'.capacity = b.capacity) (hReserved : b'.reserved ⊆ b.reserved) :
    (visit tokens now b' (visit tokens now b a).1).1 = (visit tokens now b a).1 := by
  cases hAfter : (visit tokens now b a).1.waits with
  | false => rw [visit_of_not_waits hAfter]
  | true =>
    rcases visit_cases tokens now b a with hSame | ⟨-, hLeft⟩
    · have hWaits : a.waits = true := by rwa [hSame] at hAfter
      have hNot : a.ticket ∉ b.reserved := by
        intro hMem
        have hHolds : (visit tokens now b a).1 = { a with status := .held now } := by
          rw [visit_of_waits hWaits]
          simp [Attempt.answer, hMem]
        rw [hHolds] at hAfter
        cases hAfter
      have hStill : a.ticket ∉ b'.reserved := fun hMem => hNot (hReserved hMem)
      rw [congrArg Prod.fst hSame]
      exact (visit_congr hCapacity (by simp [hNot, hStill])).trans (congrArg Prod.fst hSame)
    · rw [hLeft] at hAfter
      cases hAfter

/-- Every task comes to what a single look at it comes to. -/
theorem settle_attempts (hDistinct : (c.attempts.map Attempt.ticket).Nodup) :
    c.settle.attempts =
      c.attempts.map fun a => (visit c.directory.tokens c.now c.bulkhead a).1 := by
  induction c using settle.induct with
  | case1 c attempts b journal hVisit c' hLess ih =>
    have hAttempts : attempts =
        c.attempts.map fun a => (visit c.directory.tokens c.now c.bulkhead a).1 := by
      rw [← visitAll_attempts hDistinct, hVisit]
    have hFields := visitAll_fields c.directory.tokens c.now c.bulkhead c.attempts
    rw [hVisit] at hFields
    have hTickets : (attempts.map Attempt.ticket) = c.attempts.map Attempt.ticket := by
      rw [hAttempts, List.map_map]
      exact List.map_congr_left fun a _ => (deals_visit _ _ _ a).ticket
    rw [settle]
    simp only [hVisit, hLess, if_true]
    have hLater := ih (by rwa [← hTickets] at hDistinct)
    refine hLater.trans ?_
    change attempts.map (fun a => (visit c.directory.tokens c.now b a).1) = _
    rw [hAttempts, List.map_map]
    refine List.map_congr_left fun a _ => ?_
    exact visit_visit hFields.1 hFields.2
  | case2 c attempts b journal hVisit hLess =>
    rw [settle]
    simp only [hVisit, hLess, if_false]
    rw [← visitAll_attempts hDistinct, hVisit]

theorem settle_aside (c : Contention) :
    c.settle.now = c.now ∧ c.settle.directory = c.directory := by
  induction c using settle.induct with
  | case1 c attempts b journal hVisit c' hLess ih =>
    rw [settle]
    simp only [hVisit, hLess, if_true]
    exact ih
  | case2 c attempts b journal hVisit hLess =>
    rw [settle]
    simp only [hVisit, hLess, if_false, and_self]

theorem nodup_tickets (h : c.Sound) : (c.attempts.map Attempt.ticket).Nodup :=
  h.numbered ▸ List.nodup_range

theorem settle_getElem? (h : c.Sound) (k : Nat) :
    c.settle.attempts[k]? =
      c.attempts[k]?.map fun a => (visit c.directory.tokens c.now c.bulkhead a).1 := by
  rw [settle_attempts (nodup_tickets h), List.getElem?_map]

theorem settle_of_not_waits (h : c.Sound) {k : Nat} (hAttempt : c.attempts[k]? = some a)
    (hDone : a.waits = false) : c.settle.attempts[k]? = some a := by
  rw [settle_getElem? h, hAttempt, Option.map_some, visit_of_not_waits hDone]

theorem settle_of_waits (h : c.Sound) {k : Nat} (hAttempt : c.attempts[k]? = some a)
    (hWaits : a.waits = true) :
    c.settle.attempts[k]? =
      some { a with status := a.answer c.directory.tokens c.now c.bulkhead } := by
  rw [settle_getElem? h, hAttempt, Option.map_some, visit_of_waits hWaits]

/-! ## Between two steps -/

/-- A task that waits once everything has happened has no reason to stop. -/
theorem Settled.answer_eq (h : c.Settled) (hMem : a ∈ c.attempts) (hWaits : a.waits = true) :
    a.answer c.directory.tokens c.now c.bulkhead = .waiting := by
  have hVisit : (visit c.directory.tokens c.now c.bulkhead a).1 =
      { a with status := a.answer c.directory.tokens c.now c.bulkhead } := visit_of_waits hWaits
  rw [h a hMem] at hVisit
  have hStatus := congrArg Attempt.status hVisit
  rw [← Attempt.waits_iff.mp hWaits]
  exact hStatus.symm

end Contention

theorem Attempt.answer_eq_waiting {a : Attempt} {tokens : Tokens} {now : Nat} {b : Bulkhead} :
    a.answer tokens now b = .waiting ↔
      a.ticket ∉ b.reserved ∧ now < a.deadline ∧
        (a.scope.bind fun s => s.cause? tokens now) = none := by
  unfold answer
  by_cases hReserved : a.ticket ∈ b.reserved
  · simp [hReserved]
  · by_cases hLate : a.deadline ≤ now
    · simp [hReserved, hLate, Nat.not_lt.mpr hLate]
    · cases a.scope.bind fun s => s.cause? tokens now with
      | some cause => simp [hReserved, hLate]
      | none =>
        simp [hReserved, hLate]
        omega

namespace Contention

variable {a : Attempt} {c : Contention}

/-- The tasks that wait stand in line in the order in which they came. -/
theorem waiting_eq (h : c.Sound) (hSettled : c.Settled) :
    c.bulkhead.waiting = c.waitingTickets := by
  have hPerm := h.balanced.tickets
  rw [reserved_eq_nil h hSettled, List.nil_append] at hPerm
  have hLine := List.pairwise_lt_range.sublist h.inTurn
  have hTickets := List.pairwise_lt_range.sublist (waitingTickets_sublist h)
  refine hPerm.eq_of_pairwise ?_ hLine hTickets
  intro i j _ _ hLess hGreater
  omega

theorem waitingTickets_eq (c : Contention) :
    c.waitingTickets = (c.attempts.filter Attempt.waits).map Attempt.ticket := by
  unfold waitingTickets
  induction c.attempts with
  | nil => rfl
  | cons a rest ih =>
    rw [List.flatMap_cons, ih, Attempt.tickets, List.filter_cons]
    split <;> rfl

end Contention

end Gatehouse.Bulkhead
