import Gatehouse.Proofs.Bulkhead.Settling
import Gatehouse.Proofs.Bulkhead.Verdict
import Gatehouse.Proofs.Clock

/-!
# Whose turn it is

What a task that waits meets, and at which instant, is read off the run itself: off the steps that
give a slot back while nobody who came earlier waits, and off the instants that the run goes
through, with the cancellations of each.

* `Contention.Reaches`, `Contention.moments`: a slot reaches a task; the moments of a run.
* `Contention.perform_of_waits`: the step lemma; `Contention.run_of_verdict`: the run lemma.
* `acquire_resolves`: every acquire comes to its verdict, and nobody overtakes.
-/

namespace Gatehouse.Bulkhead

/-- How a task has come out, as it stands at `now` after some steps: it has come to its verdict, it
has given back the slot that it had, or it was aborted before it had one. -/
def Attempt.Resolved (a : Attempt) (now capacity : Nat)
    (slot : Option Nat) (ended : Option (Nat × Cause)) (steps : List Contention.Step) : Prop :=
  a.status = verdict a.deadline now capacity slot ended ∨
    (a.status = .released ∧ slot.isSome = true ∧ .release a.id ∈ steps) ∨
    (a.status = .aborted ∧ slot = none ∧ .abort a.id ∈ steps)

namespace Contention

def waitsAt (c : Contention) (k : Nat) : Bool := c.attempts[k]?.any Attempt.waits

def holdsAt (c : Contention) (k : Nat) : Bool := c.attempts[k]?.any Attempt.holds

/-- A task waits, and nobody who came earlier does. -/
def InFront (c : Contention) (k : Nat) : Prop :=
  c.waitsAt k = true ∧ ∀ j < k, c.waitsAt j = false

instance (c : Contention) (k : Nat) : Decidable (c.InFront k) := inferInstanceAs (Decidable (_ ∧ _))

/-- A step gives a slot back, and it is the turn of a task to have it. -/
def Reaches (c : Contention) (k : Nat) : Step → Prop
  | .release id => (c.find? id).any Attempt.holds = true ∧ c.InFront k
  | .scope _ | .acquire _ _ | .abort _ | .advance _ => False

instance (c : Contention) (k : Nat) : (step : Step) → Decidable (c.Reaches k step)
  | .release _ => inferInstanceAs (Decidable (_ ∧ _))
  | .scope _ | .acquire _ _ | .abort _ | .advance _ => .isFalse id

/-- When, in a run, a slot reaches a task. -/
def granted? (k : Nat) (c : Contention) : List Step → Option Nat
  | [] => none
  | step :: steps =>
    if c.Reaches k step then some c.now else granted? k (c.perform step) steps

/-- The moments that a step adds: an instant after the other as time passes, and another look at
the same instant where a scope is cancelled. -/
def instants (c : Contention) : Step → List (Nat × Tokens)
  | .scope command => [(c.now, (c.directory.perform c.now command).tokens)]
  | .advance d => (List.range d).map fun i => (c.now + i + 1, c.directory.tokens)
  | .acquire _ _ | .release _ | .abort _ => []

/-- The moments of a run, with the cancellations of each. -/
def moments (c : Contention) : List Step → List (Nat × Tokens)
  | [] => []
  | step :: steps => c.instants step ++ (c.perform step).moments steps

end Contention

/-! ## A look at a task is a verdict -/

theorem Attempt.answer_eq {a : Attempt} {now : Nat} (h : now ≤ a.deadline) (tokens : Tokens)
    (b : Bulkhead) :
    a.answer tokens now b =
      verdict a.deadline now b.capacity (if a.ticket ∈ b.reserved then some now else none)
        (ends? a.scope [(now, tokens)]) := by
  rw [ends?_singleton]
  by_cases hReserved : a.ticket ∈ b.reserved
  · simp [answer, verdict, hReserved]
  · by_cases hLate : a.deadline ≤ now
    · obtain rfl : now = a.deadline := by omega
      cases a.scope.bind fun s => s.cause? tokens a.deadline <;>
        simp [answer, verdict, hReserved, Option.filter_some]
    · have hEarly : now < a.deadline := by omega
      cases hCause : a.scope.bind fun s => s.cause? tokens now <;>
        simp [answer, verdict, hReserved, hLate, hEarly, hCause, Option.filter_some]

namespace Contention

variable {c : Contention} {a : Attempt} {k : Nat}

theorem waitsAt_iff : c.waitsAt k = true ↔ ∃ a, c.attempts[k]? = some a ∧ a.waits = true := by
  simp [waitsAt, Option.any_eq_true]

theorem waitsAt_of (hAttempt : c.attempts[k]? = some a) : c.waitsAt k = a.waits := by
  simp [waitsAt, hAttempt]

theorem holdsAt_of (hAttempt : c.attempts[k]? = some a) : c.holdsAt k = a.holds := by
  simp [holdsAt, hAttempt]

/-- The first in line is the task that waits and that no other came before. -/
theorem head_waiting (h : c.Sound) (hSettled : c.Settled) :
    c.bulkhead.waiting.head? = some k ↔ c.InFront k := by
  rw [waiting_eq h hSettled, waitingTickets_eq, List.head?_map, List.head?_filter,
    Option.map_eq_some_iff]
  constructor
  · rintro ⟨a, hFind, rfl⟩
    obtain ⟨hWaits, i, hIndex, hGet, hBefore⟩ := List.find?_eq_some_iff_getElem.mp hFind
    have hAttempt : c.attempts[i]? = some a := List.getElem?_eq_some_iff.mpr ⟨hIndex, hGet⟩
    rw [ticket_eq h hAttempt]
    refine ⟨by rw [waitsAt_of hAttempt, hWaits], fun j hLess => ?_⟩
    have hOther : c.attempts[j]? = some c.attempts[j] := List.getElem?_eq_getElem (by omega)
    rw [waitsAt_of hOther]
    simpa using hBefore j hLess
  · rintro ⟨hWaits, hBefore⟩
    obtain ⟨a, hAttempt, hWaits⟩ := waitsAt_iff.mp hWaits
    obtain ⟨hIndex, hGet⟩ := List.getElem?_eq_some_iff.mp hAttempt
    refine ⟨a, List.find?_eq_some_iff_getElem.mpr ⟨hWaits, k, hIndex, hGet, fun j hLess => ?_⟩,
      ticket_eq h hAttempt⟩
    have hOther : c.attempts[j]? = some c.attempts[j] := List.getElem?_eq_getElem (by omega)
    have hNot := hBefore j hLess
    rw [waitsAt_of hOther] at hNot
    simp [hNot]

/-- Settling gives a task its verdict at this instant. -/
theorem settle_verdict (h : c.Sound) (hAttempt : c.attempts[k]? = some a)
    (hWaits : a.waits = true) (hTime : c.now ≤ a.deadline) :
    c.settle.attempts[k]? = some { a with
      status := verdict a.deadline c.settle.now c.bulkhead.capacity
        (if k ∈ c.bulkhead.reserved then some c.now else none)
        (ends? a.scope [(c.now, c.directory.tokens)]) } := by
  rw [settle_of_waits h hAttempt hWaits, Attempt.answer_eq hTime, ticket_eq h hAttempt,
    (settle_aside c).1]

/-! ## Time passes -/

theorem due_of_waits (hWaits : a.waits = true) :
    a.due = Clock.earlier (some a.deadline) (a.scope.bind (·.deadline)) := by
  simp [Attempt.due, Attempt.waits_iff.mp hWaits]

theorem due_of_not_waits (hDone : a.waits = false) : a.due = none := by
  simp only [Attempt.waits] at hDone
  simp [Attempt.due, hDone]

/-- A task that waits has a timer, which is not after its timeout nor the end of its scope. -/
theorem exists_due (hWaits : a.waits = true) :
    ∃ t, a.due = some t ∧ t ≤ a.deadline ∧ ∀ t', a.scope.bind (·.deadline) = some t' → t ≤ t' := by
  obtain ⟨t, hEarliest⟩ : ∃ t,
      Clock.earlier (some a.deadline) (a.scope.bind (·.deadline)) = some t := by
    cases a.scope.bind (·.deadline) <;> simp [Clock.earlier]
  obtain ⟨-, hFull, hEnds⟩ := Clock.earlier_spec hEarliest
  exact ⟨t, (due_of_waits hWaits).trans hEarliest, hFull a.deadline rfl, hEnds⟩

/-- What a task that waits once everything has happened is still waiting for. -/
theorem Settled.ahead (hSettled : c.Settled) (hMem : a ∈ c.attempts) (hWaits : a.waits = true) :
    a.ticket ∉ c.bulkhead.reserved ∧ c.now < a.deadline ∧
      (a.scope.bind fun s => s.cause? c.directory.tokens c.now) = none :=
  Attempt.answer_eq_waiting.mp (hSettled.answer_eq hMem hWaits)

theorem Settled.due_gt (hSettled : c.Settled) (hMem : a ∈ c.attempts) {t : Nat}
    (hDue : a.due = some t) : c.now < t := by
  cases hWaits : a.waits with
  | false =>
    rw [due_of_not_waits hWaits] at hDue
    cases hDue
  | true =>
    obtain ⟨-, hDeadline, hNone⟩ := hSettled.ahead hMem hWaits
    rw [due_of_waits hWaits] at hDue
    rcases (Clock.earlier_spec hDue).1 with hFull | hEnds
    · cases hFull
      exact hDeadline
    · obtain ⟨s, hScope, hEnds⟩ := Option.bind_eq_some_iff.mp hEnds
      rw [hScope] at hNone
      exact (cause?_of_none hNone).1 t hEnds

/-- At an instant up to which no timer was due, each task lapses on its own. -/
theorem fire_getElem? (h : c.Sound) (hSettled : c.Settled) {t : Nat}
    (hDue : ∀ a ∈ c.attempts, ∀ t', a.due = some t' → t ≤ t') (k : Nat) :
    (fire t c).attempts[k]? = c.attempts[k]?.map (Attempt.lapse c.bulkhead.capacity t) := by
  have hFire : fire t c = (c.move (.clock t)).settle := rfl
  have hMoved : (c.move (.clock t)).Sound := sound_move h (.clock t)
  rw [hFire]
  cases hAttempt : c.attempts[k]? with
  | none =>
    rw [settle_getElem? hMoved]
    simp [move, hAttempt]
  | some a =>
    have hMem := List.mem_of_getElem? hAttempt
    rw [Option.map_some]
    cases hWaits : a.waits with
    | false =>
      rw [Attempt.lapse_of_not_waits hWaits]
      exact settle_of_not_waits hMoved hAttempt hWaits
    | true =>
      obtain ⟨hReserved, -, hNone⟩ := hSettled.ahead hMem hWaits
      obtain ⟨t', hTimer, hFull, hEnds⟩ := exists_due hWaits
      have hFirst : t ≤ t' := hDue a hMem t' hTimer
      have hScope : ends? a.scope [(t, c.directory.tokens)] = a.endsBy t :=
        ends?_singleton_of_le hNone fun t'' hDeadline => Nat.le_trans hFirst (hEnds t'' hDeadline)
      have hVerdict := settle_verdict hMoved hAttempt hWaits (Nat.le_trans hFirst hFull)
      rw [ticket_eq h hAttempt] at hReserved
      simp only [move, hReserved, if_false, (settle_aside _).1, hScope] at hVerdict
      rw [Attempt.lapse_of_waits hWaits]
      exact hVerdict

variable {begun : Bulkhead}

/-- Timers go off one after the other, and to each task it is as if it were alone. -/
theorem runUntil_getElem? (hBegun : (start begun).Sound) (h : Reachable begun c)
    (hSettled : c.Settled) {now target : Nat} (hNow : c.now = now) (hLe : now ≤ target) (k : Nat) :
    (Clock.runUntil due fire now target c).attempts[k]? =
      c.attempts[k]?.map (Attempt.lapse c.bulkhead.capacity target) := by
  induction now, c using Clock.runUntil.induct due fire target with
  | case1 now c hDue =>
    rw [Clock.runUntil, hDue]
    refine fire_getElem? (sound_reachable hBegun h) hSettled (fun a hMem t' hTimer => ?_) k
    have hNone := Clock.earliest_eq_none.mp hDue a.due (List.mem_map_of_mem hMem)
    rw [hNone] at hTimer
    cases hTimer
  | case2 now c t hDue hBetween ih =>
    have hFirst : ∀ a ∈ c.attempts, ∀ t', a.due = some t' → t ≤ t' := fun a hMem t' hTimer =>
      (Clock.earliest_spec hDue).2 t' (hTimer ▸ List.mem_map_of_mem hMem)
    have hFired : Reachable begun (fire t c) := (h.move (.clock t)).settle
    have hCapacity : (fire t c).bulkhead.capacity = c.bulkhead.capacity := by
      rw [(settings_reachable hFired).1, (settings_reachable h).1]
    have hLater := ih hFired (settled_settle _) (settle_aside _).1 hBetween.2
    rw [hCapacity, fire_getElem? (sound_reachable hBegun h) hSettled hFirst,
      Option.map_map] at hLater
    rw [Clock.runUntil, hDue]
    simp only [hBetween, and_self, dif_pos]
    rw [hLater]
    congr 1
    funext a
    exact Attempt.lapse_lapse hBetween.2
  | case3 now c t hDue hBetween =>
    obtain ⟨hOne, hFirst⟩ := Clock.earliest_spec hDue
    obtain ⟨a, hMem, hTimer⟩ := List.mem_map.mp hOne
    have hAhead : c.now < t := hSettled.due_gt hMem hTimer
    rw [Clock.runUntil, hDue]
    simp only [hBetween, dif_neg, not_false_eq_true]
    refine fire_getElem? (sound_reachable hBegun h) hSettled (fun a hMem t' hTimer => ?_) k
    have hAfter : t ≤ t' := hFirst t' (hTimer ▸ List.mem_map_of_mem hMem)
    omega

theorem runUntil_now (c : Contention) (now target : Nat) :
    (Clock.runUntil due fire now target c).now = target := by
  obtain ⟨c', hLast⟩ := Clock.runUntil_ends due fire now target c
  rw [hLast]
  exact (settle_aside _).1

/-! ## One step -/

theorem move_release {index : Nat} (hAttempt : c.attempts[index]? = some a)
    (hHolds : a.holds = true) :
    c.move (.release index) =
      { c with
        bulkhead := c.bulkhead.release.1
        attempts := c.attempts.set index { a with status := .released }
        journal := c.journal ++ c.bulkhead.release.2 } := by
  simp only [move, onAttempt_eq hAttempt]
  cases hStatus : a.status with
  | held since => simp only [giveBack, hStatus]
  | waiting | released | aborted | refused => simp [Attempt.holds, hStatus] at hHolds

theorem move_abort {index : Nat} (hAttempt : c.attempts[index]? = some a)
    (hWaits : a.waits = true) :
    c.move (.abort index) =
      { c with
        bulkhead := c.bulkhead.withdraw a.ticket
        attempts := c.attempts.set index { a with status := .aborted } } := by
  simp only [move, onAttempt_eq hAttempt, giveUp, Attempt.waits_iff.mp hWaits, List.append_nil]

theorem id_of_find? {id : String} (h : c.find? id = some a) : a.id = id := by
  simpa using List.find?_some h

/-- Who has stopped waiting is left alone, but for the slot that is taken back. -/
theorem perform_of_not_waits (hBegun : (start begun).Sound) (h : Reachable begun c)
    (hSettled : c.Settled) (hAttempt : c.attempts[k]? = some a) (hDone : a.waits = false)
    (step : Step) :
    (c.perform step).attempts[k]? = some a ∨
      (a.holds = true ∧ step = .release a.id ∧
        (c.perform step).attempts[k]? = some { a with status := .released }) := by
  have hSound := sound_reachable hBegun h
  have hEffect := effect hSound step
  generalize c.perform step = c' at hEffect ⊢
  cases hEffect with
  | scope command => exact .inl (settle_of_not_waits (sound_move hSound _) hAttempt hDone)
  | acquire id name =>
    have hStill : (c.move (.acquire id (name.bind c.directory.find?))).attempts[k]? = some a := by
      obtain ⟨hIndex, -⟩ := List.getElem?_eq_some_iff.mp hAttempt
      simp only [move, List.getElem?_append_left hIndex, hAttempt]
    exact .inl (settle_of_not_waits (sound_move hSound _) hStill hDone)
  | @release id a' index hFind hOther hHolds =>
    obtain ⟨hIndex, -⟩ := List.getElem?_eq_some_iff.mp hOther
    have hMoved := sound_move hSound (.release index)
    rw [move_release hOther hHolds] at hMoved ⊢
    by_cases hSame : index = k
    · subst hSame
      obtain rfl : a = a' := Option.some.inj (hAttempt.symm.trans hOther)
      have hReleased : (c.attempts.set index { a with status := .released })[index]? =
          some { a with status := .released } := List.getElem?_set_self hIndex
      exact .inr ⟨hHolds, by rw [id_of_find? hFind], settle_of_not_waits hMoved hReleased rfl⟩
    · have hStill : (c.attempts.set index { a' with status := .released })[k]? = some a := by
        rw [List.getElem?_set_ne hSame, hAttempt]
      exact .inl (settle_of_not_waits hMoved hStill hDone)
  | keep => exact .inl (settle_of_not_waits hSound hAttempt hDone)
  | @abort id a' index hFind hOther hWaits =>
    have hMoved := sound_move hSound (.abort index)
    rw [move_abort hOther hWaits] at hMoved ⊢
    have hSame : index ≠ k := by
      rintro rfl
      obtain rfl : a = a' := Option.some.inj (hAttempt.symm.trans hOther)
      rw [hDone] at hWaits
      cases hWaits
    have hStill : (c.attempts.set index { a' with status := .aborted })[k]? = some a := by
      rw [List.getElem?_set_ne hSame, hAttempt]
    exact .inl (settle_of_not_waits hMoved hStill hDone)
  | spare => exact .inl (settle_of_not_waits hSound hAttempt hDone)
  | advance d =>
    left
    rw [runUntil_getElem? hBegun h hSettled rfl (Nat.le_add_right _ _), hAttempt, Option.map_some,
      Attempt.lapse_of_not_waits hDone]

end Contention

theorem enter_reserved (b : Bulkhead) :
    b.enter.2.reserved = b.reserved ++ if 0 < b.available then [b.issued] else [] := by
  unfold enter
  split <;> simp

theorem release_reserved (b : Bulkhead) :
    b.release.1.reserved = b.reserved ++ b.waiting.head?.toList := by
  simp only [release, handBack, countOut]
  cases b.waiting <;> simp

theorem withdraw_reserved_of_nil {b : Bulkhead} (h : b.reserved = []) (ticket : Nat) :
    (b.withdraw ticket).reserved = [] := by
  simp [withdraw, h]

namespace Contention

variable {begun : Bulkhead} {c : Contention} {a : Attempt} {k : Nat}

/-- Where something happens to others at this instant, a task that waits is served or goes on
waiting. -/
theorem settle_of_moved {c' : Contention} {step : Step} (hSettled : c.Settled)
    (hAttempt : c.attempts[k]? = some a) (hWaits : a.waits = true) (hSound : c'.Sound)
    (hStill : c'.attempts[k]? = some a)
    (hSame : c'.now = c.now ∧ c'.directory = c.directory ∧
      c'.bulkhead.capacity = c.bulkhead.capacity)
    (hServed : k ∈ c'.bulkhead.reserved ↔ c.Reaches k step) (hInstants : c.instants step = []) :
    c'.settle.attempts[k]? = some { a with
      status := verdict a.deadline c'.settle.now c.bulkhead.capacity
        (if c.Reaches k step then some c.now else none) (ends? a.scope (c.instants step)) } := by
  obtain ⟨hNow, hDirectory, hCapacity⟩ := hSame
  obtain ⟨-, hEarly, hNone⟩ := hSettled.ahead (List.mem_of_getElem? hAttempt) hWaits
  have hNever : ends? a.scope [(c.now, c.directory.tokens)] = none := by
    rw [ends?_singleton, hNone, Option.map_none]
  have hNothing : ends? a.scope [] = none := by
    cases a.scope <;> rfl
  have hVerdict := settle_verdict hSound hStill hWaits (by omega)
  rw [hInstants, hNothing]
  simpa only [hNow, hDirectory, hCapacity, hServed, hNever] using hVerdict

/-- The step lemma: a task that waits comes to its verdict, unless it is aborted. -/
theorem perform_of_waits (hBegun : (start begun).Sound) (h : Reachable begun c)
    (hSettled : c.Settled) (hAttempt : c.attempts[k]? = some a) (hWaits : a.waits = true)
    (step : Step) :
    (step = .abort a.id ∧ (c.perform step).attempts[k]? = some { a with status := .aborted }) ∨
      (c.perform step).attempts[k]? = some { a with
        status := verdict a.deadline (c.perform step).now c.bulkhead.capacity
          (if c.Reaches k step then some c.now else none) (ends? a.scope (c.instants step)) } := by
  have hSound := sound_reachable hBegun h
  have hReserved : c.bulkhead.reserved = [] := reserved_eq_nil hSound hSettled
  obtain ⟨-, hEarly, hNone⟩ := hSettled.ahead (List.mem_of_getElem? hAttempt) hWaits
  obtain ⟨hIndex, -⟩ := List.getElem?_eq_some_iff.mp hAttempt
  have hEffect := effect hSound step
  generalize c.perform step = c' at hEffect ⊢
  cases hEffect with
  | scope command =>
    right
    have hVerdict := settle_verdict (sound_move hSound (.scope command)) hAttempt hWaits
      (Nat.le_of_lt hEarly)
    simpa [move, hReserved, Reaches, instants] using hVerdict
  | acquire id name =>
    right
    have hMoved := sound_move hSound (.acquire id (name.bind c.directory.find?))
    refine settle_of_moved hSettled hAttempt hWaits hMoved ?_ ⟨rfl, rfl, enter_capacity _⟩ ?_ rfl
    · simp only [move, List.getElem?_append_left hIndex, hAttempt]
    · have hOther : k ≠ c.bulkhead.issued := by
        have hLength := length_attempts hSound
        omega
      simp only [move, enter_reserved, hReserved, Reaches, List.nil_append, iff_false]
      split <;> simp [hOther]
  | @release id a' index hFind hOther hHolds =>
    right
    have hMoved := sound_move hSound (.release index)
    rw [move_release hOther hHolds] at hMoved ⊢
    have hSame : index ≠ k := by
      rintro rfl
      obtain rfl : a = a' := Option.some.inj (hAttempt.symm.trans hOther)
      rw [Attempt.holds, Attempt.waits_iff.mp hWaits] at hHolds
      cases hHolds
    refine settle_of_moved hSettled hAttempt hWaits hMoved ?_ ⟨rfl, rfl, release_capacity _⟩ ?_ rfl
    · simp only [List.getElem?_set_ne hSame, hAttempt]
    · simp [Reaches, release_reserved, hReserved, hFind, hHolds, head_waiting hSound hSettled]
  | @keep id hNobody =>
    right
    refine settle_of_moved hSettled hAttempt hWaits hSound hAttempt ⟨rfl, rfl, rfl⟩ ?_ rfl
    simp [Reaches, hReserved, hNobody]
  | @abort id a' index hFind hOther hWaits' =>
    have hMoved := sound_move hSound (.abort index)
    rw [move_abort hOther hWaits'] at hMoved ⊢
    by_cases hSame : index = k
    · left
      subst hSame
      obtain rfl : a = a' := Option.some.inj (hAttempt.symm.trans hOther)
      have hAborted : (c.attempts.set index { a with status := .aborted })[index]? =
          some { a with status := .aborted } := List.getElem?_set_self hIndex
      exact ⟨by rw [id_of_find? hFind], settle_of_not_waits hMoved hAborted rfl⟩
    · right
      refine settle_of_moved hSettled hAttempt hWaits hMoved ?_ ⟨rfl, rfl, withdraw_capacity _ _⟩
        ?_ rfl
      · simp only [List.getElem?_set_ne hSame, hAttempt]
      · simp [Reaches, withdraw_reserved_of_nil hReserved]
  | @spare id hNobody =>
    right
    refine settle_of_moved hSettled hAttempt hWaits hSound hAttempt ⟨rfl, rfl, rfl⟩ ?_ rfl
    simp [Reaches, hReserved]
  | advance d =>
    right
    rw [runUntil_getElem? hBegun h hSettled rfl (Nat.le_add_right _ _), hAttempt, Option.map_some,
      Attempt.lapse_of_waits hWaits, runUntil_now, instants, ends?_range hNone]
    simp [Reaches]

/-- A new task has a verdict at once: it has a free slot, or it is told as any that waits. -/
theorem perform_acquire (hBegun : (start begun).Sound) (h : Reachable begun c)
    (hSettled : c.Settled) (id : String) (name : Option String) :
    (c.perform (.acquire id name)).attempts[c.attempts.length]? =
      some ⟨id, c.bulkhead.issued, c.now + c.bulkhead.acquireTimeout,
        name.bind c.directory.find?,
        verdict (c.now + c.bulkhead.acquireTimeout) (c.perform (.acquire id name)).now
          c.bulkhead.capacity (if 0 < c.bulkhead.available then some c.now else none)
          (ends? (name.bind c.directory.find?) [(c.now, c.directory.tokens)])⟩ := by
  have hSound := sound_reachable hBegun h
  have hReserved : c.bulkhead.reserved = [] := reserved_eq_nil hSound hSettled
  have hLength := length_attempts hSound
  obtain ⟨hTicket, -, -, hTimeout⟩ := enter_fields c.bulkhead
  have hPerform : c.perform (.acquire id name) =
      (c.move (.acquire id (name.bind c.directory.find?))).settle := rfl
  have hNew : (c.move (.acquire id (name.bind c.directory.find?))).attempts[c.attempts.length]? =
      some ⟨id, c.bulkhead.issued, c.now + c.bulkhead.acquireTimeout,
        name.bind c.directory.find?, .waiting⟩ := by
    simp [move, hTicket, hTimeout]
  have hVerdict := settle_verdict (sound_move hSound _) hNew rfl (Nat.le_add_right _ _)
  have hServed : c.attempts.length ∈ c.bulkhead.enter.2.reserved ↔ 0 < c.bulkhead.available := by
    rw [enter_reserved, hReserved, List.nil_append]
    split <;> simp [*]
  rw [hPerform, hVerdict]
  simp only [move, hServed, enter_capacity]

/-! ## A run -/

theorem perform_now (h : c.Sound) (step : Step) :
    c.now ≤ (c.perform step).now ∧
      ∀ m ∈ c.instants step, c.now ≤ m.1 ∧ m.1 ≤ (c.perform step).now := by
  have hEffect := effect h step
  generalize c.perform step = c' at hEffect ⊢
  cases hEffect with
  | scope command =>
    rw [(settle_aside _).1]
    simp [move, instants]
  | acquire id name =>
    rw [(settle_aside _).1]
    simp [move, instants]
  | release hFind hAttempt hHolds =>
    rw [(settle_aside _).1, move_release hAttempt hHolds]
    simp [instants]
  | abort hFind hAttempt hWaits =>
    rw [(settle_aside _).1, move_abort hAttempt hWaits]
    simp [instants]
  | keep | spare =>
    rw [(settle_aside _).1]
    simp [instants]
  | advance d =>
    rw [runUntil_now]
    refine ⟨Nat.le_add_right _ _, fun m hMem => ?_⟩
    obtain ⟨i, hRange, rfl⟩ := List.mem_map.mp hMem
    have hLess := List.mem_range.mp hRange
    constructor <;> simp only <;> omega

theorem le_moments (hBegun : (start begun).Sound) (h : Reachable begun c) (steps : List Step) :
    ∀ m ∈ c.moments steps, c.now ≤ m.1 := by
  induction steps generalizing c with
  | nil => exact nofun
  | cons step steps ih =>
    obtain ⟨hLe, hInstants⟩ := perform_now (sound_reachable hBegun h) step
    intro m hMem
    rcases List.mem_append.mp hMem with hHere | hLater
    · exact (hInstants m hHere).1
    · exact Nat.le_trans hLe (ih (h.perform hBegun step) m hLater)

theorem now_le_run (hBegun : (start begun).Sound) (h : Reachable begun c) (steps : List Step) :
    c.now ≤ (steps.foldl perform c).now := by
  induction steps generalizing c with
  | nil => exact Nat.le_refl _
  | cons step steps ih =>
    have hLe := (perform_now (sound_reachable hBegun h) step).1
    exact Nat.le_trans hLe (ih (h.perform hBegun step))

/-- No slot reaches a task that has stopped waiting. -/
theorem granted?_of_not_waits (hBegun : (start begun).Sound) (h : Reachable begun c)
    (hSettled : c.Settled) (hAttempt : c.attempts[k]? = some a) (hDone : a.waits = false)
    (steps : List Step) : granted? k c steps = none := by
  induction steps generalizing c a with
  | nil => rfl
  | cons step steps ih =>
    have hNot : ¬ c.Reaches k step := by
      intro hReaches
      cases step with
      | release id =>
        have hWaits := hReaches.2.1
        rw [waitsAt_of hAttempt, hDone] at hWaits
        cases hWaits
      | scope | acquire | abort | advance => exact hReaches
    have hReachable := h.perform hBegun step
    have hRests := settled_perform c step
    rw [granted?, if_neg hNot]
    rcases perform_of_not_waits hBegun h hSettled hAttempt hDone step with hSame | ⟨-, -, hReleased⟩
    · exact ih hReachable hRests hSame hDone
    · exact ih hReachable hRests hReleased rfl

theorem run_of_not_waits (hBegun : (start begun).Sound) (h : Reachable begun c)
    (hSettled : c.Settled) (hAttempt : c.attempts[k]? = some a) (hDone : a.waits = false)
    (steps : List Step) :
    (steps.foldl perform c).attempts[k]? = some a ∨
      (a.holds = true ∧ .release a.id ∈ steps ∧
        (steps.foldl perform c).attempts[k]? = some { a with status := .released }) := by
  induction steps generalizing c a with
  | nil => exact .inl hAttempt
  | cons step steps ih =>
    have hReachable := h.perform hBegun step
    have hRests := settled_perform c step
    rcases perform_of_not_waits hBegun h hSettled hAttempt hDone step with
      hSame | ⟨hHolds, rfl, hReleased⟩
    · rcases ih hReachable hRests hSame hDone with hStill | ⟨hHolds, hMem, hReleased⟩
      · exact .inl hStill
      · exact .inr ⟨hHolds, List.mem_cons_of_mem _ hMem, hReleased⟩
    · rcases ih hReachable hRests hReleased rfl with hStill | ⟨hHolds', -, -⟩
      · exact .inr ⟨hHolds, List.mem_cons_self, hStill⟩
      · cases hHolds'

/-- The run lemma: a task that is as its verdict says comes out as the verdict of the run says. -/
theorem run_of_verdict (hBegun : (start begun).Sound) (h : Reachable begun c)
    (hSettled : c.Settled) (hAttempt : c.attempts[k]? = some a) {slot : Option Nat}
    {ended : Option (Nat × Cause)}
    (hStatus : a.status = verdict a.deadline c.now c.bulkhead.capacity slot ended)
    (hTimes : ∀ e ∈ ended, e.1 ≤ c.now) (steps : List Step) :
    ∃ status, (steps.foldl perform c).attempts[k]? = some { a with status := status } ∧
      Attempt.Resolved { a with status := status } (steps.foldl perform c).now c.bulkhead.capacity
        (slot.or (granted? k c steps)) (ended.or (ends? a.scope (c.moments steps))) steps := by
  induction steps generalizing c a slot ended with
  | nil =>
    have hNothing : ends? a.scope [] = none := by
      cases a.scope <;> rfl
    refine ⟨a.status, hAttempt, .inl ?_⟩
    simpa [moments, granted?, hNothing] using hStatus
  | cons step steps ih =>
    have hReachable := h.perform hBegun step
    have hRests := settled_perform c step
    by_cases hWaits : a.waits = true
    · -- A task that waits has met nothing, so that its verdict is that of the steps.
      rw [Attempt.waits_iff.mp hWaits] at hStatus
      obtain ⟨rfl, rfl, -⟩ := verdict_eq_waiting hTimes hStatus.symm
      rcases perform_of_waits hBegun h hSettled hAttempt hWaits step with ⟨rfl, hAborted⟩ | hNext
      · rcases run_of_not_waits hBegun hReachable hRests hAborted rfl steps with
          hStill | ⟨hHolds, -, -⟩
        · refine ⟨.aborted, hStill, .inr (.inr ⟨rfl, ?_, List.mem_cons_self⟩)⟩
          exact granted?_of_not_waits hBegun hReachable hRests hAborted rfl steps
        · cases hHolds
      · have hCapacity : (c.perform step).bulkhead.capacity = c.bulkhead.capacity := by
          rw [(settings_reachable hReachable).1, (settings_reachable h).1]
        have hLater : ∀ e ∈ ends? a.scope (c.instants step), e.1 ≤ (c.perform step).now := by
          intro e hEnds
          obtain ⟨m, hMem, hTime⟩ := exists_of_ends? hEnds
          exact hTime ▸ ((perform_now (sound_reachable hBegun h) step).2 m hMem).2
        rw [← hCapacity] at hNext ⊢
        obtain ⟨status, hFinal, hResolved⟩ := ih hReachable hRests hNext rfl hLater
        refine ⟨status, hFinal, ?_⟩
        rw [Option.none_or, Option.none_or, moments, ends?_append, granted?]
        have hSlot : (if c.Reaches k step then some c.now else none).or
            (granted? k (c.perform step) steps) =
              if c.Reaches k step then some c.now else granted? k (c.perform step) steps := by
          split <;> rfl
        rw [hSlot] at hResolved
        rcases hResolved with hVerdict | ⟨hReleased, hSome, hMem⟩ | ⟨hAborted, hNone, hMem⟩
        · exact .inl hVerdict
        · exact .inr (.inl ⟨hReleased, hSome, List.mem_cons_of_mem _ hMem⟩)
        · exact .inr (.inr ⟨hAborted, hNone, List.mem_cons_of_mem _ hMem⟩)
    · -- What comes later does not concern a task that has stopped waiting.
      have hDone : a.waits = false := by simpa using hWaits
      have hGranted := granted?_of_not_waits hBegun h hSettled hAttempt hDone (step :: steps)
      rw [hGranted, Option.or_none]
      rcases run_of_not_waits hBegun h hSettled hAttempt hDone (step :: steps) with
        hStill | ⟨hHolds, hMem, hReleased⟩
      · have hNot : verdict a.deadline c.now c.bulkhead.capacity slot ended ≠ .waiting := by
          rw [← hStatus]
          exact fun hWaiting => hWaits (Attempt.waits_iff.mpr hWaiting)
        have hLater : ∀ e ∈ ends? a.scope (c.moments (step :: steps)), c.now ≤ e.1 := by
          intro e hEnds
          obtain ⟨m, hMem, hTime⟩ := exists_of_ends? hEnds
          exact hTime ▸ le_moments hBegun h (step :: steps) m hMem
        have hSame := verdict_or hNot (fun _ => rfl) hLater (now_le_run hBegun h (step :: steps))
        rw [Option.or_none] at hSame
        exact ⟨a.status, hStill, .inl (hStatus.trans hSame.symm)⟩
      · refine ⟨.released, hReleased, .inr (.inl ⟨rfl, ?_, hMem⟩)⟩
        cases hHeld : a.status with
        | held since =>
          rw [hHeld] at hStatus
          rw [slot_of_verdict hStatus.symm]
          rfl
        | waiting | released | aborted | refused => simp [Attempt.holds, hHeld] at hHolds

theorem run_rests (hBegun : (start begun).Sound) (h : Reachable begun c) (hSettled : c.Settled)
    (steps : List Step) :
    Reachable begun (steps.foldl perform c) ∧ (steps.foldl perform c).Settled := by
  induction steps generalizing c with
  | nil => exact ⟨h, hSettled⟩
  | cons step steps ih => exact ih (h.perform hBegun step) (settled_perform c step)

/-! ## Nobody is overtaken -/

/-- Only an acquire brings a new task. -/
theorem acquire_of_none (hBegun : (start begun).Sound) (h : Reachable begun c)
    (hSettled : c.Settled) (hNone : c.attempts[k]? = none) {step : Step}
    (hNew : (c.perform step).attempts[k]? = some a) :
    ∃ id name, step = .acquire id name ∧ k = c.attempts.length := by
  have hSound := sound_reachable hBegun h
  have hEffect := effect hSound step
  generalize c.perform step = c' at hEffect hNew
  cases hEffect with
  | scope command =>
    rw [settle_getElem? (sound_move hSound _)] at hNew
    simp [move, hNone] at hNew
  | acquire id name =>
    refine ⟨id, name, rfl, ?_⟩
    rw [settle_getElem? (sound_move hSound _)] at hNew
    obtain ⟨a', hMoved, -⟩ := Option.map_eq_some_iff.mp hNew
    have hBound := (List.getElem?_eq_some_iff.mp hMoved).1
    have hLength := List.getElem?_eq_none_iff.mp hNone
    simp only [move, List.length_append, List.length_singleton] at hBound
    omega
  | release hFind hAttempt hHolds =>
    rw [settle_getElem? (sound_move hSound _), move_release hAttempt hHolds,
      List.getElem?_eq_none (by simpa using hNone)] at hNew
    cases hNew
  | abort hFind hAttempt hWaits =>
    rw [settle_getElem? (sound_move hSound _), move_abort hAttempt hWaits,
      List.getElem?_eq_none (by simpa using hNone)] at hNew
    cases hNew
  | keep | spare =>
    rw [settle_getElem? hSound, hNone] at hNew
    cases hNew
  | advance d =>
    rw [runUntil_getElem? hBegun h hSettled rfl (Nat.le_add_right _ _), hNone] at hNew
    cases hNew

/-- While a slot is free, nobody waits. -/
theorem not_waitsAt_of_available (h : c.Sound) (hSettled : c.Settled)
    (hFree : 0 < c.bulkhead.available) (k : Nat) : c.waitsAt k = false := by
  by_contra hWaits
  obtain ⟨a, hAttempt, hWaits⟩ := waitsAt_iff.mp (by simpa using hWaits)
  exact status_ne_waiting h hSettled hFree a (List.mem_of_getElem? hAttempt)
    (Attempt.waits_iff.mp hWaits)

theorem holds_iff : a.holds = true ↔ ∃ since, a.status = .held since := by
  cases hStatus : a.status <;> simp [Attempt.holds, hStatus]

/-- Who gets a slot in a step is not behind anybody who waits. -/
theorem no_overtaking (hBegun : (start begun).Sound) (h : Reachable begun c) (hSettled : c.Settled)
    {step : Step} (hBefore : c.holdsAt k = false) (hAfter : (c.perform step).holdsAt k = true) :
    ∀ j < k, c.waitsAt j = false := by
  have hSound := sound_reachable hBegun h
  cases hAttempt : c.attempts[k]? with
  | none =>
    obtain ⟨a, hNew, hHolds⟩ : ∃ a, (c.perform step).attempts[k]? = some a ∧ a.holds = true := by
      simpa [holdsAt, Option.any_eq_true] using hAfter
    obtain ⟨id, name, rfl, rfl⟩ := acquire_of_none hBegun h hSettled hAttempt hNew
    rw [perform_acquire hBegun h hSettled] at hNew
    cases hNew
    obtain ⟨since, hHeld⟩ := holds_iff.mp hHolds
    have hSlot := slot_of_verdict hHeld
    have hFree : 0 < c.bulkhead.available := by
      by_contra hFull
      rw [if_neg hFull] at hSlot
      cases hSlot
    exact fun j _ => not_waitsAt_of_available hSound hSettled hFree j
  | some a =>
    rw [holdsAt_of hAttempt] at hBefore
    cases hWaits : a.waits with
    | false =>
      rcases perform_of_not_waits hBegun h hSettled hAttempt hWaits step with
        hSame | ⟨-, -, hReleased⟩
      · rw [holdsAt_of hSame, hBefore] at hAfter
        cases hAfter
      · rw [holdsAt_of hReleased] at hAfter
        cases hAfter
    | true =>
      rcases perform_of_waits hBegun h hSettled hAttempt hWaits step with ⟨-, hAborted⟩ | hNext
      · rw [holdsAt_of hAborted] at hAfter
        cases hAfter
      · rw [holdsAt_of hNext] at hAfter
        obtain ⟨since, hHeld⟩ := holds_iff.mp hAfter
        have hSlot := slot_of_verdict hHeld
        have hReaches : c.Reaches k step := by
          by_contra hNot
          rw [if_neg hNot] at hSlot
          cases hSlot
        cases step with
        | release id => exact hReaches.2.2
        | scope | acquire | abort | advance => exact hReaches.elim

end Contention

open Contention

/-- An acquire has a free slot at once, even where its scope has ended; otherwise the slot that
reaches it, which passes by nobody who came earlier and waits; otherwise it ends with its scope, at
the moment at which that ends, if this is before the timeout, and at exactly the timeout if not.
It waits until then, unless it is aborted. In no step does a task get a slot that came after one
that waits. -/
theorem acquire_resolves {capacity acquireTimeout : Nat} {b : Bulkhead}
    (hCreate : create? capacity acquireTimeout = some b) (before after : List Step) (id : String)
    (name : Option String) :
    let c := before.foldl perform (start b)
    let begun := c.perform (.acquire id name)
    let c' := after.foldl perform begun
    let slot := if 0 < c.bulkhead.available then some c.now
      else granted? c.attempts.length begun after
    let ended := ends? (name.bind c.directory.find?)
      ((c.now, c.directory.tokens) :: begun.moments after)
    (∃ a, c'.attempts[c.attempts.length]? = some a ∧ a.id = id ∧
      a.deadline = c.now + acquireTimeout ∧ a.Resolved c'.now capacity slot ended after) ∧
    ∀ step k, c.holdsAt k = false → (c.perform step).holdsAt k = true →
      ∀ j < k, c.waitsAt j = false := by
  intro c begun c' slot ended
  have hStart := sound_start hCreate
  obtain ⟨hReachable, hSettled⟩ := run_rests hStart .start (settled_of_waitingTickets rfl) before
  refine ⟨?_, fun step k => no_overtaking hStart hReachable hSettled⟩
  have hBegun := hReachable.perform hStart (.acquire id name)
  have hRests := settled_perform c (.acquire id name)
  obtain ⟨hCapacity, hTimeout⟩ := settings_reachable hReachable
  have hCapacity' := (settings_reachable hBegun).1
  have hNew := perform_acquire hStart hReachable hSettled id name
  have hTimes : ∀ e ∈ ends? (name.bind c.directory.find?) [(c.now, c.directory.tokens)],
      e.1 ≤ begun.now := by
    intro e hEnds
    obtain ⟨m, hMem, hTime⟩ := exists_of_ends? hEnds
    obtain rfl := List.mem_singleton.mp hMem
    exact hTime ▸ (perform_now (sound_reachable hStart hReachable) (.acquire id name)).1
  obtain ⟨status, hFinal, hResolved⟩ :=
    run_of_verdict hStart hBegun hRests hNew (by rw [hCapacity', hCapacity]) hTimes after
  have hSlot : (if 0 < c.bulkhead.available then some c.now else none).or
      (granted? c.attempts.length begun after) = slot := by
    simp only [slot]
    split <;> rfl
  have hEnded : (ends? (name.bind c.directory.find?) [(c.now, c.directory.tokens)]).or
      (ends? (name.bind c.directory.find?) (begun.moments after)) = ended :=
    (ends?_append _ _ _).symm
  have hSettings : b.capacity = capacity ∧ b.acquireTimeout = acquireTimeout := by
    rw [create_cases hCreate]
    exact ⟨rfl, rfl⟩
  rw [hSlot, hEnded, hCapacity', hSettings.1] at hResolved
  exact ⟨_, hFinal, rfl, by rw [← hSettings.2, ← hTimeout], hResolved⟩

/-- One slot, which is taken, and a scope that ends at 8. -/
def oneTaken : List Step := [.scope (.createWithTimeout "request" 8), .acquire "first" none]

/-- Somebody joins the line, and the slot is given back at 3. -/
def givenBack : List Step := [.acquire "third" none, .advance 3, .release "first"]

theorem acquire_resolves_second_in_line :
    ∃ a, (givenBack.foldl perform ((oneTaken.foldl perform (start ⟨1, 10, 1, 0, [], [], 0⟩)).perform
        (.acquire "second" (some "request")))).attempts[1]? = some a ∧
      a.id = "second" ∧ a.status = .held 3 := by
  have hCreate : create? 1 10 = some ⟨1, 10, 1, 0, [], [], 0⟩ := by decide
  obtain ⟨⟨a, hAttempt, hId, -, hResolved⟩, -⟩ :=
    acquire_resolves hCreate oneTaken givenBack "second" (some "request")
  have hTaken : (oneTaken.foldl perform (start ⟨1, 10, 1, 0, [], [], 0⟩)).bulkhead.available = 0 := by
    decide +kernel
  have hLength : (oneTaken.foldl perform (start ⟨1, 10, 1, 0, [], [], 0⟩)).attempts.length = 1 := by
    decide +kernel
  have hGranted : granted? 1 ((oneTaken.foldl perform (start ⟨1, 10, 1, 0, [], [], 0⟩)).perform
      (.acquire "second" (some "request"))) givenBack = some 3 := by
    decide +kernel
  rw [hTaken, hLength, if_neg (Nat.lt_irrefl 0), hGranted] at hResolved
  rw [hLength] at hAttempt
  refine ⟨a, hAttempt, hId, ?_⟩
  rcases hResolved with hVerdict | ⟨-, -, hMem⟩ | ⟨-, hNone, -⟩
  · exact hVerdict
  · simp [givenBack, hId] at hMem
  · cases hNone

end Gatehouse.Bulkhead
