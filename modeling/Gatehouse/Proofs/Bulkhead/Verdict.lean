import Gatehouse.Proofs.Bulkhead.Moves
import Gatehouse.Proofs.Scope.Causes

/-!
# How a task fares that waits

Three things compete for a task that waits: a slot that is given back, the acquire timeout and the
end of its scope. When each of them comes decides how the task fares, whatever else happens.

* `ends?`: the first of some moments at which a scope has ended.
* `verdict`: how a task stands; `verdict_or`: what comes later does not change it.
* `Attempt.lapse`: what a task comes to while time passes and nothing else happens.
-/

namespace Gatehouse.Bulkhead

/-- How a task stands at `now` whose timeout is at `full`. A slot goes first, then the end of the
scope if it comes before the timeout, then the timeout. -/
def verdict (full now capacity : Nat) (slot : Option Nat) (ended : Option (Nat × Cause)) : Status :=
  match slot with
  | some t => .held t
  | none =>
    match ended.filter fun e => e.1 < full with
    | some (t, cause) => .refused (.ended cause) t
    | none => if full ≤ now then .refused (.full capacity) full else .waiting

/-- The first of some moments at which a scope has ended, and why. -/
def ends? (scope : Option Scope) (moments : List (Nat × Tokens)) : Option (Nat × Cause) :=
  scope.bind fun s => moments.findSome? fun m => (s.cause? m.2 m.1).map fun cause => (m.1, cause)

variable {full now now' capacity : Nat} {slot slot' : Option Nat}
  {ended ended' : Option (Nat × Cause)}

/-- Who still waits has met nothing yet. -/
theorem verdict_eq_waiting (hTimes : ∀ e ∈ ended, e.1 ≤ now)
    (h : verdict full now capacity slot ended = .waiting) :
    slot = none ∧ ended = none ∧ now < full := by
  unfold verdict at h
  cases slot with
  | some t => cases h
  | none =>
    cases hEnded : ended.filter fun e => e.1 < full with
    | some e =>
      simp only [hEnded] at h
      cases h
    | none =>
      simp only [hEnded] at h
      split at h
      · cases h
      · next hEarly =>
        refine ⟨rfl, ?_, by omega⟩
        cases ended with
        | none => rfl
        | some e =>
          have hTime := hTimes e rfl
          have hLate : ¬ e.1 < full := by simpa using hEnded
          omega

theorem slot_of_verdict {t : Nat} (h : verdict full now capacity slot ended = .held t) :
    slot = some t := by
  unfold verdict at h
  cases slot with
  | some t' =>
    cases h
    rfl
  | none =>
    simp only at h
    split at h
    · cases h
    · split at h <;> cases h

/-- What comes later does not change a verdict. -/
theorem verdict_or (hDone : verdict full now capacity slot ended ≠ .waiting)
    (hSlot : slot = none → slot' = none) (hTimes : ∀ e ∈ ended', now ≤ e.1) (hNow : now ≤ now') :
    verdict full now' capacity (slot.or slot') (ended.or ended') =
      verdict full now capacity slot ended := by
  cases slot with
  | some t => rfl
  | none =>
    obtain rfl := hSlot rfl
    by_cases hBefore : ∃ e, ended = some e ∧ e.1 < full
    · obtain ⟨e, rfl, hEarly⟩ := hBefore
      simp [verdict, Option.filter_some, hEarly]
    · have hNone : (ended.filter fun e => e.1 < full) = none := by
        cases ended with
        | none => rfl
        | some e =>
          have hLate : ¬ e.1 < full := fun hEarly => hBefore ⟨e, rfl, hEarly⟩
          simp [Option.filter_some, hLate]
      simp only [verdict, hNone] at hDone
      have hFull : full ≤ now := by
        by_contra hEarly
        simp [hEarly] at hDone
      have hFull' : full ≤ now' := by omega
      have hNone' : ((ended.or ended').filter fun e => e.1 < full) = none := by
        cases ended with
        | some e => exact hNone
        | none =>
          cases ended' with
          | none => rfl
          | some e =>
            have hTime := hTimes e rfl
            have hLate : ¬ e.1 < full := by omega
            simp [Option.filter_some, hLate]
      simp [verdict, hNone, hNone', hFull, hFull']

/-! ## The end of a scope -/

variable {scope : Option Scope} {a : Attempt} {tokens : Tokens}

theorem ends?_append (scope : Option Scope) (moments moments' : List (Nat × Tokens)) :
    ends? scope (moments ++ moments') = (ends? scope moments).or (ends? scope moments') := by
  cases scope with
  | none => rfl
  | some s => simp [ends?, List.findSome?_append]

theorem ends?_singleton (scope : Option Scope) (tokens : Tokens) (now : Nat) :
    ends? scope [(now, tokens)] =
      (scope.bind fun s => s.cause? tokens now).map fun cause => (now, cause) := by
  cases scope with
  | none => rfl
  | some s => cases hCause : s.cause? tokens now <;> simp [ends?, hCause]

theorem exists_of_ends? {moments : List (Nat × Tokens)} {e : Nat × Cause}
    (h : ends? scope moments = some e) : ∃ m ∈ moments, m.1 = e.1 := by
  cases scope with
  | none => cases h
  | some s =>
    obtain ⟨m, hMem, hCause⟩ := List.exists_of_findSome?_eq_some h
    obtain ⟨cause, -, rfl⟩ := Option.map_eq_some_iff.mp hCause
    exact ⟨m, hMem, rfl⟩

/-- The deadline of the scope of a task, once it is reached. -/
def Attempt.endsBy (a : Attempt) (now : Nat) : Option (Nat × Cause) :=
  ((a.scope.bind (·.deadline)).filter fun t => t ≤ now).map fun t => (t, .deadlineExceeded)

theorem Attempt.endsBy_of_none (hDeadline : a.scope.bind (·.deadline) = none) :
    a.endsBy now = none := by
  simp [endsBy, hDeadline]

theorem Attempt.endsBy_of_lt {t : Nat} (hDeadline : a.scope.bind (·.deadline) = some t)
    (h : now < t) : a.endsBy now = none := by
  have hNot : ¬ t ≤ now := by omega
  simp [endsBy, hDeadline, Option.filter_some, hNot]

theorem Attempt.endsBy_of_le {t : Nat} (hDeadline : a.scope.bind (·.deadline) = some t)
    (h : t ≤ now) : a.endsBy now = some (t, .deadlineExceeded) := by
  simp [endsBy, hDeadline, Option.filter_some, h]

theorem Attempt.endsBy_cases {e : Nat × Cause} (h : a.endsBy now = some e) :
    a.scope.bind (·.deadline) = some e.1 ∧ e.1 ≤ now ∧ e.2 = .deadlineExceeded := by
  simp only [endsBy, Option.map_eq_some_iff, Option.filter_eq_some_iff, decide_eq_true_eq] at h
  obtain ⟨t, ⟨hDeadline, hBy⟩, rfl⟩ := h
  exact ⟨hDeadline, hBy, rfl⟩

/-- The deadline of a scope without a cause is still ahead, and it is the next cause, if nobody
cancels the scope. -/
theorem cause?_of_none {s : Scope} (h : s.cause? tokens now = none) :
    (∀ t ∈ s.deadline, now < t) ∧
      ∀ now', s.cause? tokens now' =
        if Scope.passed now' s.deadline then some .deadlineExceeded else none := by
  obtain ⟨hCancelled, hAhead⟩ := Scope.cause?_eq_none.mp h
  exact ⟨hAhead, fun now' => by simp [Scope.cause?, hCancelled]⟩

/-- One moment is as good as all of them up to it, if nothing ends before. -/
theorem ends?_singleton_of_le (h : (a.scope.bind fun s => s.cause? tokens now) = none)
    (hLe : ∀ t, a.scope.bind (·.deadline) = some t → now' ≤ t) :
    ends? a.scope [(now', tokens)] = a.endsBy now' := by
  rw [ends?_singleton]
  cases hScope : a.scope with
  | none =>
    rw [Attempt.endsBy_of_none (by simp [hScope])]
    rfl
  | some s =>
    rw [hScope] at h
    obtain ⟨-, hCause⟩ := cause?_of_none h
    have hOwn : a.scope.bind (·.deadline) = s.deadline := by simp [hScope]
    rw [Option.bind_some, hCause]
    cases hDeadline : s.deadline with
    | none =>
      rw [Attempt.endsBy_of_none (hOwn.trans hDeadline)]
      rfl
    | some t =>
      have hLe := hLe t (hOwn.trans hDeadline)
      by_cases hPassed : t ≤ now'
      · obtain rfl : t = now' := by omega
        rw [Attempt.endsBy_of_le (hOwn.trans hDeadline) hPassed]
        simp [Scope.passed]
      · rw [Attempt.endsBy_of_lt (hOwn.trans hDeadline) (by omega)]
        simp [Scope.passed, hPassed]

/-- A scope that nobody cancels ends at its deadline. -/
theorem ends?_range (h : (a.scope.bind fun s => s.cause? tokens now) = none) (d : Nat) :
    ends? a.scope ((List.range d).map fun i => (now + i + 1, tokens)) = a.endsBy (now + d) := by
  cases hScope : a.scope with
  | none =>
    rw [Attempt.endsBy_of_none (by simp [hScope])]
    rfl
  | some s =>
    rw [hScope] at h
    obtain ⟨hLater, hCause⟩ := cause?_of_none h
    have hOwn : a.scope.bind (·.deadline) = s.deadline := by simp [hScope]
    cases hDeadline : s.deadline with
    | none =>
      rw [hDeadline] at hOwn
      rw [Attempt.endsBy_of_none hOwn]
      simp [ends?, hCause, hDeadline, Scope.passed]
    | some t =>
      rw [hDeadline] at hOwn
      have hAfter : now < t := hLater t hDeadline
      induction d with
      | zero =>
        rw [Nat.add_zero, Attempt.endsBy_of_lt hOwn hAfter]
        rfl
      | succ d ih =>
        have hLast : ends? (some s) [(now + d + 1, tokens)] =
            if t ≤ now + d + 1 then some (now + d + 1, .deadlineExceeded) else none := by
          by_cases hPassed : t ≤ now + d + 1 <;>
            simp [ends?, hCause, hDeadline, Scope.passed, hPassed]
        rw [List.range_succ, List.map_append, ends?_append, ih, List.map_singleton, hLast]
        by_cases hBefore : t ≤ now + d
        · rw [Attempt.endsBy_of_le hOwn hBefore, Option.some_or,
            Attempt.endsBy_of_le hOwn (by omega)]
        · rw [Attempt.endsBy_of_lt hOwn (by omega), Option.none_or]
          by_cases hHere : t ≤ now + d + 1
          · obtain rfl : t = now + d + 1 := by omega
            rw [if_pos hHere, ← Nat.add_assoc, Attempt.endsBy_of_le hOwn hHere]
          · rw [if_neg hHere, Attempt.endsBy_of_lt hOwn (by omega)]

/-! ## Time passes -/

/-- What a task comes to while time passes and nothing else happens. -/
def Attempt.lapse (capacity now : Nat) (a : Attempt) : Attempt :=
  if a.waits then { a with status := verdict a.deadline now capacity none (a.endsBy now) } else a

theorem Attempt.lapse_of_not_waits (h : a.waits = false) : a.lapse capacity now = a := by
  simp [lapse, h]

theorem Attempt.lapse_of_waits (h : a.waits = true) :
    a.lapse capacity now =
      { a with status := verdict a.deadline now capacity none (a.endsBy now) } := by
  simp [lapse, h]

theorem Attempt.verdict_endsBy (hNow : now ≤ now')
    (hDone : verdict full now capacity none (a.endsBy now) ≠ .waiting) :
    verdict full now' capacity none (a.endsBy now') =
      verdict full now capacity none (a.endsBy now) := by
  cases hEnded : a.endsBy now with
  | some e =>
    obtain ⟨hDeadline, hBy, hCause⟩ := endsBy_cases hEnded
    have hLater : a.endsBy now' = some e := by
      rw [endsBy_of_le hDeadline (by omega), ← hCause]
    have hSame : verdict full now' capacity (none.or none) ((some e).or none) =
        verdict full now capacity none (some e) :=
      verdict_or (hEnded ▸ hDone) (fun _ => rfl) nofun hNow
    rw [hLater]
    exact hSame
  | none =>
    have hTimes : ∀ e ∈ a.endsBy now', now ≤ e.1 := by
      intro e hEnds
      obtain ⟨hDeadline, -, -⟩ := endsBy_cases hEnds
      by_contra hEarly
      rw [endsBy_of_le hDeadline (by omega)] at hEnded
      cases hEnded
    have hSame : verdict full now' capacity (none.or none) (none.or (a.endsBy now')) =
        verdict full now capacity none none :=
      verdict_or (hEnded ▸ hDone) (fun _ => rfl) hTimes hNow
    exact hSame

theorem Attempt.lapse_lapse (h : now ≤ now') :
    (a.lapse capacity now).lapse capacity now' = a.lapse capacity now' := by
  cases hWaits : a.waits with
  | false => rw [lapse_of_not_waits hWaits, lapse_of_not_waits hWaits]
  | true =>
    rw [lapse_of_waits hWaits]
    by_cases hDone : verdict a.deadline now capacity none (a.endsBy now) = .waiting
    · rw [hDone, ← Attempt.waits_iff.mp hWaits]
    · rw [lapse_of_not_waits (by simpa [waits] using hDone), lapse_of_waits hWaits,
        verdict_endsBy h hDone]

end Gatehouse.Bulkhead
