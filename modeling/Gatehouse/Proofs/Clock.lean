import Gatehouse.Clock

/-!
# Timers, one after the other

* `Clock.earliest_eq_none`, `Clock.earliest_spec`: the earliest of some timers is one of them, and
  none is earlier.
* `Clock.runUntil_keeps`, `Clock.runUntil_ends`: what every instant keeps a whole interval keeps,
  and its last instant is the target.
* `Clock.runUntil_onward`: the instants come in order, and no timer that is ahead is passed over.
-/

namespace Gatehouse.Clock

theorem earliest_cons (timer : Option Nat) (timers : List (Option Nat)) :
    earliest (timer :: timers) = earlier timer (earliest timers) := rfl

theorem earlier_eq_none {timer timer' : Option Nat} :
    earlier timer timer' = none ↔ timer = none ∧ timer' = none := by
  cases timer <;> cases timer' <;> simp [earlier]

theorem earliest_eq_none {timers : List (Option Nat)} :
    earliest timers = none ↔ ∀ timer ∈ timers, timer = none := by
  induction timers with
  | nil => simp [earliest]
  | cons timer timers ih => rw [earliest_cons, earlier_eq_none, ih, List.forall_mem_cons]

/-- The earlier of two timers is one of them, and not after the other. -/
theorem earlier_spec {timer timer' : Option Nat} {t : Nat} (h : earlier timer timer' = some t) :
    (timer = some t ∨ timer' = some t) ∧ (∀ t' ∈ timer, t ≤ t') ∧ ∀ t' ∈ timer', t ≤ t' := by
  cases timer with
  | none =>
    obtain rfl : timer' = some t := h
    simp
  | some i =>
    cases timer' with
    | none =>
      obtain rfl : i = t := Option.some.inj h
      simp
    | some j =>
      obtain rfl : min i j = t := Option.some.inj h
      simp
      omega

theorem earliest_spec {timers : List (Option Nat)} {t : Nat} (h : earliest timers = some t) :
    some t ∈ timers ∧ ∀ t', some t' ∈ timers → t ≤ t' := by
  induction timers generalizing t with
  | nil => cases h
  | cons timer timers ih =>
    rw [earliest_cons] at h
    obtain ⟨hOne, hFirst, hRest⟩ := earlier_spec h
    constructor
    · rcases hOne with hHere | hLater
      · exact hHere ▸ List.mem_cons_self
      · exact List.mem_cons_of_mem _ (ih hLater).1
    · intro t' hMem
      rcases List.mem_cons.mp hMem with hHere | hLater
      · exact hFirst t' hHere.symm
      · cases hEarliest : earliest timers with
        | none => cases earliest_eq_none.mp hEarliest _ hLater
        | some s =>
          have hSooner := hRest s hEarliest
          have hTail := (ih hEarliest).2 t' hLater
          omega

/-! ## An interval -/

variable {σ : Type} {due : σ → Option Nat} {fire : Nat → σ → σ}

theorem runUntil_keeps {P : σ → Prop} (hFire : ∀ t s, P s → P (fire t s)) {s : σ} (h : P s)
    (now target : Nat) : P (runUntil due fire now target s) := by
  induction now, s using runUntil.induct due fire target with
  | case1 now s hDue =>
    rw [runUntil, hDue]
    exact hFire target s h
  | case2 now s t hDue hBetween ih =>
    rw [runUntil, hDue]
    simp only [hBetween, and_self, dif_pos]
    exact ih (hFire t s h)
  | case3 now s t hDue hBetween =>
    rw [runUntil, hDue]
    simp only [hBetween, dif_neg, not_false_eq_true]
    exact hFire target s h

/-- The instants of an interval come one after the other, each with the leave of the timers: one
that is still ahead is not passed over. -/
theorem runUntil_onward {P : Nat → σ → Prop}
    (hFire : ∀ now t s, now ≤ t → (∀ t' ∈ due s, t' ≤ now ∨ t ≤ t') → P now s → P t (fire t s))
    {now target : Nat} {s : σ} (hAhead : now ≤ target) (h : P now s) :
    P target (runUntil due fire now target s) := by
  induction now, s using runUntil.induct due fire target with
  | case1 now s hDue =>
    rw [runUntil, hDue]
    exact hFire now target s hAhead (by simp [hDue]) h
  | case2 now s t hDue hBetween ih =>
    rw [runUntil, hDue]
    simp only [hBetween, and_self, dif_pos]
    refine ih hBetween.2 (hFire now t s (Nat.le_of_lt hBetween.1) ?_ h)
    intro t' hMem
    obtain rfl : t = t' := Option.some.inj (hDue.symm.trans hMem)
    exact .inr (Nat.le_refl t)
  | case3 now s t hDue hBetween =>
    rw [runUntil, hDue]
    simp only [hBetween, dif_neg, not_false_eq_true]
    refine hFire now target s hAhead ?_ h
    intro t' hMem
    obtain rfl : t = t' := Option.some.inj (hDue.symm.trans hMem)
    omega

theorem runUntil_ends (due : σ → Option Nat) (fire : Nat → σ → σ) (now target : Nat) (s : σ) :
    ∃ s', runUntil due fire now target s = fire target s' := by
  induction now, s using runUntil.induct due fire target with
  | case1 now s hDue =>
    rw [runUntil, hDue]
    exact ⟨s, rfl⟩
  | case2 now s t hDue hBetween ih =>
    rw [runUntil, hDue]
    simp only [hBetween, and_self, dif_pos]
    exact ih
  | case3 now s t hDue hBetween =>
    rw [runUntil, hDue]
    simp only [hBetween, dif_neg, not_false_eq_true]
    exact ⟨s, rfl⟩

end Gatehouse.Clock
