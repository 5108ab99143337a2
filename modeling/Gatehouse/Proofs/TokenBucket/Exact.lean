import Mathlib.Data.Rat.Defs
import Mathlib.Data.Finset.Max
import Mathlib.Order.Interval.Finset.Nat
import Mathlib.Tactic.Linarith
import Mathlib.Tactic.FieldSimp
import Mathlib.Tactic.Ring
import Gatehouse.TokenBucket

/-!
# What an exact bucket grants

A bucket over the rationals keeps one number, its tokens up to the last call. Over a whole run of
calls that number is a minimum: for each instant of the past at which the bucket may have been
full, the burst, what came in since then and less what was granted since then. So one number
knows the bound on every interval at once, and a call is granted when every one of these bounds
has room for one more.

* `RateLimiter.le_refilled_iff`: the tokens before a call, as that minimum.
* `RateLimiter.tryAcquire_denied`: a denied call leaves nothing that a later call could notice.
* `RateLimiter.grants_exactly`: a call is granted exactly when all the bounds allow it; the bound
  on any interval; a run without a call that it denies.

Call `k` is made at `times k`, and the bucket was filled at `times 0`. There is no call zero.
-/

namespace Gatehouse.RateLimiter

/-- The seconds from one instant to another. -/
def secondsBetween (start finish : Nat) : ℚ :=
  ((finish : ℚ) - start) / Duration.nanosPerSecond

/-- The bucket after its first calls. -/
def bucket (rate : ℚ) (burst : Nat) (times : Nat → Nat) : Nat → RateLimiter ℚ
  | 0 => create rate burst (times 0)
  | k + 1 => ((bucket rate burst times k).tryAcquire (times (k + 1))).2

def granted (rate : ℚ) (burst : Nat) (times : Nat → Nat) : Nat → Bool
  | 0 => false
  | k + 1 => ((bucket rate burst times k).tryAcquire (times (k + 1))).1

/-- How many of the calls from `i` on and before `k` are granted. -/
def grants (rate : ℚ) (burst : Nat) (times : Nat → Nat) (i k : Nat) : Nat :=
  ((Finset.Ico i k).filter fun j => granted rate burst times j).card

/-- How many of the first `n` calls are granted at an instant of an interval. -/
def grantsWithin (rate : ℚ) (burst : Nat) (times : Nat → Nat) (n start finish : Nat) : Nat :=
  ((Finset.Icc 1 n).filter fun j =>
    granted rate burst times j ∧ start ≤ times j ∧ times j ≤ finish).card

/-- The calls without call `k`; the later ones move up. -/
def without (times : Nat → Nat) (k j : Nat) : Nat :=
  if j < k then times j else times (j + 1)

/-! ## One call -/

theorem smaller_eq_min (a b : ℚ) : smaller a b = min a b := (min_def a b).symm

theorem secondsBetween_add (start middle finish : Nat) :
    secondsBetween start middle + secondsBetween middle finish =
      secondsBetween start finish := by
  unfold secondsBetween
  ring

theorem secondsBetween_mono {start finish start' finish' : Nat} (hStart : start' ≤ start)
    (hFinish : finish ≤ finish') :
    secondsBetween start finish ≤ secondsBetween start' finish' := by
  unfold secondsBetween
  have hStart' : (start' : ℚ) ≤ start := by exact_mod_cast hStart
  have hFinish' : (finish : ℚ) ≤ finish' := by exact_mod_cast hFinish
  gcongr

@[simp] theorem secondsBetween_self (now : Nat) : secondsBetween now now = 0 := by
  simp [secondsBetween]

theorem secondsBetween_nonneg {start finish : Nat} (h : start ≤ finish) :
    0 ≤ secondsBetween start finish :=
  secondsBetween_self start ▸ secondsBetween_mono le_rfl h

/-- The whole seconds and the nanoseconds left over make up the duration. -/
theorem seconds_sub {start finish : Nat} (h : start ≤ finish) :
    (seconds (finish - start) : ℚ) = secondsBetween start finish := by
  have hWhole := Nat.div_add_mod (finish - start) Duration.nanosPerSecond
  have hCast : ((finish - start : Nat) : ℚ) = (finish : ℚ) - start := Nat.cast_sub h
  have hNanos : (Duration.nanosPerSecond : ℚ) ≠ 0 := by norm_num [Duration.nanosPerSecond]
  unfold seconds secondsBetween
  rw [← hCast]
  field_simp
  rw [mul_comm] at hWhole
  exact_mod_cast hWhole

/-- The tokens at an instant: what was left, what came in since, and never more than the
burst. -/
theorem refilled_eq (l : RateLimiter ℚ) {now : Nat} (h : l.updated ≤ now) :
    l.refilled now =
      min (l.tokens + l.refillRate * secondsBetween l.updated now) l.burst := by
  rw [refilled, smaller_eq_min, seconds_sub h, mul_comm]

/-- A call refills the bucket, and takes a token when there is a whole one. -/
theorem tryAcquire_eq (l : RateLimiter ℚ) (now : Nat) :
    l.tryAcquire now =
      (decide (1 ≤ l.refilled now),
        { l with
          tokens := l.refilled now - if 1 ≤ l.refilled now then 1 else 0
          updated := now }) := by
  unfold tryAcquire
  rw [Nat.cast_one]
  by_cases hOne : 1 ≤ l.refilled now
  · simp [hOne]
  · simp [hOne]

/-- A denied call is as if it had not been made: the next one finds the same tokens. -/
theorem tryAcquire_denied {l : RateLimiter ℚ} {now now' : Nat} (hRate : 0 ≤ l.refillRate)
    (hUpdated : l.updated ≤ now) (hNow : now ≤ now') (hDenied : (l.tryAcquire now).1 = false) :
    (l.tryAcquire now).2.tryAcquire now' = l.tryAcquire now' := by
  have hShort : ¬ 1 ≤ l.refilled now := by simpa [tryAcquire_eq] using hDenied
  have hLeft : (l.tryAcquire now).2 = { l with tokens := l.refilled now, updated := now } := by
    simp [tryAcquire_eq, hShort]
  have hIncome : 0 ≤ l.refillRate * secondsBetween now now' :=
    mul_nonneg hRate (secondsBetween_nonneg hNow)
  have hRefilled : (l.tryAcquire now).2.refilled now' = l.refilled now' := by
    rw [hLeft, refilled_eq _ hNow, refilled_eq l (hUpdated.trans hNow), refilled_eq l hUpdated,
      ← secondsBetween_add l.updated now now', mul_add, ← add_assoc, ← min_add_add_right,
      min_assoc]
    congr 1
    exact min_eq_right (le_add_of_nonneg_right hIncome)
  rw [tryAcquire_eq _ now', tryAcquire_eq l now', hRefilled, hLeft]

/-! ## A run of calls -/

section
variable {rate : ℚ} {burst : Nat} {times : Nat → Nat}

@[simp] theorem bucket_refillRate (k : Nat) : (bucket rate burst times k).refillRate = rate := by
  induction k with
  | zero => rfl
  | succ k ih => simp [bucket, tryAcquire_eq, ih]

@[simp] theorem bucket_burst (k : Nat) : (bucket rate burst times k).burst = max burst 1 := by
  induction k with
  | zero => rfl
  | succ k ih => simp [bucket, tryAcquire_eq, ih]

@[simp] theorem bucket_updated (k : Nat) : (bucket rate burst times k).updated = times k := by
  cases k with
  | zero => rfl
  | succ k => simp [bucket, tryAcquire_eq]

theorem granted_zero : granted rate burst times 0 = false := rfl

theorem granted_succ (k : Nat) :
    granted rate burst times (k + 1) = true ↔
      1 ≤ (bucket rate burst times k).refilled (times (k + 1)) := by
  simp [granted, tryAcquire_eq]

/-- What the call found, less the token that it took. -/
theorem bucket_succ_tokens (k : Nat) :
    (bucket rate burst times (k + 1)).tokens =
      (bucket rate burst times k).refilled (times (k + 1)) -
        if granted rate burst times (k + 1) then 1 else 0 := by
  simp [bucket, granted, tryAcquire_eq]

@[simp] theorem grants_self (k : Nat) : grants rate burst times k k = 0 := by
  simp [grants]

theorem grants_succ {i k : Nat} (h : i ≤ k) :
    grants rate burst times i (k + 1) =
      grants rate burst times i k + if granted rate burst times k then 1 else 0 := by
  unfold grants
  rw [Nat.Ico_succ_right_eq_insert_Ico h, Finset.filter_insert]
  split
  · rw [Finset.card_insert_of_notMem]
    simp
  · rfl

/-- There is no call zero to be granted. -/
theorem grants_max_one (i k : Nat) :
    grants rate burst times (max i 1) k = grants rate burst times i k := by
  unfold grants
  congr 1
  ext j
  cases j with
  | zero => simp [granted_zero]
  | succ j => simp

/-- The tokens before a call are the least that any instant since the start leaves: the burst of
that instant and the income since then, less the grants since then. -/
theorem le_refilled_iff (hTimes : Monotone times) (k : Nat) {now : Nat} (hNow : times k ≤ now)
    (x : ℚ) :
    x ≤ (bucket rate burst times k).refilled now ↔
      x ≤ (max burst 1 : Nat) ∧
        ∀ i ≤ k, x + grants rate burst times i (k + 1) ≤
          (max burst 1 : Nat) + rate * secondsBetween (times i) now := by
  induction k generalizing now x with
  | zero =>
    have hNone : grants rate burst times 0 1 = 0 := by
      simp [grants_succ, granted_zero]
    rw [refilled_eq _ (by simpa using hNow), le_min_iff, and_comm]
    simp [hNone, bucket, create]
  | succ k ih =>
    -- Full at call `k + 1` is the new instant; every earlier one only gets older.
    have hStep := hTimes (Nat.le_succ k)
    have hSplit (i : Nat) := secondsBetween_add (times i) (times (k + 1)) now
    rw [refilled_eq _ (by simpa using hNow), le_min_iff, and_comm, bucket_succ_tokens]
    simp only [bucket_refillRate, bucket_burst, bucket_updated]
    set taken : ℚ := if granted rate burst times (k + 1) then 1 else 0 with hTaken
    set income := rate * secondsBetween (times (k + 1)) now with hIncome
    have hGrants (i : Nat) (hi : i ≤ k + 1) :
        (grants rate burst times i (k + 2) : ℚ) = grants rate burst times i (k + 1) + taken := by
      rw [grants_succ hi, hTaken]
      push_cast
      rfl
    refine and_congr_right fun _ => ?_
    rw [show x ≤ (bucket rate burst times k).refilled (times (k + 1)) - taken + income ↔
        x + taken - income ≤ (bucket rate burst times k).refilled (times (k + 1)) by
      constructor <;> intro h <;> linarith]
    rw [ih hStep]
    constructor
    · rintro ⟨hFull, hPast⟩ i hi
      rw [hGrants i hi]
      rcases hi.lt_or_eq with hEarlier | rfl
      · have hOld := hPast i (Nat.lt_succ_iff.mp hEarlier)
        rw [← hSplit i, mul_add]
        linarith
      · rw [grants_self, Nat.cast_zero]
        linarith
    · intro hAll
      constructor
      · have hNew := hAll (k + 1) le_rfl
        rw [hGrants (k + 1) le_rfl, grants_self, Nat.cast_zero] at hNew
        linarith
      · intro i hi
        have hOld := hAll i (hi.trans (Nat.le_succ k))
        rw [hGrants i (hi.trans (Nat.le_succ k)), ← hSplit i, mul_add] at hOld
        linarith

/-- A call is granted when the bound on every interval that ends with it has room for it. -/
theorem granted_iff (hTimes : Monotone times) {k : Nat} (hCall : 1 ≤ k) :
    granted rate burst times k = true ↔
      ∀ i ≤ k, (grants rate burst times i k : ℚ) + 1 ≤
        (max burst 1 : Nat) + rate * secondsBetween (times i) (times k) := by
  obtain ⟨k, rfl⟩ : ∃ j, k = j + 1 := ⟨k - 1, by omega⟩
  rw [granted_succ, le_refilled_iff hTimes k (hTimes (Nat.le_succ k))]
  constructor
  · rintro ⟨-, hPast⟩ i hi
    rcases hi.lt_or_eq with hEarlier | rfl
    · have hOld := hPast i (Nat.lt_succ_iff.mp hEarlier)
      linarith
    · simp
  · intro hAll
    constructor
    · simp
    · intro i hi
      have hOld := hAll i (hi.trans (Nat.le_succ k))
      linarith

/-- The grants of an interval are those from its first on, before its last, and the last. -/
theorem grantsWithin_le (hRate : 0 ≤ rate) (hTimes : Monotone times) (n : Nat) {start finish : Nat}
    (hInterval : start ≤ finish) :
    (grantsWithin rate burst times n start finish : ℚ) ≤
      (max burst 1 : Nat) + rate * secondsBetween start finish := by
  unfold grantsWithin
  set inside := (Finset.Icc 1 n).filter fun j =>
    granted rate burst times j ∧ start ≤ times j ∧ times j ≤ finish with hInside
  rcases inside.eq_empty_or_nonempty with hEmpty | hSome
  · have hIncome := mul_nonneg hRate (secondsBetween_nonneg hInterval)
    rw [hEmpty]
    simp only [Finset.card_empty, Nat.cast_zero]
    positivity
  · have hFirst := Finset.mem_filter.mp (inside.min'_mem hSome)
    have hLast := Finset.mem_filter.mp (inside.max'_mem hSome)
    set first := inside.min' hSome
    set last := inside.max' hSome
    have hOrder : first ≤ last := inside.min'_le_max' hSome
    have hCover : inside ⊆
        insert last ((Finset.Ico first last).filter fun j => granted rate burst times j) := by
      intro j hMem
      have hGranted := (Finset.mem_filter.mp hMem).2.1
      have hAfter : first ≤ j := inside.min'_le j hMem
      rcases (inside.le_max' j hMem).eq_or_lt with hSame | hBefore
      · exact Finset.mem_insert.mpr (Or.inl hSame)
      · exact Finset.mem_insert_of_mem
          (Finset.mem_filter.mpr ⟨Finset.mem_Ico.mpr ⟨hAfter, hBefore⟩, hGranted⟩)
    have hCount : inside.card ≤ grants rate burst times first last + 1 :=
      (Finset.card_le_card hCover).trans (Finset.card_insert_le _ _)
    have hBound := (granted_iff hTimes (Finset.mem_Icc.mp hLast.1).1).mp hLast.2.1 first hOrder
    have hWithin : secondsBetween (times first) (times last) ≤ secondsBetween start finish :=
      secondsBetween_mono hFirst.2.2.1 hLast.2.2.2
    have hIncome := mul_le_mul_of_nonneg_left hWithin hRate
    have hCount' : (inside.card : ℚ) ≤ grants rate burst times first last + 1 := by
      exact_mod_cast hCount
    linarith

/-! ## A denied call -/

theorem bucket_without_before {k j : Nat} (h : j < k) :
    bucket rate burst (without times k) j = bucket rate burst times j := by
  induction j with
  | zero => simp [bucket, without, h]
  | succ j ih => simp only [bucket, ih (by omega), without, h, if_true]

theorem granted_without_before {k j : Nat} (h : j < k) :
    granted rate burst (without times k) j = granted rate burst times j := by
  cases j with
  | zero => rfl
  | succ j => simp only [granted, bucket_without_before (show j < k by omega), without, h, if_true]

/-- Past the call that is left out, a call finds what it finds in the run with it. -/
theorem tryAcquire_without (hRate : 0 ≤ rate) (hTimes : Monotone times) {k : Nat}
    (hDenied : granted rate burst times (k + 1) = false) (d : Nat) :
    (bucket rate burst (without times (k + 1)) (k + d)).tryAcquire (times (k + d + 2)) =
      (bucket rate burst times (k + d + 1)).tryAcquire (times (k + d + 2)) := by
  induction d with
  | zero =>
    rw [bucket_without_before (by omega)]
    refine (tryAcquire_denied ?_ ?_ (hTimes (by omega)) hDenied).symm
    · simpa using hRate
    · simpa using hTimes (Nat.le_succ k)
  | succ d ih =>
    have hTime : without times (k + 1) (k + d + 1) = times (k + d + 2) := by
      rw [without, if_neg (by omega)]
    have hSame : bucket rate burst (without times (k + 1)) (k + d + 1) =
        bucket rate burst times (k + d + 2) := by
      simp only [bucket, hTime, ih]
    rw [← Nat.add_assoc, hSame]

/-- A denied call takes nothing from any other: they are all answered alike without it. -/
theorem granted_without (hRate : 0 ≤ rate) (hTimes : Monotone times) {k : Nat} (hCall : 1 ≤ k)
    (hDenied : granted rate burst times k = false) (j : Nat) :
    granted rate burst (without times k) j =
      if j < k then granted rate burst times j else granted rate burst times (j + 1) := by
  split
  next hBefore => exact granted_without_before hBefore
  next hAfter =>
    obtain ⟨k, rfl⟩ : ∃ i, k = i + 1 := ⟨k - 1, by omega⟩
    obtain ⟨d, rfl⟩ : ∃ d, j = k + d + 1 := ⟨j - k - 1, by omega⟩
    have hTime : without times (k + 1) (k + d + 1) = times (k + d + 2) := by
      rw [without, if_neg (by omega)]
    simp only [granted, hTime, tryAcquire_without hRate hTimes hDenied d]

/-- What a bucket grants, exactly. A call is granted just when, for every earlier call and for the
start, the grants since then and one more are within the burst and the income since then. So no
interval holds more grants than that, however long the bucket was idle before it; and a denied
call takes nothing from the others. -/
theorem grants_exactly (hRate : 0 ≤ rate) (hTimes : Monotone times) :
    (∀ k, 1 ≤ k →
      (granted rate burst times k = true ↔
        ∀ i ≤ k, (grants rate burst times (max i 1) k : ℚ) + 1 ≤
          (max burst 1 : Nat) + rate * secondsBetween (times i) (times k))) ∧
    (∀ n start finish, start ≤ finish →
      (grantsWithin rate burst times n start finish : ℚ) ≤
        (max burst 1 : Nat) + rate * secondsBetween start finish) ∧
    ∀ k, 1 ≤ k → granted rate burst times k = false →
      ∀ j, granted rate burst (without times k) j =
        if j < k then granted rate burst times j else granted rate burst times (j + 1) := by
  refine ⟨fun k hCall => ?_, fun n start finish => grantsWithin_le hRate hTimes n,
    fun k hCall hDenied => granted_without hRate hTimes hCall hDenied⟩
  simp only [grants_max_one]
  exact granted_iff hTimes hCall

/-- Ten tokens a second and a burst of two: two grants and a denial at once, and after a tenth of
a second one grant and a denial. -/
theorem grants_exactly_refilling :
    granted 10 2 (fun k => if k ≤ 3 then 0 else 100000000) 4 = true ∧
    granted 10 2 (fun k => if k ≤ 3 then 0 else 100000000) 5 = false ∧
    (grantsWithin 10 2 (fun k => if k ≤ 3 then 0 else 100000000) 5 0 100000000 : ℚ) ≤
      (max 2 1 : Nat) + 10 * secondsBetween 0 100000000 ∧
    granted 10 2 (without (fun k => if k ≤ 3 then 0 else 100000000) 3) 3 = true := by
  have hTimes : Monotone fun k => if k ≤ 3 then 0 else 100000000 := by
    intro i j hOrder
    show (if i ≤ 3 then 0 else 100000000) ≤ if j ≤ 3 then 0 else 100000000
    split <;> split <;> omega
  obtain ⟨hCalls, hIntervals, hDenials⟩ :=
    @grants_exactly 10 2 _ (by norm_num) hTimes
  refine ⟨(hCalls 4 (by decide)).mpr (by decide +kernel), ?_,
    hIntervals 5 0 100000000 (by decide), ?_⟩
  · rw [Bool.eq_false_iff, Ne, hCalls 5 (by decide)]
    decide +kernel
  · rw [hDenials 3 (by decide) (by decide +kernel)]
    decide +kernel

end

end Gatehouse.RateLimiter
