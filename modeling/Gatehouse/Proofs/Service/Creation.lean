import Gatehouse.Proofs.Breaker.Readmission
import Gatehouse.Proofs.Bulkhead.Moves
import Gatehouse.Proofs.TokenBucket.Rounding
import Gatehouse.Service.Basic

/-!
# What an accepted configuration is good for

Validation looks at the values of a configuration one by one; a service is made of what they
describe. The one value that is accepted and cannot be made is a bulkhead of more slots than can
be managed. Where the service is made, each of its gates lets calls through again and again, so
that none of them can shut it for good.

* `positive_of_valid`: the values that validation wants to be positive.
* `Bulkhead.Contention.held_of_available`: a free slot is there for who comes.
* `usable_of_valid`: which accepted configurations make a service, and what its gates grant.
-/

namespace Gatehouse

namespace Bulkhead.Contention

/-- Who comes while a slot is free holds it as soon as it is looked at, whatever the scope and the
others do. -/
theorem held_of_available {c : Contention} (hFree : 0 < c.bulkhead.available) (id : String)
    (scope : Option Scope) :
    ∃ a, ((c.move (.acquire id scope)).move (.visit c.attempts.length)).attempts =
      c.attempts ++ [a] ∧ a.id = id ∧ a.status = .held c.now := by
  have hEnter := enter_of_available hFree
  have hNew : (c.move (.acquire id scope)).attempts[c.attempts.length]? =
      some ⟨id, c.bulkhead.issued, c.now + c.bulkhead.acquireTimeout, scope, .waiting⟩ := by
    simp [move, hEnter]
  refine ⟨⟨id, c.bulkhead.issued, c.now + c.bulkhead.acquireTimeout, scope, .held c.now⟩, ?_, rfl,
    rfl⟩
  show ((c.move (.acquire id scope)).onAttempt c.attempts.length _).attempts = _
  rw [onAttempt_eq hNew]
  simp [move, hEnter, visit, poll, look, take?]

end Bulkhead.Contention

namespace Config

theorem eq_nil_of_valid {c : Config} (h : c.validate = .ok ()) : c.problems = [] := by
  unfold validate at h
  split at h
  next hNone => exact hNone
  next => cases h

theorem pos_of_positiveProblems {field : String} {n : Nat} (h : positiveProblems field n = []) :
    0 < n := by
  unfold positiveProblems reportIf at h
  split at h
  · cases h
  next hNot => simpa [Nat.pos_iff_ne_zero] using hNot

/-- The gates that are enabled were looked at. -/
theorem positive_of_valid {c : Config} (h : c.validate = .ok ()) :
    (c.admission.bulkhead.enabled = true → 0 < c.admission.bulkhead.maxConcurrent.toNat) ∧
      (c.admission.circuitBreaker.enabled = true →
        0 < c.admission.circuitBreaker.halfOpenMaxCalls.toNat) := by
  have hNone := eq_nil_of_valid h
  simp only [problems, List.append_eq_nil_iff] at hNone
  obtain ⟨⟨⟨⟨⟨-, -⟩, hBulkhead⟩, hBreaker⟩, -⟩, -⟩ := hNone
  constructor
  · intro hEnabled
    rw [BulkheadSection.problems, if_pos hEnabled] at hBulkhead
    exact pos_of_positiveProblems hBulkhead
  · intro hEnabled
    rw [CircuitBreakerSection.problems, if_pos hEnabled] at hBreaker
    simp only [List.append_eq_nil_iff] at hBreaker
    exact pos_of_positiveProblems hBreaker.2.2

end Config

namespace Pipeline.Gates

/-- Whether there can be a bulkhead as large as a configuration wants it, if it wants one. -/
def Manageable (c : Config.Admission) : Prop :=
  c.bulkhead.enabled = true → c.bulkhead.maxConcurrent.toNat ≤ Bulkhead.maxCapacity

/-- One fresh gate for each section that is enabled. -/
def fresh (c : Config.Admission) (now : Nat) : Gates where
  limiter := if c.rateLimit.enabled then some (.ofConfig c.rateLimit now) else .none
  breaker :=
    if c.circuitBreaker.enabled then
      some (.create c.circuitBreaker.name (.ofConfig c.circuitBreaker) now)
    else .none
  bulkhead :=
    if c.bulkhead.enabled then
      some ⟨c.bulkhead.maxConcurrent.toNat, Duration.ofMillis c.bulkhead.acquireTimeoutMs.toNat,
        c.bulkhead.maxConcurrent.toNat, 0, [], [], 0⟩
    else .none

theorem ofConfig?_of_manageable {c : Config.Admission} (h : Manageable c) (now : Nat) :
    ofConfig? c now = some (fresh c now) := by
  unfold ofConfig? fresh
  by_cases hEnabled : c.bulkhead.enabled = true
  · have hFits := h hEnabled
    simp [hEnabled, Bulkhead.ofConfig?, Bulkhead.create?, hFits]
  · simp [hEnabled]

theorem ofConfig?_of_not_manageable {c : Config.Admission} (h : ¬ Manageable c) (now : Nat) :
    ofConfig? c now = .none := by
  obtain ⟨hEnabled, hLarge⟩ := Classical.not_imp.mp h
  simp [ofConfig?, hEnabled, Bulkhead.ofConfig?, Bulkhead.create?, hLarge]

/-- A gate is there if its section is enabled. -/
theorem isSome_fresh {α : Type} {enabled : Bool} (gate : α) :
    (if enabled = true then some gate else .none).isSome = enabled := by
  cases enabled <;> rfl

theorem eq_of_mem {α : Type} {enabled : Bool} {gate x : α}
    (h : x ∈ (if enabled = true then some gate else .none)) : enabled = true ∧ gate = x := by
  cases enabled with
  | false => cases h
  | true => exact ⟨rfl, Option.some.inj h⟩

theorem limiter_usable (c : Config.Admission) (made : Nat) :
    ∀ limiter ∈ (fresh c made).limiter, ∀ now, (limiter.tryAcquire now).1 = true := by
  intro limiter hLimiter now
  obtain ⟨-, rfl⟩ := eq_of_mem hLimiter
  exact RateLimiter.first_granted (Binary64.notNegative_ofNat _) _ made now

theorem bulkhead_usable {c : Config.Admission} {made : Nat}
    (hSlots : c.bulkhead.enabled = true → 0 < c.bulkhead.maxConcurrent.toNat) :
    ∀ bulkhead ∈ (fresh c made).bulkhead, 0 < bulkhead.available := by
  intro bulkhead hBulkhead
  obtain ⟨hEnabled, rfl⟩ := eq_of_mem hBulkhead
  exact hSlots hEnabled

theorem breaker_usable {c : Config.Admission} {made : Nat}
    (hTrials : c.circuitBreaker.enabled = true →
      0 < c.circuitBreaker.halfOpenMaxCalls.toNat) :
    ∀ breaker ∈ (fresh c made).breaker, ∀ uses,
      (∀ call ∈ ((Breaker.Calls.start breaker).run uses).calls, call = .none) →
      ∃ ready, ∀ now, ready ≤ now → ∃ call,
        ({ (Breaker.Calls.start breaker).run uses with now := now }.acquire).1 = .ok call := by
  intro breaker hBreaker uses hEnded
  obtain ⟨hEnabled, rfl⟩ := eq_of_mem hBreaker
  exact Breaker.Calls.admits_again (Breaker.Calls.sound_run (Breaker.Calls.sound_start _ _ _) uses)
    (hTrials hEnabled) hEnded

end Pipeline.Gates

namespace Service

open Bulkhead Breaker
open Pipeline.Gates (Manageable fresh)

variable {c : Config} {uptime : Nat}

theorem create_of_manageable (hValid : c.validate = .ok ()) (h : Manageable c.admission) :
    ∃ s, create c uptime = .ok s ∧ s.gates = fresh c.admission 0 := by
  unfold create
  rw [hValid, Pipeline.Gates.ofConfig?_of_manageable h 0]
  exact ⟨_, rfl, rfl⟩

theorem create_of_not_manageable (hValid : c.validate = .ok ())
    (h : ¬ Manageable c.admission) : create c uptime = .error .unmanageable := by
  unfold create
  rw [hValid, Pipeline.Gates.ofConfig?_of_not_manageable h 0]

theorem manageable_of_create {s : Service} (hValid : c.validate = .ok ())
    (hCreate : create c uptime = .ok s) : Manageable c.admission := by
  by_contra h
  rw [create_of_not_manageable hValid h] at hCreate
  cases hCreate

/-- An accepted configuration makes a service at any time, unless its bulkhead is enabled with more
slots than can be managed. The service has a gate for each section that is enabled, and each can be
used: the limiter grants its first request, whenever it comes; the bulkhead begins with a free slot,
and as long as it has one, it is there at once for who comes; and whatever has become of the
breaker, once all its calls have ended it lets one in from some instant on. -/
theorem usable_of_valid {c : Config} (hValid : c.validate = .ok ()) (uptime : Nat) :
    (Manageable c.admission ∨ create c uptime = .error .unmanageable) ∧
    (Manageable c.admission ↔ ∃ s, create c uptime = .ok s) ∧
    ∀ s, create c uptime = .ok s →
      (s.gates.limiter.isSome = c.admission.rateLimit.enabled ∧
        ∀ limiter ∈ s.gates.limiter, ∀ now, (limiter.tryAcquire now).1 = true) ∧
      (s.gates.bulkhead.isSome = c.admission.bulkhead.enabled ∧
        ∀ bulkhead ∈ s.gates.bulkhead, 0 < bulkhead.available ∧
          ∀ contention, Contention.Reachable bulkhead contention →
            0 < contention.bulkhead.available → ∀ id scope, ∃ a,
              ((contention.move (.acquire id scope)).move
                (.visit contention.attempts.length)).attempts = contention.attempts ++ [a] ∧
              a.id = id ∧ a.status = .held contention.now) ∧
      (s.gates.breaker.isSome = c.admission.circuitBreaker.enabled ∧
        ∀ breaker ∈ s.gates.breaker, ∀ uses,
          (∀ call ∈ ((Calls.start breaker).run uses).calls, call = none) →
          ∃ ready, ∀ now, ready ≤ now → ∃ call,
            ({ (Calls.start breaker).run uses with now := now }.acquire).1 = .ok call) := by
  obtain ⟨hSlots, hTrials⟩ := Config.positive_of_valid hValid
  refine ⟨?_, ⟨?_, ?_⟩, ?_⟩
  · by_cases h : Manageable c.admission
    · exact .inl h
    · exact .inr (create_of_not_manageable hValid h)
  · intro h
    obtain ⟨s, hCreate, -⟩ := create_of_manageable hValid h
    exact ⟨s, hCreate⟩
  · rintro ⟨s, hCreate⟩
    exact manageable_of_create hValid hCreate
  · intro s hCreate
    obtain ⟨s', hCreate', hGates⟩ :=
      create_of_manageable hValid (manageable_of_create hValid hCreate)
    obtain rfl : s' = s := Except.ok.inj (hCreate'.symm.trans hCreate)
    rw [hGates]
    exact ⟨⟨Pipeline.Gates.isSome_fresh _, Pipeline.Gates.limiter_usable c.admission 0⟩,
      ⟨Pipeline.Gates.isSome_fresh _, fun bulkhead hBulkhead =>
        ⟨Pipeline.Gates.bulkhead_usable hSlots bulkhead hBulkhead,
          fun contention _ hFree => Contention.held_of_available hFree⟩⟩,
      ⟨Pipeline.Gates.isSome_fresh _, Pipeline.Gates.breaker_usable hTrials⟩⟩

/-- All three gates. -/
def guarded : Config :=
  { admission :=
    { rateLimit := { enabled := true, requestsPerSecond := 1, burstSize := 1 }
      bulkhead := { enabled := true, maxConcurrent := 1 }
      circuitBreaker := { enabled := true, failureThreshold := 1 } } }

/-- One token, one slot and one trial. The breaker is opened by a call that panics, and its only
trial is dropped. -/
theorem usable_of_valid_guarded :
    guarded.validate = .ok () ∧ ∃ s, create guarded 0 = .ok s ∧
      (∃ limiter ∈ s.gates.limiter, (limiter.tryAcquire 0).1 = true) ∧
      (∃ bulkhead ∈ s.gates.bulkhead, 0 < bulkhead.available) ∧
      ∃ breaker ∈ s.gates.breaker, ∃ ready, ∀ now, ready ≤ now → ∃ call,
        ({ (Calls.start breaker).run [(0, .acquire), (0, .finish 0 .panicked),
          (Duration.ofSeconds 30, .acquire), (Duration.ofSeconds 30, .finish 1 .dropped)]
          with now := now }.acquire).1 = .ok call := by
  have hValid : guarded.validate = .ok () := by decide +kernel
  obtain ⟨-, -, hUsable⟩ := usable_of_valid hValid 0
  obtain ⟨s, hCreate, hGates⟩ :=
    create_of_manageable hValid (by intro _; decide +kernel)
  obtain ⟨⟨-, hFirst⟩, ⟨-, hSlot⟩, -, hAgain⟩ := hUsable s hCreate
  have hLimiter : .ofConfig guarded.admission.rateLimit 0 ∈ s.gates.limiter := by
    rw [hGates]
    rfl
  have hBulkhead : ⟨1, Duration.ofMillis 100, 1, 0, [], [], 0⟩ ∈ s.gates.bulkhead := by
    rw [hGates]
    rfl
  have hBreaker : .create "inbound" ⟨1, Duration.ofSeconds 30, 1, none⟩ 0 ∈ s.gates.breaker := by
    rw [hGates]
    rfl
  refine ⟨hValid, s, hCreate, ⟨_, hLimiter, hFirst _ hLimiter 0⟩,
    ⟨_, hBulkhead, (hSlot _ hBulkhead).1⟩, _, hBreaker, hAgain _ hBreaker _ ?_⟩
  decide +kernel

/-- One slot more than can be managed. -/
def oversized : Config :=
  { admission := { bulkhead := { enabled := true, maxConcurrent := 2305843009213693952 } } }

/-- Validation is not enough: a bulkhead that is too large is accepted, and no service is made. -/
theorem not_always_created :
    oversized.validate = .ok () ∧ create oversized 0 = .error .unmanageable := by
  have hValid : oversized.validate = .ok () := by decide +kernel
  refine ⟨hValid, create_of_not_manageable hValid fun h => ?_⟩
  exact absurd (h rfl) (by decide +kernel)

end Service

end Gatehouse
