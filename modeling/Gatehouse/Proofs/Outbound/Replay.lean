import Gatehouse.Proofs.Outbound.Reference

/-!
# What a round trip carries

The round trips of a send are the successive attempts of its request: the body as it was given goes
with the first one, and each later one has the body that is known to be empty, or one that was made
anew for it. So no round trip carries anything but the original body and what the request itself
provides in its place. A request that provides nothing is sent once.

* `RetryPolicy.Successive`: the round trips of a send are the attempts of its request.
* `Payload.Faithful`: whatever is made in the place of the body is the body again.
* `result_of_not_replayable`: what comes of a request that cannot be sent again.
* `round_trips_carry_request`: for all requests and scripts.
-/

namespace Gatehouse.Outbound

namespace Payload

/-- Whoever makes the body anew makes the same body. -/
def Faithful (p : Payload) : Prop := ∀ make ∈ p.regenerate, ∀ n, make n = p.content

theorem faithful_replayable (content : String) : (replayable content).Faithful := by
  intro make hMake n
  cases hMake
  rfl

variable {p : Payload} {n : Nat} {body : String}

/-- The body of an attempt is the original one, or it was made for that attempt. -/
theorem forAttempt?_eq_some (h : p.forAttempt? n = some body) :
    body = p.content ∨ ∃ make ∈ p.regenerate, body = make n := by
  cases n with
  | zero => exact .inl (Option.some.inj h).symm
  | succ n =>
    simp only [forAttempt?] at h
    split at h
    · next hEmpty =>
      rw [p.eq_empty hEmpty]
      exact .inl (Option.some.inj h).symm
    · obtain ⟨make, hMake, rfl⟩ := Option.map_eq_some_iff.mp h
      exact .inr ⟨make, hMake, rfl⟩

theorem forAttempt?_of_knownEmpty (hEmpty : p.knownEmpty = true)
    (h : p.forAttempt? n = some body) : body = p.content := by
  cases n with
  | zero => exact (Option.some.inj h).symm
  | succ n =>
    simp only [forAttempt?, hEmpty, if_true] at h
    rw [p.eq_empty hEmpty]
    exact (Option.some.inj h).symm

end Payload

/-! ## The attempts of a send -/

namespace Sending

theorem attempts_preceded (at_ : Nat) (what : List Happening) (s : Sending) :
    (s.preceded at_ what).attempts =
      (what.filterMap Happening.deed?).filterMap Deed.attempt? ++ s.attempts := by
  rw [← attempts_account, ← attempts_account, account_preceded, Account.attempts,
    Account.preceded, List.filterMap_append]
  rfl

end Sending

namespace RetryPolicy

variable {r : Request} {n : Nat} {a : Attempt}

/-- Round trips that begin with attempt `n` and leave none out. -/
def Successive (r : Request) (n : Nat) (attempts : List Attempt) : Prop :=
  ∀ i a, attempts[i]? = some a → r.attempt? (n + i) = some a

theorem successive_nil (r : Request) (n : Nat) : Successive r n [] := by
  intro i a h
  cases h

theorem Successive.cons {attempts : List Attempt} (hFirst : r.attempt? n = some a)
    (h : Successive r (n + 1) attempts) : Successive r n (a :: attempts) := by
  intro i b hAt
  cases i with
  | zero =>
    cases hAt
    exact hFirst
  | succ i =>
    have hLater := h i b hAt
    rwa [Nat.add_right_comm, Nat.add_assoc] at hLater

theorem successive_finalAttempt (r : Request) (n now : Nat) (script : List RoundTrip) :
    Successive r n (finalAttempt r n now script).attempts := by
  unfold finalAttempt
  cases hAttempt : r.attempt? n with
  | none => exact successive_nil r n
  | some a =>
    rw [Sending.attempts_preceded]
    exact .cons hAttempt (successive_nil r _)

theorem successive_sendFrom (policy : RetryPolicy) (r : Request) (n retries now : Nat)
    (script : List RoundTrip) :
    Successive r n (policy.sendFrom r n retries now script).attempts := by
  induction script generalizing n retries now with
  | nil => exact successive_finalAttempt r n now []
  | cons trip rest ih =>
    rw [sendFrom]
    cases hAttempt : r.attempt? n with
    | none => exact successive_nil r n
    | some a =>
      simp only [Sending.attempts_preceded]
      refine .cons hAttempt ?_
      split
      · exact successive_nil r _
      · split
        · rw [Sending.attempts_preceded]
          exact ih _ _ _
        · split
          · rw [Sending.attempts_preceded]
            exact ih _ _ _
          · rw [Sending.attempts_preceded]
            exact successive_finalAttempt r _ _ _
        · exact successive_nil r _

/-! ## Requests that cannot be sent again -/

theorem attempt?_succ_of_not_replayable (h : ¬ r.Replayable) (n : Nat) :
    r.attempt? (n + 1) = none := by
  obtain ⟨hNotEmpty, hNone⟩ := not_or.mp h
  simp only [Request.attempt?, Payload.forAttempt?, Option.map_eq_none_iff]
  rw [if_neg hNotEmpty]
  simpa using hNone

/-- A later attempt is not made. -/
theorem sendFrom_of_not_replayable (h : ¬ r.Replayable) (policy : RetryPolicy)
    (n retries now : Nat) (script : List RoundTrip) :
    policy.sendFrom r (n + 1) retries now script =
      ⟨[], now, .error .bodyNotReplayable, script⟩ := by
  cases script with
  | nil => simp only [sendFrom, finalAttempt, attempt?_succ_of_not_replayable h]
  | cons trip rest => simp only [sendFrom, attempt?_succ_of_not_replayable h]

theorem finalAttempt_of_not_replayable (h : ¬ r.Replayable) (n now : Nat)
    (script : List RoundTrip) :
    finalAttempt r (n + 1) now script = ⟨[], now, .error .bodyNotReplayable, script⟩ := by
  simp only [finalAttempt, attempt?_succ_of_not_replayable h]

/-- The original is sent once, and an answer that asks for another round trip is not given to the
caller. -/
theorem result_of_not_replayable (h : ¬ r.Replayable) (policy : RetryPolicy) (now : Nat)
    (script : List RoundTrip) :
    (policy.send r now script).attempts = [⟨r.head, r.payload.content⟩] ∧
    (policy.send r now script).result =
      if (tripAt script 0).reason?.isSome then .error .bodyNotReplayable
      else (tripAt script 0).result.mapError .request := by
  have hFirst : r.attempt? 0 = some ⟨r.head, r.payload.content⟩ := rfl
  cases script with
  | nil => exact ⟨rfl, rfl⟩
  | cons trip rest =>
    simp only [send, sendFrom, hFirst, Sending.attempts_preceded, tripAt_cons_zero]
    cases hResult : trip.result with
    | ok response =>
      have hReason : trip.reason? = none := by
        simp only [RoundTrip.reason?, RoundTrip.failure?, hResult]
      simp only [hReason]
      exact ⟨rfl, rfl⟩
    | error e =>
      cases hClass : e.classify with
      | expired =>
        have hReason : trip.reason? = some .expired := by
          simp only [RoundTrip.reason?, RoundTrip.failure?, hResult, hClass]
        simp only [hClass, hReason, sendFrom_of_not_replayable h]
        exact ⟨rfl, rfl⟩
      | transient reason =>
        have hReason : trip.reason? = some (.transient reason) := by
          simp only [RoundTrip.reason?, RoundTrip.failure?, hResult, hClass]
        simp only [hClass, hReason, sendFrom_of_not_replayable h, finalAttempt_of_not_replayable h]
        split <;> exact ⟨rfl, rfl⟩
      | permanent =>
        have hReason : trip.reason? = none := by
          simp only [RoundTrip.reason?, RoundTrip.failure?, hResult, hClass]
        simp only [hClass, hReason]
        exact ⟨rfl, rfl⟩

theorem mapError_ne_bodyNotReplayable (result : Except TransportError Http.Response) :
    result.mapError SendError.request ≠ .error .bodyNotReplayable := by
  cases result <;> simp [Except.mapError]

theorem isSome_reason?_iff (trip : RoundTrip) :
    trip.reason?.isSome = true ↔ trip.isExpired = true ∨ trip.isTransient = true := by
  unfold RoundTrip.reason? RoundTrip.isExpired RoundTrip.isTransient
  split <;> simp_all

end RetryPolicy

open RetryPolicy

/-- The round trips of a send are the successive attempts of its request, with the head of the
request each. The first carries the body as it was given. Every other one carries that body again,
or what the request has made for this attempt; the latter is the body again if that is what the
request makes, and a body that is known to be empty or is kept in memory never becomes another one.
A request that cannot be sent again makes one round trip, and its caller is told so exactly if that
round trip met an expired connection or failed in a way that may pass. -/
theorem round_trips_carry_request (policy : RetryPolicy) (r : Request) (now : Nat)
    (script : List RoundTrip) :
    let s := policy.send r now script
    (∀ i a, s.attempts[i]? = some a → a.head = r.head ∧
      (i = 0 → a.body = r.payload.content) ∧
      (a.body = r.payload.content ∨ ∃ make ∈ r.payload.regenerate, a.body = make i)) ∧
    (r.payload.knownEmpty = true ∨ (∃ content, r.payload = .replayable content) ∨
      r.payload.Faithful → ∀ a ∈ s.attempts, a = ⟨r.head, r.payload.content⟩) ∧
    (¬ r.Replayable → s.attempts = [⟨r.head, r.payload.content⟩] ∧
      (s.result = .error .bodyNotReplayable ↔
        (tripAt script 0).isExpired = true ∨ (tripAt script 0).isTransient = true)) := by
  intro s
  have hSuccessive : Successive r 0 s.attempts := successive_sendFrom policy r 0 0 now script
  have hMade : ∀ i a, s.attempts[i]? = some a →
      ∃ body, r.payload.forAttempt? i = some body ∧ a = ⟨r.head, body⟩ := by
    intro i a hAt
    have hAttempt := hSuccessive i a hAt
    rw [Nat.zero_add] at hAttempt
    obtain ⟨body, hBody, hEq⟩ := Option.map_eq_some_iff.mp hAttempt
    exact ⟨body, hBody, hEq.symm⟩
  refine ⟨fun i a hAt => ?_, fun hKept a hMem => ?_, fun hNot => ?_⟩
  · obtain ⟨body, hBody, rfl⟩ := hMade i a hAt
    refine ⟨rfl, ?_, Payload.forAttempt?_eq_some hBody⟩
    rintro rfl
    exact (Option.some.inj hBody).symm
  · obtain ⟨i, hAt⟩ := List.mem_iff_getElem?.mp hMem
    obtain ⟨body, hBody, rfl⟩ := hMade i a hAt
    suffices hSame : body = r.payload.content by rw [hSame]
    rcases hKept with hEmpty | hFaithful
    · exact Payload.forAttempt?_of_knownEmpty hEmpty hBody
    · have hMakes : r.payload.Faithful := by
        rcases hFaithful with ⟨content, hPayload⟩ | hFaithful
        · rw [hPayload]
          exact Payload.faithful_replayable content
        · exact hFaithful
      rcases Payload.forAttempt?_eq_some hBody with hOriginal | ⟨make, hMake, rfl⟩
      · exact hOriginal
      · exact hMakes make hMake i
  · obtain ⟨hOnce, hResult⟩ := result_of_not_replayable hNot policy now script
    refine ⟨hOnce, ?_⟩
    rw [show s.result = _ from hResult, ← isSome_reason?_iff]
    split
    · next hReason => simp [hReason]
    · next hReason => simp [hReason, mapError_ne_bodyNotReplayable]

end Gatehouse.Outbound
