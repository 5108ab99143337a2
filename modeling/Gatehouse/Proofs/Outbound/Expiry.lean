import Gatehouse.Proofs.Outbound.Reference

/-!
# What a caller sees of expired connections

An expired connection costs no retry, and the request is sent again. A script is therefore read as
if its expired results were not there, wherever they stand: the pool is closed as often, the budget
pays for as many retries, and the same result is returned. There is one round trip of which this is
not true. Nobody looks at the result of the last one, after a budget that is used up, so that an
expired connection is what the caller gets there.

* `live`: a script without its expired results; `read_live`: it is read alike.
* `RetryPolicy.missesOut`: the last round trip meets an expired connection.
* `expiry_hidden_iff`: exactly then the caller sees it.
-/

namespace Gatehouse.Outbound

/-- A script without its expired results. -/
def live (script : List RoundTrip) : List RoundTrip := script.filter fun t => !t.isExpired

namespace RetryPolicy

/-- The budget is used up, and the round trip after it meets an expired connection. -/
def missesOut (policy : RetryPolicy) (script : List RoundTrip) : Bool :=
  policy.exhausts script && (tripAt script (policy.decisive script + 1)).isExpired

variable {policy : RetryPolicy} {script rest : List RoundTrip} {trip : RoundTrip} {n : Nat}

theorem live_cons_expired (h : trip.isExpired = true) : live (trip :: rest) = live rest := by
  simp [live, h]

theorem live_cons_of_not_expired (h : trip.isExpired = false) :
    live (trip :: rest) = trip :: live rest := by
  simp [live, h]

theorem isExpired_tripAt_live (script : List RoundTrip) (n : Nat) :
    (tripAt (live script) n).isExpired = false := by
  unfold tripAt
  cases hTrip : (live script)[n]? with
  | none => rfl
  | some t =>
    have hMem := List.mem_of_getElem? hTrip
    simpa [live] using (List.mem_filter.mp hMem).2

theorem missesOut_live (policy : RetryPolicy) (script : List RoundTrip) :
    policy.missesOut (live script) = false := by
  simp [missesOut, isExpired_tripAt_live]

/-- An expired result never ends the reading. -/
theorem isExpired_of_ends (h : policy.ends script n = true) :
    (tripAt script n).isExpired = false := by
  unfold ends at h
  unfold RoundTrip.isExpired
  split at h <;> simp_all

theorem missesOut_cons (h : policy.ends (trip :: rest) 0 = false) :
    policy.missesOut (trip :: rest) = (policy.spend trip).missesOut rest := by
  rw [missesOut, missesOut, exhausts_cons h, decisive_cons h]
  rfl

theorem isTransient_of_isExpired (h : trip.isExpired = true) : trip.isTransient = false := by
  unfold RoundTrip.isExpired at h
  unfold RoundTrip.isTransient
  split at h <;> simp_all

theorem spend_of_isExpired (h : trip.isExpired = true) : policy.spend trip = policy := by
  simp [spend, isTransient_of_isExpired h]

/-- The first result of what is left, if it is not expired, was the first result. -/
theorem tripAt_live_zero (h : (tripAt rest 0).isExpired = false) :
    tripAt (live rest) 0 = tripAt rest 0 := by
  cases rest with
  | nil => rfl
  | cons trip rest =>
    have hFirst : trip.isExpired = false := h
    rw [live_cons_of_not_expired hFirst, tripAt_cons_zero, tripAt_cons_zero]

/-- Without its expired results a script is read alike: the same retries are paid for, the same
result decides, and the same one is last, unless that was expired. -/
theorem read_live (policy : RetryPolicy) (script : List RoundTrip) :
    transients (live script) (policy.decisive (live script)) =
        transients script (policy.decisive script) ∧
      tripAt (live script) (policy.decisive (live script)) =
        tripAt script (policy.decisive script) ∧
      (policy.exhausts script = true → policy.missesOut script = false →
        tripAt (live script) (policy.decisive (live script) + 1) =
          tripAt script (policy.decisive script + 1)) := by
  induction script generalizing policy with
  | nil => exact ⟨rfl, rfl, fun _ _ => rfl⟩
  | cons trip rest ih =>
    cases hExpired : trip.isExpired with
    | true =>
      have hGoes : policy.ends (trip :: rest) 0 = false := by
        cases hEnds : policy.ends (trip :: rest) 0 with
        | false => rfl
        | true =>
          have hLive : trip.isExpired = false := isExpired_of_ends hEnds
          rw [hExpired] at hLive
          cases hLive
      obtain ⟨hSpent, hDecides, hLast⟩ := ih policy
      rw [live_cons_expired hExpired, exhausts_cons hGoes, missesOut_cons hGoes,
        decisive_cons hGoes, transients_cons_succ, spend_of_isExpired hExpired,
        isTransient_of_isExpired hExpired]
      exact ⟨hSpent, hDecides, hLast⟩
    | false =>
      rw [live_cons_of_not_expired hExpired]
      cases hFirst : policy.ends (trip :: rest) 0 with
      | true =>
        have hFirst' : policy.ends (trip :: live rest) 0 = true := hFirst
        rw [missesOut, exhausts, decisive_of_ends hFirst, decisive_of_ends hFirst']
        refine ⟨rfl, rfl, fun hExhausts hNot => ?_⟩
        rw [hExhausts, Bool.true_and] at hNot
        exact tripAt_live_zero hNot
      | false =>
        have hFirst' : policy.ends (trip :: live rest) 0 = false := hFirst
        obtain ⟨hSpent, hDecides, hLast⟩ := ih (policy.spend trip)
        rw [exhausts_cons hFirst, missesOut_cons hFirst, decisive_cons hFirst,
          decisive_cons hFirst', transients_cons_succ, transients_cons_succ, hSpent]
        exact ⟨rfl, hDecides, hLast⟩

theorem exhausts_live (policy : RetryPolicy) (script : List RoundTrip) :
    policy.exhausts (live script) = policy.exhausts script := by
  rw [exhausts, exhausts, (policy.read_live script).2.1]

/-! ## What the account tells -/

theorem countP_isSpent (a : Attempt) (t : RoundTrip) :
    (Deed.sent a :: (t.reason?.map Deed.retried).toList).countP Deed.isSpent =
      if t.isTransient then 1 else 0 := by
  unfold RoundTrip.reason? RoundTrip.isTransient
  split <;> simp_all [Deed.isSpent]

theorem spent_repeated (copy : Nat → Attempt) (script : List RoundTrip)
    (hBound : n ≤ script.length) :
    (repeated copy script n).countP Deed.isSpent = transients script n := by
  induction n with
  | zero => simp [repeated, transients]
  | succ n ih =>
    have hLast : repeated copy script (n + 1) = repeated copy script n ++
        .sent (copy n) :: ((tripAt script n).reason?.map Deed.retried).toList := by
      simp [repeated, List.range_succ]
    rw [hLast, List.countP_append, countP_isSpent, ih (by omega), transients_succ hBound]

theorem spent_reference (policy : RetryPolicy) (copy : Nat → Attempt) (script : List RoundTrip) :
    (policy.reference copy script).spent = transients script (policy.decisive script) := by
  have hBefore := spent_repeated copy script (policy.decisive_le_length script)
  simp only [reference]
  split
  · simp only [Account.spent, List.countP_append, hBefore]
    rfl
  · simp only [Account.spent, List.countP_append, hBefore]
    rfl

/-- The round trip whose result is returned. -/
def last (policy : RetryPolicy) (script : List RoundTrip) : RoundTrip :=
  tripAt script (policy.decisive script + if policy.exhausts script then 1 else 0)

theorem result_reference (policy : RetryPolicy) (copy : Nat → Attempt) (script : List RoundTrip) :
    (policy.reference copy script).result = (policy.last script).result.mapError .request := by
  simp only [reference, last]
  split <;> rfl

theorem isExpired_last (policy : RetryPolicy) (script : List RoundTrip) :
    (policy.last script).isExpired = policy.missesOut script := by
  unfold last missesOut
  cases hExhausts : policy.exhausts script with
  | true => rfl
  | false => exact isExpired_of_ends (policy.decisive_spec script).1

theorem last_live (h : policy.missesOut script = false) :
    policy.last (live script) = policy.last script := by
  obtain ⟨-, hDecides, hLast⟩ := policy.read_live script
  unfold last
  rw [exhausts_live]
  cases hExhausts : policy.exhausts script with
  | true => exact hLast hExhausts h
  | false => exact hDecides

/-- An expired connection is returned by an expired round trip only. -/
theorem exists_expired_iff (trip : RoundTrip) :
    (∃ e, (trip.result.mapError SendError.request : Except SendError Http.Response) =
        .error (.request e) ∧ e.classify = .expired) ↔ trip.isExpired = true := by
  cases hResult : trip.result with
  | ok response =>
    simp [Except.mapError, RoundTrip.isExpired, RoundTrip.failure?, hResult]
  | error e =>
    simp [Except.mapError, RoundTrip.isExpired, RoundTrip.failure?, hResult]
    cases e.classify <;> simp

end RetryPolicy

open RetryPolicy

/-- Without its expired results a script leads to as many closings of the pool and as many retries
of the budget. It leads to the same result exactly if the last round trip, after a budget that is
used up, does not meet an expired connection; and only then does the caller not see one. -/
theorem expiry_hidden_iff (policy : RetryPolicy) {r : Request} (hReplayable : r.Replayable)
    (now : Nat) (script : List RoundTrip) :
    let s := policy.send r now script
    let s' := policy.send r now (live script)
    s'.account.closings = s.account.closings ∧ s'.account.spent = s.account.spent ∧
    (s'.result = s.result ↔ policy.missesOut script = false) ∧
    ((∃ e, s.result = .error (.request e) ∧ e.classify = .expired) ↔
      policy.missesOut script = true) := by
  intro s s'
  have hAccount : s.account = policy.reference r.copy script := account_send hReplayable _ _ _
  have hAccount' : s'.account = policy.reference r.copy (live script) :=
    account_send hReplayable _ _ _
  have hResult : s.result = (policy.last script).result.mapError .request :=
    (congrArg Account.result hAccount).trans (result_reference _ _ _)
  have hResult' : s'.result = (policy.last (live script)).result.mapError .request :=
    (congrArg Account.result hAccount').trans (result_reference _ _ _)
  have hSeen : (∃ e, s.result = .error (.request e) ∧ e.classify = .expired) ↔
      policy.missesOut script = true := by
    rw [hResult, exists_expired_iff, isExpired_last]
  refine ⟨?_, ?_, ⟨fun hSame => ?_, fun hNot => ?_⟩, hSeen⟩
  · rw [hAccount, hAccount', closings_reference, closings_reference, exhausts_live]
  · rw [hAccount, hAccount', spent_reference, spent_reference, (policy.read_live script).1]
  · by_contra hMisses
    rw [Bool.not_eq_false, ← hSeen, ← hSame, hResult', exists_expired_iff, isExpired_last,
      missesOut_live] at hMisses
    cases hMisses
  · rw [hResult, hResult', last_live hNot]

/-- The first connection is reset, the second is expired, and the third takes the order. -/
def expiredAtLast : List RoundTrip :=
  [⟨.error (.io .connectionReset), 0⟩, ⟨.error (.expired ⟨61, 60⟩), 0⟩,
    ⟨.ok ⟨201, [], .text ""⟩, 0⟩]

/-- With one retry the expired connection is passed over; with none it is what the caller gets. -/
theorem expiry_hidden_iff_last_attempt :
    order.Replayable ∧
    ((RetryPolicy.mk 1).send order 0 (live expiredAtLast)).result =
      ((RetryPolicy.mk 1).send order 0 expiredAtLast).result ∧
    ((RetryPolicy.mk 0).send order 0 (live expiredAtLast)).result ≠
      ((RetryPolicy.mk 0).send order 0 expiredAtLast).result := by
  have hOrder : order.Replayable := by decide
  obtain ⟨-, -, hHidden, -⟩ := expiry_hidden_iff ⟨1⟩ hOrder 0 expiredAtLast
  obtain ⟨-, -, hSeen, -⟩ := expiry_hidden_iff ⟨0⟩ hOrder 0 expiredAtLast
  refine ⟨hOrder, hHidden.mpr (by decide), fun hSame => ?_⟩
  have hNot := hSeen.mp hSame
  revert hNot
  decide

/-- However many connections could still be had, the last round trip may return an expired one. -/
theorem not_always_hidden :
    (¬ ∀ (policy : RetryPolicy) (r : Request) (now : Nat) (script : List RoundTrip),
      r.Replayable → policy.Suffices script →
        (policy.send r now (live script)).result = (policy.send r now script).result) ∧
    (RetryPolicy.mk 0).Suffices expiredAtLast ∧
    ((RetryPolicy.mk 0).send order 0 expiredAtLast).result =
      .error (.request (.expired ⟨61, 60⟩)) ∧
    ((RetryPolicy.mk 0).send order 0 (live expiredAtLast)).result = .ok ⟨201, [], .text ""⟩ := by
  refine ⟨fun hAlways => ?_, by decide, rfl, rfl⟩
  have hSame := hAlways ⟨0⟩ order 0 expiredAtLast (by decide) (by decide)
  cases hSame

end Gatehouse.Outbound
