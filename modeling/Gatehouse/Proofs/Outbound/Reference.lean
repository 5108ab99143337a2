import Gatehouse.Outbound.Retry
import Mathlib.Data.List.Basic

/-!
# How a script of round trips is read

A send works through the results of its round trips one after the other and spends its budget as it
goes. What it comes to can be told without following it. One position of the script decides: the
first response, the first permanent failure, or the transient failure before which as many others
stand as the budget has. What is before it was sent again, and nothing that comes later is read,
save the one result after a budget that is used up.

* `Sending.account`: what a send does and returns, without its instants and its log.
* `RetryPolicy.decisive`: the position that decides; `decisive_spec`, `eq_decisive`.
* `RetryPolicy.reference`: the account, told by that position.
* `account_sendFrom`: a send gives the account of the reference, wherever it stands.
* `send_eq_reference`: so does a whole send, which comes to an end within its bounds.
-/

namespace Gatehouse.Outbound

/-! ## Results and scripts -/

namespace RoundTrip

/-- The class of a failure, `none` for a response. -/
def failure? (t : RoundTrip) : Option FailureClass :=
  match t.result with
  | .ok _ => none
  | .error e => some e.classify

def isExpired (t : RoundTrip) : Bool :=
  match t.failure? with
  | some .expired => true
  | _ => false

def isTransient (t : RoundTrip) : Bool :=
  match t.failure? with
  | some (.transient _) => true
  | _ => false

/-- The reason that a failure gives for another round trip. -/
def reason? (t : RoundTrip) : Option RetryReason :=
  match t.failure? with
  | some .expired => some .expired
  | some (.transient reason) => some (.transient reason)
  | _ => none

end RoundTrip

/-- The result at a position. Where the script ends, the peer answers at once. -/
def tripAt (script : List RoundTrip) (n : Nat) : RoundTrip := script[n]?.getD .standard

/-- How many of the first results are transient failures. -/
def transients (script : List RoundTrip) (n : Nat) : Nat :=
  (script.take n).countP RoundTrip.isTransient

/-! ## What a send does -/

inductive Deed where
  | sent (attempt : Attempt)
  /-- Another round trip was counted, with the reason for it. -/
  | retried (reason : RetryReason)
  | poolClosed
  deriving DecidableEq, Repr

namespace Deed

def attempt? : Deed → Option Attempt
  | .sent attempt => some attempt
  | _ => none

/-- A retry that the budget pays for. -/
def isSpent : Deed → Bool
  | .retried (.transient _) => true
  | _ => false

end Deed

def Happening.deed? : Happening → Option Deed
  | .attempt a => some (.sent a)
  | .poolClosed => some .poolClosed
  | .noted (.measure (.outboundRetry reason)) => some (.retried reason)
  | .noted _ => none

/-- What a send does and returns, and what it leaves of the script. -/
structure Account where
  deeds : List Deed
  result : Except SendError Http.Response
  rest : List RoundTrip

namespace Account

def attempts (a : Account) : List Attempt := a.deeds.filterMap Deed.attempt?

/-- How often the idle connections were closed. -/
def closings (a : Account) : Nat := a.deeds.count .poolClosed

/-- How many retries the budget paid for. -/
def spent (a : Account) : Nat := a.deeds.countP Deed.isSpent

def preceded (deeds : List Deed) (a : Account) : Account := { a with deeds := deeds ++ a.deeds }

end Account

def Sending.account (s : Sending) : Account :=
  ⟨s.happenings.filterMap fun h => h.2.deed?, s.result, s.rest⟩

theorem Sending.account_preceded (at_ : Nat) (what : List Happening) (s : Sending) :
    (s.preceded at_ what).account = s.account.preceded (what.filterMap Happening.deed?) := by
  simp [Sending.account, Sending.preceded, Account.preceded, List.filterMap_append,
    List.filterMap_map]

theorem Sending.attempts_account (s : Sending) : s.account.attempts = s.attempts := by
  simp only [Account.attempts, Sending.account, Sending.attempts, List.filterMap_filterMap]
  refine List.filterMap_congr fun h _ => ?_
  obtain ⟨at_, happening⟩ := h
  cases happening with
  | attempt attempt => rfl
  | poolClosed => rfl
  | noted entry =>
    cases entry with
    | log event => rfl
    | measure measurement => cases measurement <;> rfl

/-- The body of a request is known to be empty, or there is a way to make it anew. -/
def Request.Replayable (r : Request) : Prop :=
  r.payload.knownEmpty = true ∨ r.payload.regenerate.isSome = true

instance (r : Request) : Decidable r.Replayable := inferInstanceAs (Decidable (_ ∨ _))

/-- What is sent in the attempt with a number. -/
def Request.copy (r : Request) (n : Nat) : Attempt :=
  ⟨r.head, (r.payload.forAttempt? n).getD ""⟩

theorem Request.Replayable.attempt? {r : Request} (h : r.Replayable) (n : Nat) :
    r.attempt? n = some (r.copy n) := by
  suffices hBody : (r.payload.forAttempt? n).isSome = true by
    obtain ⟨body, hBody⟩ := Option.isSome_iff_exists.mp hBody
    simp [Request.attempt?, Request.copy, hBody]
  cases n with
  | zero => rfl
  | succ n =>
    simp only [Payload.forAttempt?]
    rcases h with hEmpty | hRegenerate
    · simp [hEmpty]
    · split
      · rfl
      · simpa using hRegenerate

namespace RetryPolicy

/-! ## The position that decides -/

/-- Whether the request is not simply sent again after the result at a position. -/
def ends (policy : RetryPolicy) (script : List RoundTrip) (n : Nat) : Bool :=
  match (tripAt script n).failure? with
  | none | some .permanent => true
  | some .expired => false
  | some (.transient _) => policy.maxRetries ≤ transients script n

/-- The first position that ends the reading. -/
def decisive (policy : RetryPolicy) (script : List RoundTrip) : Nat :=
  ((List.range script.length).find? (policy.ends script)).getD script.length

/-- The decisive result is the transient failure that finds the budget used up. -/
def exhausts (policy : RetryPolicy) (script : List RoundTrip) : Bool :=
  (tripAt script (policy.decisive script)).isTransient

/-- The round trips before a position, each with the reason for the next one. -/
def repeated (copy : Nat → Attempt) (script : List RoundTrip) (n : Nat) : List Deed :=
  (List.range n).flatMap fun i =>
    .sent (copy i) :: ((tripAt script i).reason?.map Deed.retried).toList

/-- The account of a send by the position that decides: a response and a permanent failure are
returned; a budget that is used up closes the pool once, and one more result is returned, whatever
it is. -/
def reference (policy : RetryPolicy) (copy : Nat → Attempt) (script : List RoundTrip) : Account :=
  let n := policy.decisive script
  if policy.exhausts script then
    { deeds := repeated copy script n ++
        [.sent (copy n), .poolClosed, .retried .finalAttempt, .sent (copy (n + 1))]
      result := (tripAt script (n + 1)).result.mapError .request
      rest := script.drop (n + 2) }
  else
    { deeds := repeated copy script n ++ [.sent (copy n)]
      result := (tripAt script n).result.mapError .request
      rest := script.drop (n + 1) }

variable {policy : RetryPolicy} {script rest : List RoundTrip} {trip : RoundTrip} {n : Nat}
  {copy : Nat → Attempt}

theorem ends_length (policy : RetryPolicy) (script : List RoundTrip) :
    policy.ends script script.length = true := by
  simp [ends, tripAt, RoundTrip.standard, RoundTrip.failure?]

theorem decisive_spec (policy : RetryPolicy) (script : List RoundTrip) :
    policy.ends script (policy.decisive script) = true ∧
      ∀ i < policy.decisive script, policy.ends script i = false := by
  unfold decisive
  cases hFind : (List.range script.length).find? (policy.ends script) with
  | none =>
    refine ⟨ends_length policy script, fun i hi => ?_⟩
    have hNone := List.find?_eq_none.mp hFind i (List.mem_range.mpr hi)
    simpa using hNone
  | some n =>
    obtain ⟨hEnds, -, hBefore⟩ := List.find?_range_eq_some.mp hFind
    exact ⟨hEnds, fun i hi => by simpa using hBefore i hi⟩

/-- The position is known by what it does. -/
theorem eq_decisive (hEnds : policy.ends script n = true)
    (hBefore : ∀ i < n, policy.ends script i = false) : policy.decisive script = n := by
  obtain ⟨hEnds', hBefore'⟩ := policy.decisive_spec script
  rcases Nat.lt_trichotomy (policy.decisive script) n with hLess | hSame | hMore
  · rw [hBefore _ hLess] at hEnds'
    cases hEnds'
  · exact hSame
  · rw [hBefore' n hMore] at hEnds
    cases hEnds

theorem decisive_le_length (policy : RetryPolicy) (script : List RoundTrip) :
    policy.decisive script ≤ script.length := by
  by_contra hBeyond
  have hNot := (policy.decisive_spec script).2 script.length (by omega)
  rw [ends_length] at hNot
  cases hNot

/-! ## The first result of a script -/

/-- What is left of the budget after a result that was sent again. -/
def spend (policy : RetryPolicy) (trip : RoundTrip) : RetryPolicy :=
  ⟨policy.maxRetries - if trip.isTransient then 1 else 0⟩

theorem transients_cons_succ (trip : RoundTrip) (rest : List RoundTrip) (n : Nat) :
    transients (trip :: rest) (n + 1) =
      transients rest n + if trip.isTransient then 1 else 0 := by
  simp [transients, List.countP_cons]

theorem tripAt_cons_zero (trip : RoundTrip) (rest : List RoundTrip) :
    tripAt (trip :: rest) 0 = trip := rfl

theorem ends_cons_zero (policy : RetryPolicy) (trip : RoundTrip) (rest : List RoundTrip) :
    policy.ends (trip :: rest) 0 =
      match trip.failure? with
      | none | some .permanent => true
      | some .expired => false
      | some (.transient _) => policy.maxRetries ≤ 0 := rfl

theorem isTransient_iff :
    trip.isTransient = true ↔ ∃ reason, trip.failure? = some (.transient reason) := by
  unfold RoundTrip.isTransient
  split <;> simp_all

/-- A transient failure is sent again only if the budget pays for it. -/
theorem spend_pos (h : policy.ends (trip :: rest) 0 = false)
    (hTransient : trip.isTransient = true) : 0 < policy.maxRetries := by
  obtain ⟨reason, hFailure⟩ := isTransient_iff.mp hTransient
  rw [ends_cons_zero] at h
  simp only [hFailure, decide_eq_false_iff_not] at h
  omega

theorem spend_mk_of_transient (maxRetries retries : Nat) {reason : TransientReason}
    (h : trip.failure? = some (.transient reason)) :
    (RetryPolicy.mk (maxRetries - retries)).spend trip = ⟨maxRetries - (retries + 1)⟩ := by
  simp [spend, RoundTrip.isTransient, h, Nat.sub_sub]

/-- The budget is used up before a later result if the rest of it is, before the same result. -/
theorem maxRetries_le_transients_cons (h : policy.ends (trip :: rest) 0 = false) (n : Nat) :
    policy.maxRetries ≤ transients (trip :: rest) (n + 1) ↔
      (policy.spend trip).maxRetries ≤ transients rest n := by
  rw [transients_cons_succ, spend]
  by_cases hTransient : trip.isTransient = true
  · have hPositive := spend_pos h hTransient
    simp only [hTransient, if_true]
    omega
  · simp only [hTransient, Bool.false_eq_true, if_false]
    omega

theorem ends_cons_succ (h : policy.ends (trip :: rest) 0 = false) (n : Nat) :
    policy.ends (trip :: rest) (n + 1) = (policy.spend trip).ends rest n := by
  have hTrip : tripAt (trip :: rest) (n + 1) = tripAt rest n := rfl
  simp only [ends, hTrip, maxRetries_le_transients_cons h]

theorem decisive_of_ends (h : policy.ends script 0 = true) : policy.decisive script = 0 :=
  eq_decisive h nofun

theorem decisive_cons (h : policy.ends (trip :: rest) 0 = false) :
    policy.decisive (trip :: rest) = (policy.spend trip).decisive rest + 1 := by
  obtain ⟨hEnds, hBefore⟩ := (policy.spend trip).decisive_spec rest
  refine eq_decisive (by rwa [ends_cons_succ h]) fun i hi => ?_
  cases i with
  | zero => exact h
  | succ i =>
    rw [ends_cons_succ h]
    exact hBefore i (by omega)

theorem exhausts_cons (h : policy.ends (trip :: rest) 0 = false) :
    policy.exhausts (trip :: rest) = (policy.spend trip).exhausts rest := by
  rw [exhausts, exhausts, decisive_cons h]
  rfl

theorem repeated_cons (copy : Nat → Attempt) (trip : RoundTrip) (rest : List RoundTrip) (n : Nat) :
    repeated copy (trip :: rest) (n + 1) =
      .sent (copy 0) :: ((trip.reason?.map Deed.retried).toList ++
        repeated (fun i => copy (i + 1)) rest n) := by
  simp [repeated, List.range_succ_eq_map, List.flatMap_map, tripAt]

/-- A script whose first result decides. -/
theorem reference_of_ends (h : policy.ends script 0 = true) :
    policy.reference copy script =
      if (tripAt script 0).isTransient then
        ⟨[.sent (copy 0), .poolClosed, .retried .finalAttempt, .sent (copy 1)],
          (tripAt script 1).result.mapError .request, script.drop 2⟩
      else ⟨[.sent (copy 0)], (tripAt script 0).result.mapError .request, script.drop 1⟩ := by
  simp only [reference, exhausts, decisive_of_ends h]
  rfl

/-- A script whose first result is sent again. -/
theorem reference_cons (h : policy.ends (trip :: rest) 0 = false) :
    policy.reference copy (trip :: rest) =
      ((policy.spend trip).reference (fun i => copy (i + 1)) rest).preceded
        (.sent (copy 0) :: (trip.reason?.map Deed.retried).toList) := by
  simp only [reference, exhausts_cons h, decisive_cons h, repeated_cons]
  split <;> simp [Account.preceded, tripAt]

/-! ## A send gives the account -/

theorem account_finalAttempt {r : Request} (h : r.Replayable) (n now : Nat)
    (script : List RoundTrip) :
    (finalAttempt r n now script).account =
      ⟨[.sent (r.copy n)], (tripAt script 0).result.mapError .request, script.drop 1⟩ := by
  simp only [finalAttempt, h.attempt? n, Sending.account_preceded, tripAt, ← List.head?_eq_getElem?,
    List.drop_one]
  rfl

theorem account_sendFrom {r : Request} (h : r.Replayable) (policy : RetryPolicy) (n now : Nat)
    {retries : Nat} (hRetries : retries ≤ policy.maxRetries) (script : List RoundTrip) :
    (policy.sendFrom r n retries now script).account =
      (RetryPolicy.mk (policy.maxRetries - retries)).reference (fun i => r.copy (n + i))
        script := by
  induction script generalizing n retries now with
  | nil =>
    rw [sendFrom, account_finalAttempt h, reference_of_ends (ends_length _ [])]
    rfl
  | cons trip rest ih =>
    have hCopy : (fun i => r.copy (n + 1 + i)) = fun i => r.copy (n + (i + 1)) := by
      funext i
      rw [Nat.add_right_comm, Nat.add_assoc]
    simp only [sendFrom, h.attempt? n, Sending.account_preceded]
    cases hResult : trip.result with
    | ok response =>
      have hFailure : trip.failure? = none := by simp only [RoundTrip.failure?, hResult]
      rw [reference_of_ends (by simp only [ends_cons_zero, hFailure])]
      simp only [tripAt_cons_zero, RoundTrip.isTransient, hFailure, hResult]
      rfl
    | error e =>
      have hFailure : trip.failure? = some e.classify := by simp only [RoundTrip.failure?, hResult]
      cases hClass : e.classify with
      | expired =>
        simp only [hClass] at hFailure ⊢
        rw [reference_cons (by simp only [ends_cons_zero, hFailure]), Sending.account_preceded,
          ih (n + 1) _ hRetries, hCopy]
        simp only [spend, RoundTrip.isTransient, RoundTrip.reason?, hFailure]
        rfl
      | transient reason =>
        simp only [hClass] at hFailure ⊢
        by_cases hBudget : retries < policy.maxRetries
        · have hGoes :
              (RetryPolicy.mk (policy.maxRetries - retries)).ends (trip :: rest) 0 = false := by
            simp only [ends_cons_zero, hFailure, decide_eq_false_iff_not]
            omega
          have hSpend := spend_mk_of_transient policy.maxRetries retries hFailure
          rw [if_pos hBudget, reference_cons hGoes, hSpend, Sending.account_preceded,
            ih (n + 1) _ hBudget, hCopy]
          simp only [RoundTrip.reason?, hFailure]
          rfl
        · have hEnds :
              (RetryPolicy.mk (policy.maxRetries - retries)).ends (trip :: rest) 0 = true := by
            simp only [ends_cons_zero, hFailure, decide_eq_true_eq]
            omega
          rw [if_neg hBudget, reference_of_ends hEnds, Sending.account_preceded,
            account_finalAttempt h]
          simp only [tripAt_cons_zero, RoundTrip.isTransient, hFailure]
          rfl
      | permanent =>
        simp only [hClass] at hFailure ⊢
        rw [reference_of_ends (by simp only [ends_cons_zero, hFailure])]
        simp only [tripAt_cons_zero, RoundTrip.isTransient, hFailure, hResult]
        rfl

theorem account_send {r : Request} (h : r.Replayable) (policy : RetryPolicy) (now : Nat)
    (script : List RoundTrip) :
    (policy.send r now script).account = policy.reference r.copy script := by
  rw [send, account_sendFrom h policy 0 now (Nat.zero_le _)]
  simp only [Nat.sub_zero, Nat.zero_add]

/-! ## How much is read -/

theorem tripAt_eq_getElem (hBound : n < script.length) : tripAt script n = script[n] := by
  simp [tripAt, hBound]

/-- What is passed over has failed, for free or on the budget. -/
theorem isTransient_eq_not_isExpired (h : policy.ends script n = false) :
    (tripAt script n).isTransient = !(tripAt script n).isExpired := by
  unfold ends at h
  unfold RoundTrip.isTransient RoundTrip.isExpired
  split at h <;> simp_all

theorem transients_succ (hBound : n < script.length) :
    transients script (n + 1) =
      transients script n + if (tripAt script n).isTransient then 1 else 0 := by
  simp only [transients, List.take_succ_eq_append_getElem hBound, List.countP_append,
    List.countP_singleton, tripAt_eq_getElem hBound]

/-- Up to the position that decides, the budget has paid. -/
theorem transients_le (hBefore : n ≤ policy.decisive script) :
    transients script n ≤ policy.maxRetries := by
  induction n with
  | zero => simp [transients]
  | succ n ih =>
    have hLength := policy.decisive_le_length script
    rw [transients_succ (by omega)]
    by_cases hTransient : (tripAt script n).isTransient = true
    · obtain ⟨reason, hFailure⟩ := isTransient_iff.mp hTransient
      have hNot := (policy.decisive_spec script).2 n (by omega)
      simp only [ends, hFailure, decide_eq_false_iff_not] at hNot
      rw [if_pos hTransient]
      omega
    · rw [if_neg hTransient]
      exact ih (by omega)

/-- Before the position that decides, what is not expired is transient. -/
theorem transients_decisive (policy : RetryPolicy) (script : List RoundTrip) :
    transients script (policy.decisive script) =
      (script.take (policy.decisive script)).countP fun t => !t.isExpired := by
  have hLength := policy.decisive_le_length script
  refine List.countP_congr fun t hMem => ?_
  obtain ⟨i, hIndex, rfl⟩ := List.mem_take_iff_getElem.mp hMem
  have hNot := (policy.decisive_spec script).2 i (by omega)
  have hKind := isTransient_eq_not_isExpired hNot
  rw [tripAt_eq_getElem (by omega)] at hKind
  rw [hKind]

/-- The results before the position that decides, each counted once. -/
theorem decisive_eq_add (policy : RetryPolicy) (script : List RoundTrip) :
    policy.decisive script = transients script (policy.decisive script) +
      (script.take (policy.decisive script)).countP RoundTrip.isExpired := by
  have hEach : (script.take (policy.decisive script)).length =
      (script.take (policy.decisive script)).countP RoundTrip.isExpired +
        (script.take (policy.decisive script)).countP fun t => decide ¬t.isExpired = true :=
    List.length_eq_countP_add_countP RoundTrip.isExpired
  rw [List.length_take_of_le (policy.decisive_le_length script)] at hEach
  rw [transients_decisive]
  simp only [Bool.not_eq_true, Bool.decide_eq_false] at hEach
  omega

/-- How many round trips a send makes. -/
def roundTrips (policy : RetryPolicy) (script : List RoundTrip) : Nat :=
  policy.decisive script + if policy.exhausts script then 2 else 1

theorem length_attempts_repeated (copy : Nat → Attempt) (script : List RoundTrip) (n : Nat) :
    ((repeated copy script n).filterMap Deed.attempt?).length = n := by
  have hEach : ∀ i, ((Deed.sent (copy i) ::
      ((tripAt script i).reason?.map Deed.retried).toList).filterMap Deed.attempt?).length = 1 := by
    intro i
    cases (tripAt script i).reason? <;> rfl
  simp [repeated, List.filterMap_flatMap, List.length_flatMap, hEach]

theorem length_attempts_reference (policy : RetryPolicy) (copy : Nat → Attempt)
    (script : List RoundTrip) :
    (policy.reference copy script).attempts.length = policy.roundTrips script := by
  have hAttempts : ∀ deeds, ((repeated copy script (policy.decisive script) ++ deeds).filterMap
      Deed.attempt?).length = policy.decisive script + (deeds.filterMap Deed.attempt?).length := by
    intro deeds
    rw [List.filterMap_append, List.length_append, length_attempts_repeated]
  simp only [reference, roundTrips]
  split <;> exact hAttempts _

theorem count_poolClosed_repeated (copy : Nat → Attempt) (script : List RoundTrip) (n : Nat) :
    (repeated copy script n).count .poolClosed = 0 := by
  rw [List.count_eq_zero]
  intro hMem
  obtain ⟨i, -, hDeed⟩ := List.mem_flatMap.mp hMem
  simp at hDeed

theorem closings_reference (policy : RetryPolicy) (copy : Nat → Attempt)
    (script : List RoundTrip) :
    (policy.reference copy script).closings = if policy.exhausts script then 1 else 0 := by
  simp only [reference]
  split <;> simp [Account.closings, count_poolClosed_repeated]

theorem roundTrips_le (policy : RetryPolicy) (script : List RoundTrip) :
    policy.roundTrips script ≤
      policy.maxRetries + 2 + script.countP RoundTrip.isExpired := by
  have hPaid := transients_le (Nat.le_refl (policy.decisive script))
  have hFree : (script.take (policy.decisive script)).countP RoundTrip.isExpired ≤
      script.countP RoundTrip.isExpired := (List.take_sublist _ _).countP_le
  have hAll := policy.decisive_eq_add script
  unfold roundTrips
  split <;> omega

/-! ## Scripts that are long enough -/

/-- A script with more results that are not expired than a send can read. -/
def Suffices (policy : RetryPolicy) (script : List RoundTrip) : Prop :=
  policy.maxRetries + 2 ≤ script.countP fun t => !t.isExpired

instance (policy : RetryPolicy) (script : List RoundTrip) : Decidable (policy.Suffices script) :=
  inferInstanceAs (Decidable (_ ≤ _))

theorem Suffices.lt_length (h : policy.Suffices script) :
    policy.decisive script + 1 < script.length := by
  have hPaid := transients_le (Nat.le_refl (policy.decisive script))
  have hSplit : script.countP (fun t => !t.isExpired) =
      transients script (policy.decisive script) +
        (script.drop (policy.decisive script)).countP fun t => !t.isExpired := by
    rw [transients_decisive, ← List.countP_append, List.take_append_drop]
  have hLater : (script.drop (policy.decisive script)).countP (fun t => !t.isExpired) ≤
      script.length - policy.decisive script := by
    rw [← List.length_drop]
    exact List.countP_le_length
  unfold Suffices at h
  omega

theorem tripAt_append_left (hBound : n < script.length) (later : List RoundTrip) :
    tripAt (script ++ later) n = tripAt script n := by
  simp only [tripAt, List.getElem?_append_left hBound]

theorem ends_append_left (hBound : n < script.length) (later : List RoundTrip) :
    policy.ends (script ++ later) n = policy.ends script n := by
  have hTransients : transients (script ++ later) n = transients script n := by
    rw [transients, transients, List.take_append_of_le_length (Nat.le_of_lt hBound)]
  simp only [ends, tripAt_append_left hBound, hTransients]

theorem decisive_append (hBound : policy.decisive script < script.length)
    (later : List RoundTrip) : policy.decisive (script ++ later) = policy.decisive script := by
  obtain ⟨hEnds, hBefore⟩ := policy.decisive_spec script
  refine eq_decisive (by rwa [ends_append_left hBound]) fun i hi => ?_
  rw [ends_append_left (by omega)]
  exact hBefore i hi

/-- What stands behind a script that is long enough is left for the next send. -/
theorem reference_append (hBound : policy.decisive script + 1 < script.length)
    (copy : Nat → Attempt) (later : List RoundTrip) :
    policy.reference copy (script ++ later) =
      { policy.reference copy script with
        rest := (policy.reference copy script).rest ++ later } := by
  have hDecisive : policy.decisive (script ++ later) = policy.decisive script :=
    decisive_append (by omega) later
  have hExhausts : policy.exhausts (script ++ later) = policy.exhausts script := by
    rw [exhausts, exhausts, hDecisive, tripAt_append_left (by omega)]
  have hRepeated : repeated copy (script ++ later) (policy.decisive script) =
      repeated copy script (policy.decisive script) := by
    refine List.flatMap_congr fun i hi => ?_
    rw [tripAt_append_left (by have := List.mem_range.mp hi; omega)]
  simp only [reference, hDecisive, hExhausts, hRepeated, tripAt_append_left hBound]
  split
  · rw [List.drop_append_of_le_length (by omega)]
  · rw [tripAt_append_left (by omega), List.drop_append_of_le_length (by omega)]

/-- A peer that does not answer with expired connections for ever comes to the end of every
budget. -/
theorem exists_suffices (policy : RetryPolicy) {peer : Nat → RoundTrip}
    (hPeer : ∀ i, ∃ j ≥ i, (peer j).isExpired = false) :
    ∃ n, policy.Suffices ((List.range n).map peer) := by
  unfold Suffices
  generalize policy.maxRetries + 2 = needed
  induction needed with
  | zero => exact ⟨0, Nat.zero_le _⟩
  | succ needed ih =>
    obtain ⟨n, hEnough⟩ := ih
    obtain ⟨j, hLater, hLive⟩ := hPeer n
    refine ⟨j + 1, ?_⟩
    have hBefore : ((List.range n).map peer).countP (fun t => !t.isExpired) ≤
        ((List.range j).map peer).countP fun t => !t.isExpired :=
      ((List.range_sublist.mpr hLater).map peer).countP_le
    rw [List.range_succ, List.map_append, List.countP_append]
    simp only [List.map_singleton, List.countP_singleton, hLive, Bool.not_false, if_true]
    omega

end RetryPolicy

open RetryPolicy

/-- A send of a request that can be sent again gives the account of the reference. So the pool is
closed once at most, and there are no more round trips than the budget has retries, two more, and
one for each result that is expired. Over a peer that does not answer with expired connections for
ever it comes to an end: some first results are all that it reads, whatever comes after them. -/
theorem send_eq_reference (policy : RetryPolicy) {r : Request} (hReplayable : r.Replayable)
    (now : Nat) (script : List RoundTrip) :
    (policy.send r now script).account = policy.reference r.copy script ∧
    (policy.send r now script).account.closings ≤ 1 ∧
    (policy.send r now script).attempts.length ≤
      policy.maxRetries + 2 + script.countP RoundTrip.isExpired ∧
    ∀ peer : Nat → RoundTrip, (∀ i, ∃ j ≥ i, (peer j).isExpired = false) →
      ∃ (n : Nat) (account : Account), account.attempts.length ≤ n ∧
        ∀ later, (policy.send r now ((List.range n).map peer ++ later)).account =
          { account with rest := account.rest ++ later } := by
  refine ⟨account_send hReplayable policy now script, ?_, ?_, fun peer hPeer => ?_⟩
  · rw [account_send hReplayable, closings_reference]
    split <;> omega
  · rw [← Sending.attempts_account, account_send hReplayable, length_attempts_reference]
    exact roundTrips_le policy script
  · obtain ⟨n, hEnough⟩ := exists_suffices policy hPeer
    have hBound := hEnough.lt_length
    refine ⟨n, policy.reference r.copy ((List.range n).map peer), ?_, fun later => ?_⟩
    · rw [length_attempts_reference, roundTrips]
      rw [List.length_map, List.length_range] at hBound
      split <;> omega
    · rw [account_send hReplayable, reference_append hBound]

/-- A request with a body that is kept for later attempts. -/
def order : Request :=
  ⟨⟨"POST", ⟨some "http", "orders.internal", "/v1/orders", none⟩, "HTTP/1.1", []⟩,
    .replayable "sku 42"⟩

/-- An expired connection, two that are reset, and then the order is taken. -/
def roughStart : List RoundTrip :=
  [⟨.error (.expired ⟨61, 60⟩), 0⟩, ⟨.error (.io .connectionReset), 0⟩,
    ⟨.error (.io .connectionReset), 0⟩, ⟨.ok ⟨201, [], .text ""⟩, 0⟩]

theorem send_eq_reference_rough_start :
    order.Replayable ∧
    ((RetryPolicy.mk 1).send order 0 roughStart).account =
      { deeds := [.sent (order.copy 0), .retried .expired, .sent (order.copy 1),
          .retried (.transient .connectionReset), .sent (order.copy 2), .poolClosed,
          .retried .finalAttempt, .sent (order.copy 3)]
        result := .ok ⟨201, [], .text ""⟩
        rest := [] } :=
  ⟨by decide, (send_eq_reference ⟨1⟩ (by decide) 0 roughStart).1⟩

end Gatehouse.Outbound
