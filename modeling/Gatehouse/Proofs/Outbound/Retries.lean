import Gatehouse.Proofs.Outbound.Expiry
import Gatehouse.Proofs.Outbound.Replay
import Mathlib.Algebra.BigOperators.Group.Finset.Basic
import Mathlib.Data.Fintype.Basic

/-!
# Which retries are counted

The reason for another round trip is counted as soon as a failure asks for it. Whether there can be
another one is found out after that, when the next attempt is put together. The reasons that are
counted are therefore those that the results give, one after the other from the first on. There is
one for each round trip but the first, and one more if the request cannot be sent again.

* `RetryPolicy.reasonAfter`: why the result at a position leads to another round trip.
* `RetryPolicy.Tallied`: which reasons are counted, and how many; `tallied_sendFrom`.
* `retries_counted_as_made`: a retry is counted that is not made, for one kind of request only.
-/

namespace Gatehouse.Outbound

instance : Fintype TransientReason where
  elems := {.connectionRefused, .connectionReset, .connectionAborted, .unreachable,
    .unexpectedEof, .brokenPipe, .notConnected, .incompleteMessage, .connectionClosed}
  complete reason := by cases reason <;> decide

instance : Fintype RetryReason where
  elems := {.expired, .finalAttempt} ∪ Finset.univ.image .transient
  complete reason := by cases reason <;> simp

/-! ## The counters -/

def Deed.reason? : Deed → Option RetryReason
  | .retried reason => some reason
  | _ => none

/-- The reasons that were counted, the first one first. -/
def Account.reasons (a : Account) : List RetryReason := a.deeds.filterMap Deed.reason?

namespace Sending

/-- What a send adds to the counter of a reason. -/
def counted (s : Sending) (reason : RetryReason) : Nat :=
  s.journal.count (.measure (.outboundRetry reason))

/-- The send ended because the request could not be sent again. -/
def refused (s : Sending) : Bool :=
  match s.result with
  | .error .bodyNotReplayable => true
  | _ => false

theorem counted_eq (s : Sending) (reason : RetryReason) :
    s.counted reason = s.account.reasons.count reason := by
  simp only [counted, journal, Account.reasons, account, List.filterMap_filterMap,
    List.count_filterMap]
  refine List.countP_congr fun h _ => ?_
  obtain ⟨at_, happening⟩ := h
  cases happening with
  | attempt a => simp [Happening.deed?, Deed.reason?]
  | poolClosed => simp [Happening.deed?, Deed.reason?]
  | noted entry =>
    cases entry with
    | log event => simp [Happening.deed?]
    | measure m => cases m <;> simp [Happening.deed?, Deed.reason?]

theorem sum_counted (s : Sending) : ∑ reason, s.counted reason = s.account.reasons.length := by
  have hEach : ∀ reason,
      s.counted reason = (s.account.reasons : Multiset RetryReason).count reason :=
    fun reason => (s.counted_eq reason).trans (Multiset.coe_count _ _).symm
  simp only [hEach]
  rw [Multiset.sum_count_eq_card fun reason _ => Finset.mem_univ reason, Multiset.coe_card]

theorem reasons_preceded (at_ : Nat) (what : List Happening) (s : Sending) :
    (s.preceded at_ what).account.reasons =
      (what.filterMap Happening.deed?).filterMap Deed.reason? ++ s.account.reasons := by
  rw [account_preceded, Account.reasons, Account.preceded, List.filterMap_append]
  rfl

end Sending

namespace RetryPolicy

/-! ## The reasons that the results give -/

/-- Why there is to be another round trip after the one at a position: its connection had expired,
it failed in a way that may pass, or it failed so with the budget used up. -/
def reasonAfter (policy : RetryPolicy) (script : List RoundTrip) (n : Nat) : Option RetryReason :=
  match (tripAt script n).failure? with
  | some .expired => some .expired
  | some (.transient reason) =>
    if policy.maxRetries ≤ transients script n then some .finalAttempt
    else some (.transient reason)
  | _ => none

/-- Of the round trips after the first, `later` in number, those made because the one before gave
this reason. -/
def madeFor (policy : RetryPolicy) (script : List RoundTrip) (later : Nat) (reason : RetryReason) :
    Nat :=
  (List.range later).countP fun i => policy.reasonAfter script i == some reason

variable {policy : RetryPolicy} {script rest : List RoundTrip} {trip : RoundTrip} {n : Nat}

theorem reasonAfter_cons_zero (policy : RetryPolicy) (trip : RoundTrip) (rest : List RoundTrip) :
    policy.reasonAfter (trip :: rest) 0 =
      match trip.failure? with
      | some .expired => some .expired
      | some (.transient reason) =>
        if policy.maxRetries ≤ 0 then some .finalAttempt else some (.transient reason)
      | _ => none := rfl

/-- After a result that was sent again, the next one meets what is left of the budget. -/
theorem reasonAfter_cons_succ (h : policy.ends (trip :: rest) 0 = false) (n : Nat) :
    policy.reasonAfter (trip :: rest) (n + 1) = (policy.spend trip).reasonAfter rest n := by
  have hTrip : tripAt (trip :: rest) (n + 1) = tripAt rest n := rfl
  simp only [reasonAfter, hTrip, maxRetries_le_transients_cons h]

/-! ## What one send counts -/

/-- The reasons that a send has counted are those of the first results, one for each round trip
after the first and one for a round trip that the request does not allow. -/
structure Tallied (policy : RetryPolicy) (script : List RoundTrip) (s : Sending) : Prop where
  length : s.account.reasons.length + 1 = s.attempts.length + s.refused.toNat
  reasons : ∀ i reason, s.account.reasons[i]? = some reason →
    policy.reasonAfter script i = some reason

theorem refused_preceded (at_ : Nat) (what : List Happening) (s : Sending) :
    (s.preceded at_ what).refused = s.refused := rfl

/-- A send that gives its caller the result of a round trip was not refused. -/
theorem refused_of_result {s : Sending} {result : Except TransportError Http.Response}
    (h : s.result = result.mapError .request) : s.refused = false := by
  rw [Sending.refused, h]
  cases result <;> rfl

/-- Nothing is counted in the last round trip, whether it is made or not. -/
theorem finalAttempt_spec (r : Request) (n now : Nat) (script : List RoundTrip) :
    (finalAttempt r n now script).account.reasons = [] ∧
      1 = (finalAttempt r n now script).attempts.length +
        (finalAttempt r n now script).refused.toNat := by
  unfold finalAttempt
  cases r.attempt? n with
  | none => exact ⟨rfl, rfl⟩
  | some a =>
    refine ⟨Sending.reasons_preceded _ _ _, ?_⟩
    rw [refused_preceded, refused_of_result rfl, Sending.attempts_preceded]
    rfl

theorem tallied_of_silent {s : Sending} (hReasons : s.account.reasons = [])
    (hLength : 1 = s.attempts.length + s.refused.toNat) : policy.Tallied script s where
  length := by rw [hReasons]; exact hLength
  reasons i reason h := by rw [hReasons] at h; cases h

/-- An attempt whose result is counted as a reason, and then what follows. -/
theorem tallied_cons {s : Sending} {a : Attempt} {reason : RetryReason} {notes : List Happening}
    (now after : Nat) (hReason : policy.reasonAfter (trip :: rest) 0 = some reason)
    (hCounted : (notes.filterMap Happening.deed?).filterMap Deed.reason? = [reason])
    (hSilent : (notes.filterMap Happening.deed?).filterMap Deed.attempt? = [])
    (hLength : s.account.reasons.length + 1 = s.attempts.length + s.refused.toNat)
    (hLater : ∀ i other, s.account.reasons[i]? = some other →
      policy.reasonAfter (trip :: rest) (i + 1) = some other) :
    policy.Tallied (trip :: rest) ((s.preceded after notes).preceded now [.attempt a]) := by
  have hReasons : ((s.preceded after notes).preceded now [.attempt a]).account.reasons =
      reason :: s.account.reasons := by
    rw [Sending.reasons_preceded, Sending.reasons_preceded, hCounted]
    rfl
  have hAttempts : ((s.preceded after notes).preceded now [.attempt a]).attempts =
      a :: s.attempts := by
    rw [Sending.attempts_preceded, Sending.attempts_preceded, hSilent]
    rfl
  refine ⟨?_, fun i other hAt => ?_⟩
  · rw [refused_preceded, refused_preceded, hReasons, hAttempts, List.length_cons,
      List.length_cons, hLength]
    omega
  · rw [hReasons] at hAt
    cases i with
    | zero => exact hReason.trans hAt
    | succ i => exact hLater i other hAt

/-- The step from the rest of a script to the whole of it, after a result that is sent again. -/
theorem Tallied.cons {s : Sending} (h : (policy.spend trip).Tallied rest s) {a : Attempt}
    {reason : RetryReason} {notes : List Happening} (now after : Nat)
    (hGoes : policy.ends (trip :: rest) 0 = false)
    (hReason : policy.reasonAfter (trip :: rest) 0 = some reason)
    (hNotes : notes.filterMap Happening.deed? = [.retried reason]) :
    policy.Tallied (trip :: rest) ((s.preceded after notes).preceded now [.attempt a]) := by
  refine tallied_cons now after hReason (by rw [hNotes]; rfl) (by rw [hNotes]; rfl) h.length
    fun i other hAt => ?_
  rw [reasonAfter_cons_succ hGoes]
  exact h.reasons i other hAt

/-- The step to the last round trip, which is counted whatever becomes of it. -/
theorem tallied_exhausted {reason : TransientReason}
    (hFailure : trip.failure? = some (.transient reason)) (hEmpty : policy.maxRetries ≤ 0)
    (r : Request) (a : Attempt) (e : TransportError) (retries n now after : Nat) :
    policy.Tallied (trip :: rest)
      (((finalAttempt r n after rest).preceded after (exhaustedNotes r e retries)).preceded now
        [.attempt a]) := by
  obtain ⟨hReasons, hLength⟩ := finalAttempt_spec r n after rest
  have hReason : policy.reasonAfter (trip :: rest) 0 = some .finalAttempt := by
    simp only [reasonAfter_cons_zero, hFailure, if_pos hEmpty]
  refine tallied_cons now after hReason rfl rfl ?_ fun i other hAt => ?_
  · rw [hReasons]
    exact hLength
  · rw [hReasons] at hAt
    cases hAt

/-- The run lemma, over the script: wherever a send stands, with whatever is left of the budget. -/
theorem tallied_sendFrom (policy : RetryPolicy) (r : Request) (n now : Nat) {retries : Nat}
    (hRetries : retries ≤ policy.maxRetries) (script : List RoundTrip) :
    (RetryPolicy.mk (policy.maxRetries - retries)).Tallied script
      (policy.sendFrom r n retries now script) := by
  induction script generalizing n retries now with
  | nil =>
    obtain ⟨hReasons, hLength⟩ := finalAttempt_spec r n now []
    exact tallied_of_silent hReasons hLength
  | cons trip rest ih =>
    rw [sendFrom]
    cases r.attempt? n with
    | none => exact tallied_of_silent rfl rfl
    | some a =>
      cases hResult : trip.result with
      | ok response => exact tallied_of_silent rfl rfl
      | error e =>
        have hFailure : trip.failure? = some e.classify := by
          simp only [RoundTrip.failure?, hResult]
        cases hClass : e.classify with
        | permanent =>
          simp only [hClass]
          exact tallied_of_silent rfl rfl
        | expired =>
          rw [hClass] at hFailure
          have hSpend : (RetryPolicy.mk (policy.maxRetries - retries)).spend trip =
              ⟨policy.maxRetries - retries⟩ :=
            spend_of_isExpired (by simp only [RoundTrip.isExpired, hFailure])
          have hNext := ih (n + 1) (now + trip.duration) hRetries
          rw [← hSpend] at hNext
          simp only [hClass]
          exact hNext.cons _ _ (by simp only [ends_cons_zero, hFailure])
            (by simp only [reasonAfter_cons_zero, hFailure]) rfl
        | transient reason =>
          rw [hClass] at hFailure
          simp only [hClass]
          by_cases hBudget : retries < policy.maxRetries
          · -- The rest of the script is read with a budget that is smaller by one.
            have hPositive : ¬ policy.maxRetries - retries ≤ 0 := by omega
            have hNext := ih (n + 1) (now + trip.duration) hBudget
            rw [← spend_mk_of_transient _ _ hFailure] at hNext
            rw [if_pos hBudget]
            exact hNext.cons _ _
              (by simp only [ends_cons_zero, hFailure, decide_eq_false hPositive])
              (by simp only [reasonAfter_cons_zero, hFailure, if_neg hPositive]) rfl
          · have hEmpty : policy.maxRetries - retries ≤ 0 := by omega
            rw [if_neg hBudget]
            exact tallied_exhausted hFailure hEmpty r a e retries (n + 1) now _

theorem tallied_send (policy : RetryPolicy) (r : Request) (now : Nat) (script : List RoundTrip) :
    policy.Tallied script (policy.send r now script) :=
  tallied_sendFrom policy r 0 now (Nat.zero_le _) script

/-- Entries that are told by their positions are counted by the positions. -/
theorem count_eq_countP_range {α : Type} [DecidableEq α] {entries : List α} {f : Nat → Option α}
    (h : ∀ i a, entries[i]? = some a → f i = some a) (a : α) :
    entries.count a = (List.range entries.length).countP fun i => f i == some a := by
  induction entries using List.reverseRecOn with
  | nil => rfl
  | append_singleton entries last ih =>
    have hBefore : ∀ i a, entries[i]? = some a → f i = some a := by
      intro i a hAt
      have hLt := (List.getElem?_eq_some_iff.mp hAt).1
      exact h i a (by rw [List.getElem?_append_left hLt]; exact hAt)
    have hLast : f entries.length = some last := h _ _ (by simp)
    rw [List.count_append, List.length_append, List.length_singleton, List.range_succ,
      List.countP_append, ih hBefore, List.countP_singleton, hLast, List.count_singleton]
    simp

/-- What the counter of a reason shows, by the round trips that were made and the one that was
not. -/
theorem Tallied.counted_eq {s : Sending} (h : policy.Tallied script s) (reason : RetryReason) :
    s.counted reason = policy.madeFor script s.account.reasons.length reason := by
  rw [Sending.counted_eq, madeFor]
  exact count_eq_countP_range h.reasons reason

/-- A send is refused where the request cannot be sent again and the first result asks for it. -/
theorem refused_send_iff (policy : RetryPolicy) (r : Request) (now : Nat)
    (script : List RoundTrip) :
    (policy.send r now script).refused = true ↔
      ¬ r.Replayable ∧ (tripAt script 0).reason?.isSome = true := by
  by_cases hReplayable : r.Replayable
  · have hResult : (policy.send r now script).result =
        (policy.last script).result.mapError .request :=
      (congrArg Account.result (account_send hReplayable policy now script)).trans
        (result_reference _ _ _)
    simp [refused_of_result hResult, hReplayable]
  · have hResult := (result_of_not_replayable hReplayable policy now script).2
    by_cases hReason : (tripAt script 0).reason?.isSome = true
    · rw [if_pos hReason] at hResult
      simp [Sending.refused, hResult, hReplayable, hReason]
    · rw [if_neg hReason] at hResult
      simp [refused_of_result hResult, hReason]

end RetryPolicy

open RetryPolicy

/-- Where a request can be sent again, or its first result does not ask for that, the counters of a
send add up to the round trips after the first, and each counter is the number of those that were
made because the one before gave its reason. Otherwise a send is one round trip, and one retry is
counted all the same, for the reason that this round trip gave. -/
theorem retries_counted_as_made (policy : RetryPolicy) (r : Request) (now : Nat)
    (script : List RoundTrip) :
    let s := policy.send r now script
    let later := s.attempts.length - 1
    let unmade := ¬ r.Replayable ∧ (tripAt script 0).reason?.isSome = true
    (¬ unmade → ∑ reason, s.counted reason = later ∧
      ∀ reason, s.counted reason = policy.madeFor script later reason) ∧
    (unmade → later = 0 ∧ ∑ reason, s.counted reason = 1 ∧
      ∀ reason, s.counted reason = if policy.reasonAfter script 0 = some reason then 1 else 0) := by
  intro s later unmade
  have hTallied : policy.Tallied script s := tallied_send policy r now script
  have hLength := hTallied.length
  have hUnmade : s.refused = true ↔ unmade := refused_send_iff policy r now script
  rw [Sending.sum_counted]
  constructor
  · intro hMade
    have hRefused : s.refused = false := by
      rw [← Bool.not_eq_true, hUnmade]
      exact hMade
    have hReasons : s.account.reasons.length = later := by
      rw [hRefused, Bool.toNat_false] at hLength
      omega
    refine ⟨hReasons, fun reason => ?_⟩
    rw [hTallied.counted_eq, hReasons]
  · intro hNot
    have hOnce : s.attempts.length = 1 := by
      rw [show s.attempts = _ from (result_of_not_replayable hNot.1 policy now script).1]
      rfl
    have hReasons : s.account.reasons.length = 1 := by
      rw [hUnmade.mpr hNot, hOnce, Bool.toNat_true] at hLength
      omega
    refine ⟨by omega, hReasons, fun reason => ?_⟩
    rw [hTallied.counted_eq, hReasons]
    simp [madeFor]

/-- Three results that lead to another round trip, each for a reason of its own. -/
theorem retries_counted_as_made_rough_start :
    order.Replayable ∧
    ∑ reason, ((RetryPolicy.mk 1).send order 0 roughStart).counted reason = 3 ∧
    ((RetryPolicy.mk 1).send order 0 roughStart).counted .expired = 1 ∧
    ((RetryPolicy.mk 1).send order 0 roughStart).counted .finalAttempt = 1 := by
  have hOrder : order.Replayable := by decide
  obtain ⟨hMade, -⟩ := retries_counted_as_made ⟨1⟩ order 0 roughStart
  obtain ⟨hSum, hEach⟩ := hMade fun hNot => hNot.1 hOrder
  exact ⟨hOrder, hSum, hEach .expired, hEach .finalAttempt⟩

/-- A body that streams past once, and cannot be made anew. -/
def upload : Request :=
  ⟨⟨"POST", ⟨some "http", "orders.internal", "/upload", none⟩, "HTTP/1.1", []⟩,
    .stream ["chunk"] none⟩

/-- The first connection is reset, and the next one takes the request. -/
def resetOnce : List RoundTrip :=
  [⟨.error (.io .connectionReset), 0⟩, ⟨.ok ⟨201, [], .text ""⟩, 0⟩]

/-- A retry is counted that is not made. -/
theorem not_always_made :
    (¬ ∀ (policy : RetryPolicy) (r : Request) (now : Nat) (script : List RoundTrip),
      ∑ reason, (policy.send r now script).counted reason =
        (policy.send r now script).attempts.length - 1) ∧
    ((RetryPolicy.mk 3).send upload 0 resetOnce).attempts.length = 1 ∧
    ((RetryPolicy.mk 3).send upload 0 resetOnce).counted (.transient .connectionReset) = 1 := by
  refine ⟨fun hAlways => ?_, rfl, rfl⟩
  have hNone := hAlways ⟨3⟩ upload 0 resetOnce
  rw [Sending.sum_counted] at hNone
  cases hNone

end Gatehouse.Outbound
