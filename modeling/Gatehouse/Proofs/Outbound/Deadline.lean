import Gatehouse.Outbound.Client
import Gatehouse.Proofs.Outbound.Reference
import Mathlib.Algebra.GroupWithZero.Nat

/-!
# One time limit for all round trips

The round trips of a send follow each other without a pause, so that each of them begins when those
before it have taken their time, and the send is over when all of them have. The time limit of a
client is an instant, fixed when the send begins. Nothing that happens on the way moves it. A caller
has an answer at that instant at the latest, and what the peers would have done later plays no part
in it.

* `Paced`: when round trips begin, and when a send is over; `paced_sendFrom`.
* `Client.answeredAt`: when a client has its answer; `send_spec` and the results beside it.
* `SameUntil`: sends that cannot be told apart up to an instant; `sameUntil_sendFrom`.
* `answered_in_time`: which answer a caller gets, and when.
-/

namespace Gatehouse.Outbound

/-! ## When round trips begin -/

def Happening.attempt? : Happening → Option Attempt
  | .attempt a => some a
  | _ => none

/-- The attempt that begins at an instant, if one does. -/
def roundTrip? (h : Nat × Happening) : Option (Nat × Attempt) := h.2.attempt?.map (h.1, ·)

/-- The round trips that were begun, each with its instant. -/
def Sending.roundTrips (s : Sending) : List (Nat × Attempt) := s.happenings.filterMap roundTrip?

/-- How long the first round trips take, one after the other. -/
def elapsed (script : List RoundTrip) (n : Nat) : Nat :=
  ((List.range n).map fun i => (tripAt script i).duration).sum

variable {script : List RoundTrip} {begun now at_ limit : Nat} {s : Sending}

theorem tripAt_tail (script : List RoundTrip) (n : Nat) :
    tripAt script.tail n = tripAt script (n + 1) := by
  rw [tripAt, tripAt, List.getElem?_tail]

theorem elapsed_succ (script : List RoundTrip) (n : Nat) :
    elapsed script (n + 1) = (tripAt script 0).duration + elapsed script.tail n := by
  simp only [elapsed, List.range_succ_eq_map, List.map_cons, List.map_map, List.sum_cons,
    Function.comp_def, tripAt_tail]

theorem roundTrips_preceded (at_ : Nat) (what : List Happening) (s : Sending) :
    (s.preceded at_ what).roundTrips =
      (what.filterMap Happening.attempt?).map (at_, ·) ++ s.roundTrips := by
  simp only [Sending.roundTrips, Sending.preceded, List.filterMap_append, List.filterMap_map,
    List.map_filterMap, Function.comp_def, roundTrip?]

/-- The round trips follow each other without a pause, and the send is over with the last one. -/
structure Paced (script : List RoundTrip) (begun : Nat) (s : Sending) : Prop where
  begins : ∀ i trip, s.roundTrips[i]? = some trip → trip.1 = begun + elapsed script i
  finished : s.finished = begun + elapsed script s.roundTrips.length
  within : ∀ h ∈ s.happenings, begun ≤ h.1 ∧ h.1 ≤ s.finished

theorem Paced.begun_le (h : Paced script begun s) : begun ≤ s.finished := by
  rw [h.finished]
  exact Nat.le_add_right _ _

/-- A send in which nothing happens is over at once. -/
theorem paced_of_silent (script rest : List RoundTrip) (now : Nat)
    (result : Except SendError Http.Response) : Paced script now ⟨[], now, result, rest⟩ where
  begins i trip hTrip := by cases hTrip
  finished := rfl
  within h hMem := by cases hMem

/-- A round trip with the first result of the script, what is noted of it, and what follows. -/
theorem Paced.after (h : Paced script.tail (now + (tripAt script 0).duration) s) (a : Attempt)
    (notes : List Happening) (hNotes : notes.filterMap Happening.attempt? = []) :
    Paced script now
      ((s.preceded (now + (tripAt script 0).duration) notes).preceded now [.attempt a]) := by
  have hTrips : ((s.preceded (now + (tripAt script 0).duration) notes).preceded now
      [.attempt a]).roundTrips = (now, a) :: s.roundTrips := by
    rw [roundTrips_preceded, roundTrips_preceded, hNotes]
    rfl
  constructor
  case begins =>
    intro i trip hTrip
    rw [hTrips] at hTrip
    cases i with
    | zero =>
      cases hTrip
      rfl
    | succ i => rw [h.begins i trip hTrip, elapsed_succ, Nat.add_assoc]
  case finished =>
    rw [hTrips, List.length_cons, elapsed_succ, ← Nat.add_assoc]
    exact h.finished
  case within =>
    intro happened hMem
    have hBegun := h.begun_le
    simp only [Sending.preceded, List.map_cons, List.map_nil, List.cons_append, List.nil_append,
      List.mem_cons, List.mem_append, List.mem_map] at hMem ⊢
    obtain rfl | ⟨note, -, rfl⟩ | hMem := hMem
    · exact ⟨Nat.le_refl _, by omega⟩
    · exact ⟨Nat.le_add_right _ _, hBegun⟩
    · have hWithin := h.within happened hMem
      exact ⟨by omega, hWithin.2⟩

theorem Paced.cons {trip : RoundTrip} {rest : List RoundTrip}
    (h : Paced rest (now + trip.duration) s) (a : Attempt) (notes : List Happening)
    (hNotes : notes.filterMap Happening.attempt? = []) :
    Paced (trip :: rest) now ((s.preceded (now + trip.duration) notes).preceded now [.attempt a]) :=
  have hRest : Paced (trip :: rest).tail (now + (tripAt (trip :: rest) 0).duration) s := h
  hRest.after a notes hNotes

/-- The last round trip, after which nothing happens. -/
theorem paced_last (trip : RoundTrip) (rest : List RoundTrip) (now : Nat) (a : Attempt)
    (result : Except SendError Http.Response) :
    Paced (trip :: rest) now
      (Sending.preceded now [.attempt a] ⟨[], now + trip.duration, result, rest⟩) :=
  (paced_of_silent rest rest (now + trip.duration) result).cons a [] rfl

namespace RetryPolicy

theorem paced_finalAttempt (r : Request) (n now : Nat) (script : List RoundTrip) :
    Paced script now (finalAttempt r n now script) := by
  unfold finalAttempt
  cases r.attempt? n with
  | none => exact paced_of_silent _ _ _ _
  | some a =>
    have hFirst : script.head?.getD .standard = tripAt script 0 := by
      rw [tripAt, List.head?_eq_getElem?]
    simp only [hFirst]
    exact (paced_of_silent _ _ _ _).after a [] rfl

/-- The run lemma, over the script: retries that cost nothing, retries that the budget pays for and
the last attempt all take their time from the same start. -/
theorem paced_sendFrom (policy : RetryPolicy) (r : Request) (n retries now : Nat)
    (script : List RoundTrip) : Paced script now (policy.sendFrom r n retries now script) := by
  induction script generalizing n retries now with
  | nil => exact paced_finalAttempt r n now []
  | cons trip rest ih =>
    rw [sendFrom]
    cases r.attempt? n with
    | none => exact paced_of_silent _ _ _ _
    | some a =>
      cases hResult : trip.result with
      | ok response => exact paced_last trip rest now a _
      | error e =>
        cases hClass : e.classify with
        | permanent =>
          simp only [hClass]
          exact paced_last trip rest now a _
        | expired =>
          simp only [hClass]
          exact (ih _ _ _).cons a _ rfl
        | transient reason =>
          simp only [hClass]
          by_cases hBudget : retries < policy.maxRetries
          · rw [if_pos hBudget]
            exact (ih _ _ _).cons a _ rfl
          · rw [if_neg hBudget]
            exact (paced_finalAttempt r _ _ rest).cons a _ rfl

end RetryPolicy

/-! ## What cannot be told apart -/

/-- What is kept up to an instant is kept of what is kept up to a later one. -/
theorem filter_upTo_filter {earlier later : Nat} (h : earlier ≤ later)
    (happenings : List (Nat × Happening)) :
    (happenings.filter (·.1 ≤ later)).filter (·.1 ≤ earlier) =
      happenings.filter (·.1 ≤ earlier) := by
  rw [List.filter_filter]
  refine List.filter_congr fun happened _ => ?_
  rw [← Bool.decide_and]
  exact decide_eq_decide.mpr ⟨fun hBoth => hBoth.1, fun hUpTo => ⟨hUpTo, Nat.le_trans hUpTo h⟩⟩

/-- Up to an instant the same happens in two sends, and one that is over by then is over in the
same way as the other. -/
structure SameUntil (limit : Nat) (s t : Sending) : Prop where
  happenings : s.happenings.filter (·.1 ≤ limit) = t.happenings.filter (·.1 ≤ limit)
  ending : (s.finished = t.finished ∧ s.result = t.result) ∨
    (limit < s.finished ∧ limit < t.finished)

namespace SameUntil

variable {t : Sending}

theorem of_rest (happenings : List (Nat × Happening)) (finished : Nat)
    (result : Except SendError Http.Response) (rest rest' : List RoundTrip) :
    SameUntil limit ⟨happenings, finished, result, rest⟩ ⟨happenings, finished, result, rest'⟩ :=
  ⟨rfl, .inl ⟨rfl, rfl⟩⟩

/-- Sends that begin later have nothing in common that could be told apart. -/
theorem of_late {script' : List RoundTrip} (h : Paced script begun s) (h' : Paced script' begun t)
    (hLate : limit < begun) : SameUntil limit s t where
  happenings := by
    have hNone : ∀ {script u}, Paced script begun u →
        u.happenings.filter (·.1 ≤ limit) = [] := fun hPaced =>
      List.filter_eq_nil_iff.mpr fun happened hMem => by
        have hBegins := (hPaced.within happened hMem).1
        simp only [decide_eq_true_eq]
        omega
    rw [hNone h, hNone h']
  ending := .inr ⟨Nat.lt_of_lt_of_le hLate h.begun_le, Nat.lt_of_lt_of_le hLate h'.begun_le⟩

theorem preceded (h : SameUntil limit s t) (at_ : Nat) (what : List Happening) :
    SameUntil limit (s.preceded at_ what) (t.preceded at_ what) where
  happenings := by
    simp only [Sending.preceded, List.filter_append, h.happenings]
  ending := h.ending

theorem upTo (h : SameUntil limit s t) (hLe : at_ ≤ limit) :
    s.happenings.filter (·.1 ≤ at_) = t.happenings.filter (·.1 ≤ at_) := by
  rw [← filter_upTo_filter hLe s.happenings, h.happenings, filter_upTo_filter hLe]

end SameUntil

namespace RetryPolicy

theorem sameUntil_finalAttempt (r : Request) (n now : Nat) (later later' : List RoundTrip)
    (hLong : limit < now + elapsed script script.length) :
    SameUntil limit (finalAttempt r n now (script ++ later))
      (finalAttempt r n now (script ++ later')) := by
  cases script with
  | nil => exact .of_late (paced_finalAttempt r n now _) (paced_finalAttempt r n now _) hLong
  | cons trip rest =>
    unfold finalAttempt
    cases r.attempt? n with
    | none => exact .of_rest _ _ _ _ _
    | some a => exact (SameUntil.of_rest _ _ _ _ _).preceded _ _

/-- The run lemma, over the results that take longer than the limit: what comes after them is not
reached in time. -/
theorem sameUntil_sendFrom (policy : RetryPolicy) (r : Request) (n retries now : Nat)
    (later later' : List RoundTrip) (hLong : limit < now + elapsed script script.length) :
    SameUntil limit (policy.sendFrom r n retries now (script ++ later))
      (policy.sendFrom r n retries now (script ++ later')) := by
  induction script generalizing n retries now with
  | nil =>
    exact .of_late (policy.paced_sendFrom r n retries now _)
      (policy.paced_sendFrom r n retries now _) hLong
  | cons trip rest ih =>
    have hRest : limit < now + trip.duration + elapsed rest rest.length := by
      rw [List.length_cons, elapsed_succ, ← Nat.add_assoc] at hLong
      exact hLong
    rw [List.cons_append, List.cons_append, sendFrom, sendFrom]
    cases r.attempt? n with
    | none => exact .of_rest _ _ _ _ _
    | some a =>
      refine SameUntil.preceded ?_ now [.attempt a]
      cases hResult : trip.result with
      | ok response => exact .of_rest _ _ _ _ _
      | error e =>
        cases hClass : e.classify with
        | permanent =>
          simp only [hClass]
          exact .of_rest _ _ _ _ _
        | expired =>
          simp only [hClass]
          exact (ih _ _ _ hRest).preceded _ _
        | transient reason =>
          simp only [hClass]
          by_cases hBudget : retries < policy.maxRetries
          · rw [if_pos hBudget, if_pos hBudget]
            exact (ih _ _ _ hRest).preceded _ _
          · rw [if_neg hBudget, if_neg hBudget]
            exact (sameUntil_finalAttempt r _ _ later later' hRest).preceded _ _

end RetryPolicy

/-! ## When a client has its answer -/

namespace Client

variable {c : Client} {r : Request} {scope : Option (Nat × Cause)} {cause : Cause}

/-- The results that a request meets: those of the script, if a connection is dialed at all. -/
def met (r : Request) (script : List RoundTrip) : List RoundTrip :=
  match refusal? r.head.uri with
  | some e => [⟨.error e, 0⟩]
  | none => script

/-- All attempts of a request, under no limit. -/
def run (c : Client) (r : Request) (now : Nat) (script : List RoundTrip) : Sending :=
  c.policy.send r now (met r script)

theorem course_eq (c : Client) (r : Request) (now : Nat) (script : List RoundTrip) :
    c.course r now script =
      { c.run r now script with
        happenings := (c.run r now script).happenings.flatMap poolNotes } := by
  unfold course run met
  cases refusal? r.head.uri <;> rfl

theorem paced_run (c : Client) (r : Request) (now : Nat) (script : List RoundTrip) :
    Paced (met r script) now (c.run r now script) :=
  c.policy.paced_sendFrom r 0 0 now _

/-- The instant at which a run that ends by itself, the limit or the scope gives the answer. -/
def answeredAt (c : Client) (now finished : Nat) : Option (Nat × Cause) → Nat
  | some (at_, _) => min (min finished (now + c.timeout)) (max now at_)
  | none => min finished (now + c.timeout)

theorem answeredAt_le_limit (c : Client) (now finished : Nat) (scope : Option (Nat × Cause)) :
    c.answeredAt now finished scope ≤ now + c.timeout := by
  cases scope <;> simp only [answeredAt] <;> omega

theorem le_answeredAt {finished : Nat} (h : now ≤ finished) (c : Client)
    (scope : Option (Nat × Cause)) : now ≤ c.answeredAt now finished scope := by
  cases scope <;> simp only [answeredAt] <;> omega

/-- What is noted of a happening has its instant. -/
theorem instant_of_mem_poolNotes {h note : Nat × Happening} (hMem : note ∈ poolNotes h) :
    note.1 = h.1 := by
  obtain ⟨at_, happening⟩ := h
  cases happening with
  | attempt a => rw [List.mem_singleton.mp hMem]
  | noted entry => rw [List.mem_singleton.mp hMem]
  | poolClosed => obtain rfl | ⟨-, rfl⟩ := List.mem_pair.mp hMem <;> rfl

theorem filter_flatMap_poolNotes (happenings : List (Nat × Happening)) (at_ : Nat) :
    (happenings.flatMap poolNotes).filter (·.1 ≤ at_) =
      (happenings.filter (·.1 ≤ at_)).flatMap poolNotes := by
  induction happenings with
  | nil => rfl
  | cons h rest ih =>
    rw [List.flatMap_cons, List.filter_append, ih]
    by_cases hUpTo : h.1 ≤ at_
    · have hAll : (poolNotes h).filter (·.1 ≤ at_) = poolNotes h :=
        List.filter_eq_self.mpr fun note hMem => by
          rw [instant_of_mem_poolNotes hMem]
          exact decide_eq_true hUpTo
      rw [hAll, List.filter_cons, if_pos (decide_eq_true hUpTo), List.flatMap_cons]
    · have hNone : (poolNotes h).filter (·.1 ≤ at_) = [] :=
        List.filter_eq_nil_iff.mpr fun note hMem => by
          rw [instant_of_mem_poolNotes hMem, decide_eq_true_eq]
          exact hUpTo
      rw [hNone, List.filter_cons, if_neg (by rwa [decide_eq_true_eq]), List.nil_append]

/-- A run and its notes are over by the end of the run. -/
theorem le_finished_of_mem_course {h : Nat × Happening}
    (hMem : h ∈ (c.course r now script).happenings) : h.1 ≤ (c.run r now script).finished := by
  rw [course_eq] at hMem
  obtain ⟨happened, hRun, hNote⟩ := List.mem_flatMap.mp hMem
  rw [instant_of_mem_poolNotes hNote]
  exact ((paced_run c r now script).within happened hRun).2

theorem finished_course (c : Client) (r : Request) (now : Nat) (script : List RoundTrip) :
    (c.course r now script).finished = (c.run r now script).finished := by
  rw [course_eq]

theorem result_course (c : Client) (r : Request) (now : Nat) (script : List RoundTrip) :
    (c.course r now script).result = (c.run r now script).result := by
  rw [course_eq]

/-! ### Without a scope -/

theorem send_none_of_le (h : (c.run r now script).finished ≤ now + c.timeout) :
    c.send r now script none = c.course r now script := by
  rw [← finished_course] at h
  simp only [send, if_pos h]

theorem send_none_of_gt (h : now + c.timeout < (c.run r now script).finished) :
    c.send r now script none =
      (c.course r now script).cutOff script (now + c.timeout) (.timeout c.timeout) := by
  rw [← finished_course] at h
  simp only [send, if_neg (Nat.not_le.mpr h)]

/-- The limit gives the answer, or else the run itself does. -/
theorem send_none_spec (c : Client) (r : Request) (now : Nat) (script : List RoundTrip) :
    (c.send r now script none).finished =
        min (c.run r now script).finished (now + c.timeout) ∧
      (c.send r now script none).happenings =
        (c.course r now script).happenings.filter
          (·.1 ≤ min (c.run r now script).finished (now + c.timeout)) := by
  rcases Nat.lt_or_ge (now + c.timeout) (c.run r now script).finished with hLate | hInTime
  · rw [send_none_of_gt hLate, Nat.min_eq_right (Nat.le_of_lt hLate)]
    exact ⟨rfl, rfl⟩
  · rw [send_none_of_le hInTime, Nat.min_eq_left hInTime, finished_course]
    refine ⟨rfl, (List.filter_eq_self.mpr fun h hMem => ?_).symm⟩
    exact decide_eq_true (le_finished_of_mem_course hMem)

/-! ### Under a scope -/

theorem send_some_of_lt (h : max now at_ < (c.send r now script none).finished) :
    c.send r now script (some (at_, cause)) =
      (c.send r now script none).cutOff script (max now at_) (.cancelled cause) :=
  if_pos h

theorem send_some_of_ge (h : (c.send r now script none).finished ≤ max now at_) :
    c.send r now script (some (at_, cause)) = c.send r now script none :=
  if_neg (Nat.not_lt.mpr h)

/-- What a client does is what the run does until the answer is there, and no more. -/
theorem send_spec (c : Client) (r : Request) (now : Nat) (script : List RoundTrip)
    (scope : Option (Nat × Cause)) :
    (c.send r now script scope).finished = c.answeredAt now (c.run r now script).finished scope ∧
      (c.send r now script scope).happenings =
        (c.course r now script).happenings.filter
          (·.1 ≤ c.answeredAt now (c.run r now script).finished scope) := by
  obtain ⟨hFinished, hHappenings⟩ := send_none_spec c r now script
  cases scope with
  | none => exact ⟨hFinished, hHappenings⟩
  | some ending =>
    obtain ⟨at_, cause⟩ := ending
    simp only [answeredAt, ← hFinished] at hHappenings ⊢
    rcases Nat.lt_or_ge (max now at_) (c.send r now script none).finished with hEnds | hLater
    · rw [send_some_of_lt hEnds, Nat.min_eq_right (Nat.le_of_lt hEnds)]
      refine ⟨rfl, ?_⟩
      rw [Sending.cutOff, hHappenings, filter_upTo_filter (Nat.le_of_lt hEnds)]
    · rw [send_some_of_ge hLater, Nat.min_eq_left hLater]
      exact ⟨rfl, hHappenings⟩

theorem result_send_none (c : Client) (r : Request) (now : Nat) (script : List RoundTrip) :
    (c.send r now script none).result =
      if (c.run r now script).finished ≤ now + c.timeout then (c.run r now script).result
      else .error (.timeout c.timeout) := by
  split
  · next hInTime => rw [send_none_of_le hInTime, result_course]
  · next hLate =>
    rw [send_none_of_gt (Nat.lt_of_not_le hLate)]
    rfl

theorem result_send_some (c : Client) (r : Request) (now : Nat) (script : List RoundTrip)
    (at_ : Nat) (cause : Cause) :
    (c.send r now script (some (at_, cause))).result =
      if max now at_ < min (c.run r now script).finished (now + c.timeout) then
        .error (.cancelled cause)
      else (c.send r now script none).result := by
  rw [← (send_none_spec c r now script).1]
  split
  · next hEnds =>
    rw [send_some_of_lt hEnds]
    rfl
  · next hLater => rw [send_some_of_ge (Nat.le_of_not_lt hLater)]

/-- A run that ends first is all there is. -/
theorem send_of_in_time (hInTime : (c.run r now script).finished ≤ now + c.timeout)
    (hScope : ∀ at_ cause, scope = some (at_, cause) → (c.run r now script).finished < at_) :
    c.send r now script scope = c.course r now script := by
  cases scope with
  | none => exact send_none_of_le hInTime
  | some ending =>
    obtain ⟨at_, cause⟩ := ending
    have hLater := hScope at_ cause rfl
    rw [send_some_of_ge, send_none_of_le hInTime]
    rw [send_none_of_le hInTime, finished_course]
    omega

/-- Closing the pool is no round trip. -/
theorem roundTrips_poolNotes (h : Nat × Happening) :
    (poolNotes h).filterMap roundTrip? = (roundTrip? h).toList := by
  obtain ⟨at_, happening⟩ := h
  cases happening <;> rfl

theorem roundTrips_course (c : Client) (r : Request) (now : Nat) (script : List RoundTrip) :
    (c.course r now script).roundTrips = (c.run r now script).roundTrips := by
  rw [course_eq, Sending.roundTrips, Sending.roundTrips, List.filterMap_flatMap]
  simp only [roundTrips_poolNotes]
  exact (List.filterMap_eq_flatMap_toList _ _).symm

theorem roundTrips_send (c : Client) (r : Request) (now : Nat) (script : List RoundTrip)
    (scope : Option (Nat × Cause)) :
    (c.send r now script scope).roundTrips =
      (c.run r now script).roundTrips.filter (·.1 ≤ (c.send r now script scope).finished) := by
  obtain ⟨hFinished, hHappenings⟩ := send_spec c r now script scope
  rw [← roundTrips_course, hFinished, Sending.roundTrips, hHappenings, Sending.roundTrips,
    List.filterMap_filter, List.filter_filterMap]
  refine List.filterMap_congr fun h _ => ?_
  obtain ⟨at_, happening⟩ := h
  cases happening <;> simp [roundTrip?, Happening.attempt?, Option.filter]

/-! ### Every client -/

/-- The same happens, at the same instants, and the same answer is given. -/
def Alike (s t : Sending) : Prop :=
  s.happenings = t.happenings ∧ s.finished = t.finished ∧ s.result = t.result

theorem sameUntil_run {later : List RoundTrip} (c : Client) (r : Request) (now : Nat)
    (hLong : c.timeout < elapsed script script.length) :
    SameUntil (now + c.timeout) (c.run r now (script ++ later)) (c.run r now script) := by
  unfold run met
  cases refusal? r.head.uri with
  | some e => exact ⟨rfl, .inl ⟨rfl, rfl⟩⟩
  | none =>
    have hSame := c.policy.sameUntil_sendFrom r 0 0 now later [] (Nat.add_lt_add_left hLong now)
    rw [List.append_nil] at hSame
    exact hSame

/-- Runs that are the same up to the limit give the same answer. -/
theorem alike_of_sameUntil {script' : List RoundTrip}
    (h : SameUntil (now + c.timeout) (c.run r now script) (c.run r now script'))
    (scope : Option (Nat × Cause)) :
    Alike (c.send r now script scope) (c.send r now script' scope) := by
  obtain ⟨hFinished, hHappenings⟩ := send_spec c r now script scope
  obtain ⟨hFinished', hHappenings'⟩ := send_spec c r now script' scope
  have hMin : min (c.run r now script).finished (now + c.timeout) =
      min (c.run r now script').finished (now + c.timeout) := by
    obtain ⟨hSame, -⟩ | hLate := h.ending <;> omega
  have hAnswer : c.answeredAt now (c.run r now script).finished scope =
      c.answeredAt now (c.run r now script').finished scope := by
    cases scope <;> simp only [answeredAt, hMin]
  have hResult : (c.send r now script none).result = (c.send r now script' none).result := by
    rw [result_send_none, result_send_none]
    obtain ⟨hSame, hResult⟩ | ⟨hLate, hLate'⟩ := h.ending
    · rw [hSame, hResult]
    · rw [if_neg (Nat.not_le.mpr hLate), if_neg (Nat.not_le.mpr hLate')]
  refine ⟨?_, by rw [hFinished, hFinished', hAnswer], ?_⟩
  · -- What is kept lies within the limit, where both runs are the same.
    have hWithin := c.answeredAt_le_limit now (c.run r now script').finished scope
    rw [hHappenings, hHappenings', hAnswer, course_eq, course_eq, filter_flatMap_poolNotes,
      filter_flatMap_poolNotes, h.upTo hWithin]
  · cases scope with
    | none => exact hResult
    | some ending => rw [result_send_some, result_send_some, hMin, hResult]

/-- Which answer a caller gets, and when. The run is what the retries alone would do. Where a scope
ends at the very instant of the answer that there would be without it, nothing is said. -/
structure Answered (c : Client) (r : Request) (now : Nat) (script : List RoundTrip)
    (scope : Option (Nat × Cause)) : Prop where
  /-- A run that ends by the limit, and before the scope does, gives its result as it ends. -/
  inTime : (c.run r now script).finished ≤ now + c.timeout →
    (∀ at_ cause, scope = some (at_, cause) → (c.run r now script).finished < at_) →
    (c.send r now script scope).result = (c.run r now script).result ∧
      (c.send r now script scope).finished = (c.run r now script).finished ∧
      (c.send r now script scope).roundTrips = (c.run r now script).roundTrips
  /-- A run that is still going at the limit is given up there, if the scope has not ended. -/
  timedOut : now + c.timeout < (c.run r now script).finished →
    (∀ at_ cause, scope = some (at_, cause) → now + c.timeout < at_) →
    (c.send r now script scope).result = .error (.timeout c.timeout) ∧
      (c.send r now script scope).finished = now + c.timeout
  /-- A scope that ends before the run and before the limit ends the send with its cause. One that
  ended before the send ends it at once. -/
  cancelled : ∀ at_ cause, scope = some (at_, cause) →
    max now at_ < (c.run r now script).finished → max now at_ < now + c.timeout →
    (c.send r now script scope).result = .error (.cancelled cause) ∧
      (c.send r now script scope).finished = max now at_
  /-- The round trips are those of the run, and none begins after the answer. -/
  roundTrips : (c.send r now script scope).roundTrips =
    (c.run r now script).roundTrips.filter (·.1 ≤ (c.send r now script scope).finished)
  /-- All round trips of a run together take the time, whatever they are made for. -/
  paced : Paced (met r script) now (c.run r now script)
  bounded : now ≤ (c.send r now script scope).finished ∧
    (c.send r now script scope).finished ≤ now + c.timeout
  /-- What the peers would have done after the limit plays no part in the answer. -/
  settled : c.timeout < elapsed script script.length → ∀ later,
    Alike (c.send r now (script ++ later) scope) (c.send r now script scope)

end Client

open Client

/-- Every client answers every request by its time limit, which is counted once for all round
trips. The run, the limit and the scope each give the answer where they are first. -/
theorem answered_in_time (c : Client) (r : Request) (now : Nat) (script : List RoundTrip)
    (scope : Option (Nat × Cause)) : c.Answered r now script scope := by
  have hPaced := paced_run c r now script
  have hFinished := (send_spec c r now script scope).1
  constructor
  case inTime =>
    intro hInTime hScope
    rw [send_of_in_time hInTime hScope]
    exact ⟨result_course c r now script, finished_course c r now script,
      roundTrips_course c r now script⟩
  case timedOut =>
    intro hLate hScope
    have hNone : (c.send r now script none).result = .error (.timeout c.timeout) := by
      rw [result_send_none, if_neg (Nat.not_le.mpr hLate)]
    rw [hFinished]
    cases scope with
    | none => exact ⟨hNone, Nat.min_eq_right (Nat.le_of_lt hLate)⟩
    | some ending =>
      have hLater := hScope ending.1 ending.2 rfl
      rw [result_send_some, if_neg (by omega), answeredAt]
      exact ⟨hNone, by omega⟩
  case cancelled =>
    intro at_ cause hScope hBeforeRun hBeforeLimit
    subst hScope
    rw [hFinished, result_send_some, if_pos (by omega), answeredAt]
    exact ⟨rfl, by omega⟩
  case roundTrips => exact roundTrips_send c r now script scope
  case paced => exact hPaced
  case bounded =>
    rw [hFinished]
    exact ⟨le_answeredAt hPaced.begun_le c scope, c.answeredAt_le_limit _ _ scope⟩
  case settled =>
    intro hLong later
    exact alike_of_sameUntil (sameUntil_run c r now hLong) scope

/-- Nine connections that have all expired, each found so after a while. -/
def worn : List RoundTrip := List.replicate 9 ⟨.error (.expired ⟨61, 60⟩), 3⟩

/-- Retries that cost nothing are cut off by the limit, or by a scope that ends before it, and a
limit that is long enough leaves them alone. -/
theorem answered_in_time_expired_connections :
    ((Client.mk 10 ⟨0⟩).send order 0 worn none).result = .error (.timeout 10) ∧
    ((Client.mk 10 ⟨0⟩).send order 0 worn none).finished = 10 ∧
    ((Client.mk 10 ⟨0⟩).send order 0 worn (some (7, .cancelled))).result =
      .error (.cancelled .cancelled) ∧
    ((Client.mk 10 ⟨0⟩).send order 0 worn (some (7, .cancelled))).roundTrips.map (·.1) =
      [0, 3, 6] ∧
    ((Client.mk 27 ⟨0⟩).send order 0 worn (some (28, .cancelled))).result =
      .ok ⟨200, [], .text ""⟩ := by
  have hLimit := (answered_in_time ⟨10, ⟨0⟩⟩ order 0 worn none).timedOut (by decide) (by simp)
  have hScope := answered_in_time ⟨10, ⟨0⟩⟩ order 0 worn (some (7, .cancelled))
  have hEnded := hScope.cancelled 7 .cancelled rfl (by decide) (by decide)
  have hInTime := (answered_in_time ⟨27, ⟨0⟩⟩ order 0 worn (some (28, .cancelled))).inTime
    (by decide) fun at_ cause hSome => by
      cases hSome
      decide
  exact ⟨hLimit.1, hLimit.2, hEnded.1, by rw [hScope.roundTrips, hEnded.2]; rfl, hInTime.1⟩

end Gatehouse.Outbound
