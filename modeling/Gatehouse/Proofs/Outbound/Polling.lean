import Gatehouse.Proofs.Clock
import Gatehouse.Proofs.Outbound.Deadline

/-!
# A send that is polled

A send can also be seen as a task that is polled. It goes on as far as it can and then waits for the
answer of a peer. Who asks for it polls the task, looks at the limit and then at the scope, whenever
one of them may have something to say. The limit is an instant that is fixed at the start. What is
answered in this way, and all that happens until then, is what `Client.send` says.

* `Task`, `Task.whole`: what a send has still to do, and all that comes of it.
* `RetryPolicy.taskFrom`: the attempts of a request as a task; `whole_taskFrom`.
* `Race.poll`, `Race.Course`: a look at the task, the limit and the scope, and looks in any number.
* `Client.send_as_polled`: every course comes to the answer of the client.
-/

namespace Gatehouse.Outbound

/-! ## Tasks -/

/-- What a send has still to do. -/
inductive Task where
  | done (result : Except SendError Http.Response) (rest : List RoundTrip)
  | tells (what : List Happening) (next : Task)
  /-- Waits for the answer of a peer. -/
  | awaits (duration : Nat) (next : Task)

/-- A task that cannot go on for now: it is woken up at an instant, or it is over. -/
inductive Progress where
  | waits (wake : Nat) (next : Task)
  | done (result : Except SendError Http.Response) (rest : List RoundTrip)

namespace Task

/-- All that comes of a task from an instant on, if nobody stops it. -/
def whole (now : Nat) : Task → Sending
  | done result rest => ⟨[], now, result, rest⟩
  | tells what next => (next.whole now).preceded now what
  | awaits duration next => next.whole (now + duration)

/-- Goes on at an instant as far as it can. -/
def go (now : Nat) : Task → List Happening × Progress
  | done result rest => ([], .done result rest)
  | tells what next => (what ++ (next.go now).1, (next.go now).2)
  | awaits duration next =>
    if duration = 0 then next.go now else ([], .waits (now + duration) next)

end Task

/-- All that comes of it later, if nobody stops it. -/
def Progress.whole (now : Nat) : Progress → Sending
  | waits wake next => next.whole wake
  | done result rest => ⟨[], now, result, rest⟩

variable {now : Nat} {t : Task}

theorem Sending.preceded_append (s : Sending) (at_ : Nat) (first second : List Happening) :
    (s.preceded at_ second).preceded at_ first = s.preceded at_ (first ++ second) := by
  simp [preceded]

/-- To go on changes nothing in what comes of a task, and tells a part of it. -/
theorem Task.whole_go (t : Task) (now : Nat) :
    t.whole now = ((t.go now).2.whole now).preceded now (t.go now).1 := by
  induction t with
  | done result rest => rfl
  | tells what next ih => rw [whole, go, ih, Sending.preceded_append]
  | awaits duration next ih =>
    rw [whole, go]
    split
    · next hNone => rw [hNone, Nat.add_zero, ih]
    · rfl

theorem Task.lt_wake_of_go {wake : Nat} {next : Task} (h : (t.go now).2 = .waits wake next) :
    now < wake := by
  induction t with
  | done result rest => cases h
  | tells what next ih => exact ih h
  | awaits duration next ih =>
    rw [go] at h
    split at h
    · exact ih h
    · next hSome =>
      cases h
      omega

theorem Task.le_finished (t : Task) (now : Nat) : now ≤ (t.whole now).finished := by
  induction t generalizing now with
  | done result rest => exact Nat.le_refl now
  | tells what next ih => exact ih now
  | awaits duration next ih => exact Nat.le_trans (Nat.le_add_right now duration) (ih _)

theorem Task.le_of_mem_whole {h : Nat × Happening} (hMem : h ∈ (t.whole now).happenings) :
    now ≤ h.1 := by
  induction t generalizing now with
  | done result rest => cases hMem
  | tells what next ih =>
    rcases List.mem_append.mp hMem with hHere | hLater
    · obtain ⟨-, -, rfl⟩ := List.mem_map.mp hHere
      exact Nat.le_refl now
    · exact ih hLater
  | awaits duration next ih => exact Nat.le_trans (Nat.le_add_right now duration) (ih hMem)

/-! ## The attempts of a request -/

namespace RetryPolicy

/-- The last round trip as a task. -/
def finalTask (r : Request) (n : Nat) (script : List RoundTrip) : Task :=
  match r.attempt? n with
  | none => .done (.error .bodyNotReplayable) script
  | some attempt =>
    let trip := script.head?.getD .standard
    .tells [.attempt attempt]
      (.awaits trip.duration (.done (trip.result.mapError .request) script.tail))

/-- A send that has made `n` round trips and spent `retries` of its budget, as a task. -/
def taskFrom (policy : RetryPolicy) (r : Request) (n retries : Nat) : List RoundTrip → Task
  | [] => finalTask r n []
  | trip :: script =>
    match r.attempt? n with
    | none => .done (.error .bodyNotReplayable) (trip :: script)
    | some attempt =>
      .tells [.attempt attempt] <| .awaits trip.duration <|
        match trip.result with
        | .ok response => .done (.ok response) script
        | .error e =>
          match e.classify with
          | .expired => .tells (expiredNotes r) (taskFrom policy r (n + 1) retries script)
          | .transient reason =>
            if retries < policy.maxRetries then
              .tells (transientNotes policy r reason (retries + 1))
                (taskFrom policy r (n + 1) (retries + 1) script)
            else .tells (exhaustedNotes r e retries) (finalTask r (n + 1) script)
          | .permanent => .done (.error (.request e)) script

theorem whole_finalTask (r : Request) (n now : Nat) (script : List RoundTrip) :
    (finalTask r n script).whole now = finalAttempt r n now script := by
  unfold finalTask finalAttempt
  cases r.attempt? n <;> rfl

/-- The task does what the send says, from whatever instant it begins at. -/
theorem whole_taskFrom (policy : RetryPolicy) (r : Request) (n retries now : Nat)
    (script : List RoundTrip) :
    (policy.taskFrom r n retries script).whole now = policy.sendFrom r n retries now script := by
  induction script generalizing n retries now with
  | nil => exact whole_finalTask r n now []
  | cons trip script ih =>
    unfold taskFrom sendFrom
    cases r.attempt? n with
    | none => rfl
    | some attempt =>
      simp only [Task.whole]
      congr 1
      cases trip.result with
      | ok response => rfl
      | error e =>
        simp only
        cases e.classify with
        | expired => simp only [Task.whole, ih]
        | transient reason =>
          simp only
          split
          · simp only [Task.whole, ih]
          · simp only [Task.whole, whole_finalTask]
        | permanent => rfl

end RetryPolicy

/-! ## Who is first -/

/-- A task and what may come before its end, as those see it who ask for the answer. -/
structure Race where
  now : Nat
  timeout : Nat
  /-- The instant at which the time is over. -/
  limit : Nat
  scope : Option (Nat × Cause)
  progress : Progress
  happenings : List (Nat × Happening)
  answer : Option (Nat × Except SendError Http.Response)

namespace Race

/-- Polls the task. -/
def advance (s : Race) : Race :=
  match s.progress with
  | .waits wake next =>
    if wake ≤ s.now then
      { s with
        progress := (next.go s.now).2
        happenings :=
          s.happenings ++ ((next.go s.now).1.map (s.now, ·)).flatMap Client.poolNotes }
    else s
  | .done _ _ => s

def give (s : Race) (result : Except SendError Http.Response) : Race :=
  { s with answer := some (s.now, result) }

/-- Looks for an answer: first to the task, then to the limit, then to the scope. Once there is an
answer nobody looks any more. -/
def poll (s : Race) : Race :=
  match s.answer with
  | some _ => s
  | none =>
    let s := s.advance
    match s.progress with
    | .done result _ => s.give result
    | .waits _ _ =>
      if s.limit ≤ s.now then s.give (.error (.timeout s.timeout))
      else match s.scope with
        | some (at_, cause) => if at_ ≤ s.now then s.give (.error (.cancelled cause)) else s
        | none => s

/-- What wakes up those who wait for the answer. -/
def timers (s : Race) : List Nat :=
  match s.answer, s.progress with
  | none, .waits wake _ => wake :: s.limit :: (s.scope.map (·.1)).toList
  | _, _ => []

inductive Move where
  | poll
  | clock (now : Nat)

def move (s : Race) : Move → Race
  | .poll => s.poll
  | .clock now => { s with now := now }

/-- The clock goes on when no timer is left that has rung, and stops at the next one. -/
def Admits (s : Race) : Move → Prop
  | .poll => True
  | .clock now => s.now ≤ now ∧ ∀ timer ∈ s.timers, s.now < timer ∧ now ≤ timer

inductive Course (begun : Race) : Race → Prop where
  | begun : Course begun begun
  | move {s : Race} (h : Course begun s) (m : Move) (hAdmits : s.Admits m) :
    Course begun (s.move m)

/-- The answer has been given, and what happened is all that ever will. -/
def Gives (s : Race) (sent : Sending) : Prop :=
  s.answer = some (sent.finished, sent.result) ∧ s.happenings = sent.happenings

/-- Nobody has an answer, and nothing is left that would have to be looked at now. -/
def Ahead (s : Race) : Prop := ∀ timer ∈ s.timers, s.now < timer

theorem Gives.poll {s : Race} {sent : Sending} (h : s.Gives sent) : s.poll = s := by
  unfold Race.poll
  rw [h.1]

theorem timers_of_answer {s : Race} {answer : Nat × Except SendError Http.Response}
    (h : s.answer = some answer) : s.timers = [] := by
  unfold timers
  rw [h]

/-- A look leaves everything as it is, or the task is polled and perhaps an answer given. -/
theorem poll_cases (s : Race) :
    s.poll = s ∨ s.poll = s.advance ∨ ∃ result, s.poll = s.advance.give result := by
  unfold poll
  cases s.answer with
  | some _ => exact .inl rfl
  | none =>
    refine .inr ?_
    dsimp only
    split
    · exact .inr ⟨_, rfl⟩
    · split
      · exact .inr ⟨_, rfl⟩
      · split
        · split
          · exact .inr ⟨_, rfl⟩
          · exact .inl rfl
        · exact .inl rfl

/-- No look takes time, and none moves the limit. -/
theorem poll_fixed (s : Race) : s.poll.now = s.now ∧ s.poll.limit = s.limit := by
  have hAdvance : s.advance.now = s.now ∧ s.advance.limit = s.limit := by
    unfold advance
    split
    · split <;> exact ⟨rfl, rfl⟩
    · exact ⟨rfl, rfl⟩
  rcases s.poll_cases with hPoll | hPoll | ⟨result, hPoll⟩
  · rw [hPoll]
    exact ⟨rfl, rfl⟩
  · rw [hPoll]
    exact hAdvance
  · rw [hPoll]
    exact hAdvance

theorem Course.limit {begun s : Race} (h : Course begun s) : s.limit = begun.limit := by
  induction h with
  | begun => rfl
  | move _ m _ ih =>
    cases m with
    | poll => exact (poll_fixed _).2.trans ih
    | clock now => exact ih

/-- The clock of the library: time stands still until everybody has looked. -/
def due (s : Race) : Option Nat := Clock.earliest (s.timers.map some)

def fire (now : Nat) (s : Race) : Race := { s with now := now }.poll

end Race

namespace Client

/-- A request that is about to be sent. The limit is fixed here, once for all round trips. -/
def ask (c : Client) (r : Request) (now : Nat) (script : List RoundTrip)
    (scope : Option (Nat × Cause)) : Race :=
  ⟨now, c.timeout, now + c.timeout, scope,
    .waits now (c.policy.taskFrom r 0 0 (met r script)), [], none⟩

/-- What was polled so far and what is left make up the run, and it is not later than the answer. -/
structure Follows (c : Client) (r : Request) (begun : Nat) (script : List RoundTrip)
    (scope : Option (Nat × Cause)) (s : Race) : Prop where
  same : s.timeout = c.timeout ∧ s.limit = begun + c.timeout ∧ s.scope = scope
  begun_le : begun ≤ s.now
  le_answeredAt : s.now ≤ c.answeredAt begun (c.run r begun script).finished scope
  finished : (c.run r begun script).finished = (s.progress.whole s.now).finished
  result : (c.run r begun script).result = (s.progress.whole s.now).result
  happenings : (c.course r begun script).happenings =
    s.happenings ++ (s.progress.whole s.now).happenings.flatMap poolNotes
  past : ∀ h ∈ s.happenings, h.1 ≤ s.now

/-- There is no answer yet, and the task is not late. -/
structure Awaits (c : Client) (r : Request) (begun : Nat) (script : List RoundTrip)
    (scope : Option (Nat × Cause)) (s : Race) : Prop extends c.Follows r begun script scope s where
  answer : s.answer = none
  wake : ∃ wake next, s.progress = .waits wake next ∧ s.now ≤ wake

variable {c : Client} {r : Request} {begun : Nat} {script : List RoundTrip}
  {scope : Option (Nat × Cause)} {s : Race}

theorem awaits_ask (c : Client) (r : Request) (begun : Nat) (script : List RoundTrip)
    (scope : Option (Nat × Cause)) :
    c.Awaits r begun script scope (c.ask r begun script scope) := by
  have hWhole : (c.policy.taskFrom r 0 0 (met r script)).whole begun = c.run r begun script :=
    c.policy.whole_taskFrom r 0 0 begun (met r script)
  have hBegun := le_answeredAt (paced_run c r begun script).begun_le c scope
  refine ⟨⟨⟨rfl, rfl, rfl⟩, Nat.le_refl _, hBegun, ?_, ?_, ?_, nofun⟩, rfl,
    ⟨_, _, rfl, Nat.le_refl _⟩⟩
  · exact congrArg Sending.finished hWhole.symm
  · exact congrArg Sending.result hWhole.symm
  · rw [course_eq, ask, Progress.whole, hWhole, List.nil_append]

/-- The answer is not later than what is left of the run, the limit and the scope. -/
theorem Follows.le_limit (h : c.Follows r begun script scope s) : s.now ≤ begun + c.timeout :=
  Nat.le_trans h.le_answeredAt (c.answeredAt_le_limit _ _ scope)

theorem Follows.le_scope {at_ : Nat} {cause : Cause}
    (h : c.Follows r begun script (some (at_, cause)) s) : s.now ≤ max begun at_ := by
  have hAnswered := h.le_answeredAt
  simp only [answeredAt] at hAnswered
  omega

/-- Where all that is left comes later, what has happened is what happens until now. -/
theorem Follows.kept (h : c.Follows r begun script scope s)
    (hLater : ∀ e ∈ (s.progress.whole s.now).happenings, s.now < e.1) :
    (c.course r begun script).happenings.filter (·.1 ≤ s.now) = s.happenings := by
  have hPast : s.happenings.filter (·.1 ≤ s.now) = s.happenings :=
    List.filter_eq_self.mpr fun e hMem => decide_eq_true (h.past e hMem)
  have hRest : (s.progress.whole s.now).happenings.filter (·.1 ≤ s.now) = [] :=
    List.filter_eq_nil_iff.mpr fun e hMem => by
      rw [decide_eq_true_eq]
      exact Nat.not_le.mpr (hLater e hMem)
  rw [h.happenings, List.filter_append, hPast, filter_flatMap_poolNotes, hRest, List.flatMap_nil,
    List.append_nil]

/-- An answer that is given now, with the result of the client, is that of the client. -/
theorem Follows.gives (h : c.Follows r begun script scope s)
    (hLater : ∀ e ∈ (s.progress.whole s.now).happenings, s.now < e.1)
    (hNow : c.answeredAt begun (c.run r begun script).finished scope = s.now)
    {result : Except SendError Http.Response}
    (hResult : (c.send r begun script scope).result = result) :
    (s.give result).Gives (c.send r begun script scope) := by
  obtain ⟨hFinished, hHappenings⟩ := send_spec c r begun script scope
  rw [hNow] at hFinished hHappenings
  refine ⟨?_, ?_⟩
  · rw [hFinished, hResult]
    rfl
  · rw [hHappenings, h.kept hLater]
    rfl

/-! ### Which answer it is -/

theorem answeredAt_le_finished (c : Client) (begun finished : Nat)
    (scope : Option (Nat × Cause)) : c.answeredAt begun finished scope ≤ finished := by
  cases scope <;> simp only [answeredAt] <;> omega

theorem result_send_of_finished
    (h : (c.run r begun script).finished ≤
      c.answeredAt begun (c.run r begun script).finished scope) :
    (c.send r begun script scope).result = (c.run r begun script).result := by
  have hInTime := Nat.le_trans h (c.answeredAt_le_limit _ _ scope)
  have hNone : (c.send r begun script none).result = (c.run r begun script).result := by
    rw [result_send_none, if_pos hInTime]
  cases scope with
  | none => exact hNone
  | some ending =>
    simp only [answeredAt] at h
    rw [result_send_some, if_neg (by omega), hNone]

theorem result_send_of_limit (hLate : begun + c.timeout < (c.run r begun script).finished)
    (h : begun + c.timeout ≤ c.answeredAt begun (c.run r begun script).finished scope) :
    (c.send r begun script scope).result = .error (.timeout c.timeout) := by
  have hNone : (c.send r begun script none).result = .error (.timeout c.timeout) := by
    rw [result_send_none, if_neg (Nat.not_le.mpr hLate)]
  cases scope with
  | none => exact hNone
  | some ending =>
    simp only [answeredAt] at h
    rw [result_send_some, if_neg (by omega), hNone]

/-! ### One look -/

/-- The task is polled at the instant at which it is woken up. What it tells then is what comes next
in the run. -/
theorem Awaits.advance (h : c.Awaits r begun script scope s) :
    c.Follows r begun script scope s.advance ∧ s.advance.now = s.now ∧ s.advance.answer = none ∧
      ∀ wake next, s.advance.progress = .waits wake next → s.now < wake := by
  obtain ⟨wake, next, hProgress, hWake⟩ := h.wake
  by_cases hDue : wake ≤ s.now
  · obtain rfl : wake = s.now := Nat.le_antisymm hDue hWake
    have hAdvance : s.advance =
        { s with
          progress := (next.go s.now).2
          happenings :=
            s.happenings ++ ((next.go s.now).1.map (s.now, ·)).flatMap poolNotes } := by
      unfold Race.advance
      rw [hProgress]
      exact if_pos (Nat.le_refl _)
    have hWhole : s.progress.whole s.now =
        ((next.go s.now).2.whole s.now).preceded s.now (next.go s.now).1 := by
      rw [hProgress]
      exact next.whole_go s.now
    have hFinished := h.finished
    have hResult := h.result
    have hHappenings := h.happenings
    rw [hWhole] at hFinished hResult hHappenings
    rw [hAdvance]
    refine ⟨⟨h.same, h.begun_le, h.le_answeredAt, hFinished, hResult, ?_, ?_⟩, rfl, h.answer,
      fun _ _ => Task.lt_wake_of_go⟩
    · rw [hHappenings, Sending.preceded, List.flatMap_append, List.append_assoc]
    · intro e hMem
      rcases List.mem_append.mp hMem with hPast | hNow
      · exact h.past e hPast
      · obtain ⟨told, hTold, hNote⟩ := List.mem_flatMap.mp hNow
        obtain ⟨_, -, rfl⟩ := List.mem_map.mp hTold
        exact Nat.le_of_eq (instant_of_mem_poolNotes hNote)
  · have hSame : s.advance = s := by
      unfold Race.advance
      rw [hProgress]
      exact if_neg hDue
    rw [hSame]
    refine ⟨h.toFollows, rfl, h.answer, fun wake' next' hThere => ?_⟩
    rw [hProgress] at hThere
    cases hThere
    exact Nat.lt_of_not_le hDue

/-- A look finds the answer of the client, or every timer is still ahead. -/
theorem Awaits.poll (h : c.Awaits r begun script scope s) :
    s.poll.Gives (c.send r begun script scope) ∨
      c.Awaits r begun script scope s.poll ∧ s.poll.Ahead := by
  obtain ⟨hFollows, hNow, hNone, hWake⟩ := h.advance
  unfold Race.poll
  rw [h.answer]
  dsimp only
  generalize s.advance = s' at hFollows hNow hNone hWake ⊢
  obtain ⟨hTimeout, hLimit, hScope⟩ := hFollows.same
  have hLe := hFollows.le_limit
  have hAt := hFollows.le_answeredAt
  cases hProgress : s'.progress with
  | done result rest =>
    have hFinished := hFollows.finished
    have hResult := hFollows.result
    rw [hProgress] at hFinished hResult
    replace hFinished : (c.run r begun script).finished = s'.now := hFinished
    have hLast := c.answeredAt_le_finished begun (c.run r begun script).finished scope
    refine .inl (hFollows.gives ?_ (by omega) ?_)
    · rw [hProgress]
      exact nofun
    · rw [result_send_of_finished (by omega), hResult]
      rfl
  | waits wake next =>
    have hAhead := hWake wake next hProgress
    have hFinished : wake ≤ (c.run r begun script).finished := by
      rw [hFollows.finished, hProgress]
      exact next.le_finished wake
    have hLater : ∀ e ∈ (s'.progress.whole s'.now).happenings, s'.now < e.1 := by
      rw [hProgress]
      intro e hMem
      have hLe := Task.le_of_mem_whole hMem
      omega
    dsimp only
    by_cases hOver : s'.limit ≤ s'.now
    · rw [if_pos hOver]
      have hLast := c.answeredAt_le_limit begun (c.run r begun script).finished scope
      refine .inl (hFollows.gives hLater (by omega) ?_)
      rw [result_send_of_limit (by omega) (by omega), hTimeout]
    · rw [if_neg hOver]
      have hWaits : c.Awaits r begun script scope s' :=
        ⟨hFollows, hNone, wake, next, hProgress, by omega⟩
      have hTimers : s'.timers = wake :: s'.limit :: (scope.map (·.1)).toList := by
        unfold Race.timers
        rw [hNone, hProgress, ← hScope]
      rw [hScope]
      cases scope with
      | none =>
        refine .inr ⟨hWaits, ?_⟩
        rw [Race.Ahead, hTimers]
        simp
        omega
      | some ending =>
        obtain ⟨at_, cause⟩ := ending
        have hWithin := hFollows.le_scope
        have hBegun := hFollows.begun_le
        dsimp only
        split
        · next hEnded =>
          refine .inl (hFollows.gives hLater ?_ ?_)
          · simp only [answeredAt] at hAt ⊢
            omega
          · rw [result_send_some, if_pos (by omega)]
        · next hGoing =>
          refine .inr ⟨hWaits, ?_⟩
          rw [Race.Ahead, hTimers]
          simp
          omega

theorem Awaits.timers (h : c.Awaits r begun script scope s) :
    ∃ wake next, s.progress = .waits wake next ∧
      s.timers = wake :: (begun + c.timeout) :: (scope.map (·.1)).toList := by
  obtain ⟨wake, next, hProgress, -⟩ := h.wake
  obtain ⟨-, hLimit, hScope⟩ := h.same
  refine ⟨wake, next, hProgress, ?_⟩
  unfold Race.timers
  rw [h.answer, hProgress, ← hLimit, ← hScope]

/-- The answer comes with one of the timers, or later. -/
theorem Awaits.le_answeredAt_of_timers (h : c.Awaits r begun script scope s) {now : Nat}
    (hTimers : ∀ timer ∈ s.timers, now ≤ timer) :
    now ≤ c.answeredAt begun (c.run r begun script).finished scope := by
  obtain ⟨wake, next, hProgress, hListed⟩ := h.timers
  simp only [hListed, List.forall_mem_cons] at hTimers
  obtain ⟨hWake, hLimit, hScope⟩ := hTimers
  have hFinished : wake ≤ (c.run r begun script).finished := by
    rw [h.finished, hProgress]
    exact next.le_finished wake
  cases scope with
  | none =>
    simp only [answeredAt]
    omega
  | some ending =>
    have hEnds := hScope ending.1 List.mem_cons_self
    simp only [answeredAt]
    omega

/-- The clock goes on while everybody waits, and not past what they wait for. -/
theorem Awaits.clock (h : c.Awaits r begun script scope s) {now : Nat}
    (hAdmits : s.Admits (.clock now)) : c.Awaits r begun script scope (s.move (.clock now)) := by
  obtain ⟨hOnward, hTimers⟩ := hAdmits
  obtain ⟨wake, next, hProgress, hListed⟩ := h.timers
  have hWhole : s.progress.whole now = s.progress.whole s.now := by
    rw [hProgress]
    rfl
  exact {
    same := h.same
    begun_le := Nat.le_trans h.begun_le hOnward
    le_answeredAt := h.le_answeredAt_of_timers fun timer hMem => (hTimers timer hMem).2
    finished := hWhole ▸ h.finished
    result := hWhole ▸ h.result
    happenings := hWhole ▸ h.happenings
    past := fun e hMem => Nat.le_trans (h.past e hMem) hOnward
    answer := h.answer
    wake := ⟨wake, next, hProgress, (hTimers wake (hListed ▸ List.mem_cons_self)).2⟩ }

/-- The run lemma: there is no answer yet, or it is that of the client. -/
theorem awaits_or_gives (h : Race.Course (c.ask r begun script scope) s) :
    c.Awaits r begun script scope s ∨ s.Gives (c.send r begun script scope) := by
  induction h with
  | begun => exact .inl (awaits_ask c r begun script scope)
  | move _ m hAdmits ih =>
    rcases ih with hAwaits | hGives
    · cases m with
      | poll => exact hAwaits.poll.symm.imp_left And.left
      | clock now => exact .inl (hAwaits.clock hAdmits)
    · refine .inr ?_
      cases m with
      | poll =>
        rw [Race.move, hGives.poll]
        exact hGives
      | clock now => exact hGives

theorem Awaits.isPrefix (h : c.Awaits r begun script scope s) :
    s.happenings <+: (c.send r begun script scope).happenings := by
  have hKept : s.happenings.filter
      (·.1 ≤ c.answeredAt begun (c.run r begun script).finished scope) = s.happenings :=
    List.filter_eq_self.mpr fun e hMem =>
      decide_eq_true (Nat.le_trans (h.past e hMem) h.le_answeredAt)
  rw [(send_spec c r begun script scope).2, h.happenings, List.filter_append, hKept]
  exact List.prefix_append _ _

/-- Where every timer is ahead, the answer is still to come. -/
theorem Awaits.lt_finished (h : c.Awaits r begun script scope s) (hAhead : s.Ahead) :
    s.now < (c.send r begun script scope).finished := by
  rw [(send_spec c r begun script scope).1]
  exact h.le_answeredAt_of_timers hAhead

/-! ### The clock -/

/-- Nobody gives up before the first look, and after every look the timers are ahead. -/
theorem ahead_poll (h : Race.Course (c.ask r begun script scope) s) : s.poll.Ahead := by
  rcases awaits_or_gives h with hAwaits | hGives
  · rcases hAwaits.poll with hGives | ⟨-, hAhead⟩
    · rw [Race.Ahead, Race.timers_of_answer hGives.1]
      exact nofun
    · exact hAhead
  · rw [hGives.poll, Race.Ahead, Race.timers_of_answer hGives.1]
    exact nofun

/-- The clock of the library makes a course, at whose end nothing is left to look at. -/
theorem course_runUntil (c : Client) (r : Request) (script : List RoundTrip)
    (scope : Option (Nat × Cause)) {target : Nat} (hTarget : begun ≤ target) :
    let later := Clock.runUntil Race.due Race.fire begun target (c.ask r begun script scope).poll
    Race.Course (c.ask r begun script scope) later ∧ later.now = target ∧ later.Ahead := by
  have hFire : ∀ now t (s : Race), now ≤ t → (∀ t' ∈ s.due, t' ≤ now ∨ t ≤ t') →
      Race.Course (c.ask r begun script scope) s ∧ s.now = now ∧ s.Ahead →
        Race.Course (c.ask r begun script scope) (Race.fire t s) ∧ (Race.fire t s).now = t ∧
          (Race.fire t s).Ahead := by
    rintro _ t s hLater hDue ⟨hCourse, rfl, hAhead⟩
    have hAdmits : s.Admits (.clock t) := by
      refine ⟨hLater, fun timer hMem => ⟨hAhead timer hMem, ?_⟩⟩
      cases hFirst : s.due with
      | none => cases Clock.earliest_eq_none.mp hFirst _ (List.mem_map_of_mem hMem)
      | some first =>
        obtain ⟨hOwn, hLeast⟩ := Clock.earliest_spec hFirst
        obtain ⟨mine, hMine, hSame⟩ := List.mem_map.mp hOwn
        obtain rfl : mine = first := Option.some.inj hSame
        have hAheadOf := hAhead mine hMine
        have hNotPassed := hDue mine hFirst
        have hNotLater := hLeast timer (List.mem_map_of_mem hMem)
        omega
    have hMoved := hCourse.move (.clock t) hAdmits
    exact ⟨hMoved.move .poll trivial, (Race.poll_fixed _).1, ahead_poll hMoved⟩
  exact Clock.runUntil_onward hFire hTarget
    ⟨Race.Course.begun.move .poll trivial, (Race.poll_fixed _).1, ahead_poll .begun⟩

/-- A request that is polled, in any course, is answered as `Client.send` says, and all that happens
until then is what happens there. As long as there is no answer, what has happened is a beginning of
it, and the answer is still to come if nothing is left to look at. The limit stays as it was fixed
at the start, whatever attempts are made. The clock of the library makes a course that has come to
the answer by the limit. -/
theorem send_as_polled (c : Client) (r : Request) (begun : Nat) (script : List RoundTrip)
    (scope : Option (Nat × Cause)) :
    let asked := c.ask r begun script scope
    let sent := c.send r begun script scope
    (∀ s, Race.Course asked s →
      s.limit = begun + c.timeout ∧
      (∀ answer, s.answer = some answer →
        answer = (sent.finished, sent.result) ∧ s.happenings = sent.happenings) ∧
      (s.answer = none → s.happenings <+: sent.happenings ∧ s.now ≤ sent.finished ∧
        (s.Ahead → s.now < sent.finished))) ∧
    ∀ target, begun + c.timeout ≤ target →
      let later := Clock.runUntil Race.due Race.fire begun target asked.poll
      Race.Course asked later ∧ later.answer = some (sent.finished, sent.result) := by
  intro asked sent
  refine ⟨fun s hCourse => ⟨hCourse.limit, fun answer hAnswer => ?_, fun hNone => ?_⟩,
    fun target hTarget => ?_⟩
  · rcases awaits_or_gives hCourse with hAwaits | hGives
    · rw [hAwaits.answer] at hAnswer
      cases hAnswer
    · exact ⟨Option.some.inj (hAnswer.symm.trans hGives.1), hGives.2⟩
  · rcases awaits_or_gives hCourse with hAwaits | hGives
    · refine ⟨hAwaits.isPrefix, ?_, hAwaits.lt_finished⟩
      rw [(send_spec c r begun script scope).1]
      exact hAwaits.le_answeredAt
    · rw [hGives.1] at hNone
      cases hNone
  · obtain ⟨hCourse, hNow, hAhead⟩ := course_runUntil c r script scope
      (Nat.le_trans (Nat.le_add_right begun c.timeout) hTarget)
    refine ⟨hCourse, ?_⟩
    rcases awaits_or_gives hCourse with hAwaits | hGives
    · have hLate := hAwaits.lt_finished hAhead
      have hLimit := c.answeredAt_le_limit begun (c.run r begun script).finished scope
      rw [(send_spec c r begun script scope).1] at hLate
      omega
    · exact hGives.1

end Client

end Gatehouse.Outbound
