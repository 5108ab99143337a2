import Gatehouse.Pipeline.Traffic
import Gatehouse.Proofs.Clock
import Gatehouse.Proofs.Pipeline.Enclosure
import Gatehouse.Proofs.Pipeline.Lineage
import Gatehouse.Proofs.Scope.Causes

/-!
# Requests with nothing to do

A look at a request changes nothing, or it ends one of the waits of the request. So after every
request was looked at until no wait ended any more, none has anything left to do at this instant,
and all its timers are ahead.

* `Flight.Quiet`: a request that has nothing to do at an instant.
* `Flight.Served`: how its handler leaves a request.
* `quiet_or_work_lt`: a look changes nothing, or it ends a wait.
* `Traffic.Settled`, `settled_settle`: no request has anything to do.
* `Flight.Quiet.due_gt`: the timers of a request that has nothing to do.
-/

namespace Gatehouse.Pipeline

/-- Whether what a request waits for is still to come. -/
def Activity.Quiet (s : Site) : Activity → Prop
  | .queued _ deadline scope _ _ =>
    s.gates.bulkhead.isSome = true → s.now < deadline ∧ s.cause? scope = none
  | .awaitingEnd scope => s.cause? scope = none
  | .working done _ => s.now < done
  | _ => True

namespace Flight

/-- A request that has nothing to do: no timeout that it is inside of has ended either. -/
structure Quiet (s : Site) (f : Flight) : Prop where
  activity : f.activity.Quiet s
  frames : f.isPending = true → expired? s f.frames = none
  poll : f.poll s = (s, f)

variable {s : Site} {f : Flight} {r : Http.Request} {rest : List Interceptor} {scope : Scope}

/-! ## What is left to do -/

theorem work_complete (f : Flight) (s : Site) (c : Completion) : (f.complete s c).2.work = 0 := rfl

theorem work_finishWork (f : Flight) (s : Site) (scope : Scope) :
    (f.finishWork s scope).2.work = 0 := rfl

theorem work_beginWork_le (f : Flight) (s : Site) (scope : Scope) :
    (f.beginWork s scope).2.work ≤ 1 := by
  unfold beginWork
  split
  · rw [work_finishWork]
    exact Nat.zero_le 1
  · exact Nat.le_refl 1

/-- How its handler leaves a request: it has ended, or it waits for what is still to come. -/
inductive Served : Site × Flight → Prop where
  | ended {s : Site} {f : Flight} {at_ : Nat} {c : Completion} (h : f.activity = .ended at_ c) :
      Served (s, f)
  | awaits {s : Site} {f : Flight} {scope : Scope} (h : f.activity = .awaitingEnd scope)
      (hAhead : s.cause? scope = none) : Served (s, f)
  | works {s : Site} {f : Flight} {done : Nat} {scope : Scope} (h : f.activity = .working done scope)
      (hAhead : s.now < done) : Served (s, f)

theorem served_complete (f : Flight) (s : Site) (c : Completion) : Served (f.complete s c) :=
  .ended rfl

theorem served_beginWork (f : Flight) (s : Site) (scope : Scope) : Served (f.beginWork s scope) := by
  unfold beginWork
  split
  · exact served_complete ..
  · next hLong => exact .works rfl (Nat.lt_add_of_pos_right (Nat.pos_of_ne_zero hLong))

theorem served_awaitEnd (f : Flight) (s : Site) (scope : Scope) : Served (f.awaitEnd s scope) := by
  unfold awaitEnd
  rw [Site.cancelled?_eq_cause?]
  split
  · next hCause => exact .awaits rfl hCause
  · split
    · exact served_complete ..
    · exact served_beginWork ..

theorem served_handle (f : Flight) (s : Site) (r : Http.Request) : Served (f.handle s r) := by
  unfold handle
  dsimp only
  split
  · exact served_awaitEnd ..
  · exact served_beginWork ..

theorem served_arrive (f : Flight) (s : Site) (r : Http.Request) : Served (f.arrive s r) := by
  unfold arrive
  split
  · split
    · exact served_handle ..
    all_goals exact served_complete ..
  · exact served_handle ..

namespace Served

variable {x : Site × Flight}

theorem work_le (h : Served x) : x.2.work ≤ 2 := by
  cases h with
  | ended h | awaits h | works h => simp [work, h]

theorem inLine (h : Served x) : x.2.activity.inLine = false := by
  cases h with
  | ended h | awaits h | works h =>
    rw [h]
    rfl

/-- A look at the same instant changes nothing. -/
theorem pollActivity_eq (h : Served x) : x.2.pollActivity x.1 = x := by
  cases h with
  | ended h => simp only [pollActivity, h]
  | @awaits s f scope h hAhead =>
    have hSame : { f with activity := .awaitingEnd scope } = f := by rw [← h]
    simp only [pollActivity, h, awaitEnd, Site.cancelled?_eq_cause?, hAhead, hSame]
  | works h hAhead => simp only [pollActivity, h, if_neg (Nat.not_le_of_lt hAhead)]

end Served

end Flight

/-- A ticket that has to wait leaves the bulkhead as it is. Its acquire timeout is ahead, and its
scope has not ended. -/
theorem poll_of_waits {b : Bulkhead} {ticket deadline now : Nat} {cause : Option Cause}
    (h : (b.poll ticket deadline now cause).1 = .waits) :
    b.poll ticket deadline now cause = (.waits, b, []) ∧ now < deadline ∧ cause = none := by
  cases hTake : b.take? ticket with
  | some taken => simp [Bulkhead.poll_of_take hTake] at h
  | none =>
    rw [Bulkhead.poll_of_take_none hTake] at h ⊢
    by_cases hLate : deadline ≤ now
    · simp [hLate] at h
    · cases cause with
      | some cause => simp [hLate] at h
      | none => simp [hLate, Nat.lt_of_not_le hLate]

/-- To put the same bulkhead in its place and to note nothing changes nothing. -/
theorem Site.setBulkhead_note_nil {s : Site} {b : Bulkhead} (h : s.gates.bulkhead = some b) :
    (s.setBulkhead b).note [] = s := by
  unfold Site.setBulkhead Site.note
  rw [← h, List.append_nil]

namespace Flight

variable {s : Site} {f : Flight} {r : Http.Request} {rest : List Interceptor} {scope : Scope}
  {ticket deadline : Nat} {b : Bulkhead}

/-- A look in line leaves everything as it is, or the wait is over. -/
theorem look_cases (hEnter : ∀ f s r, (enter f s r rest).2.work ≤ rest.length + 2) (f : Flight)
    (s : Site) (b : Bulkhead) (ticket deadline : Nat) (scope : Scope) (r : Http.Request) :
    (f.look s b ticket deadline scope rest r =
        .waits { f with activity := .queued ticket deadline scope rest r }
          ((s.setBulkhead b).note []) ∧ s.now < deadline ∧ s.cause? scope = none) ∨
      ((f.look s b ticket deadline scope rest r).follow rest).2.work ≤ rest.length + 2 := by
  cases hPoll : (b.poll ticket deadline s.now (s.cancelled? scope)).1 with
  | waits =>
    obtain ⟨hSame, hAhead, hCause⟩ := poll_of_waits hPoll
    refine .inl ⟨?_, hAhead, s.cancelled?_eq_cause? scope ▸ hCause⟩
    simp only [look, hSame]
  | holds =>
    refine .inr ?_
    simp only [look, hPoll, Passage.follow]
    exact hEnter ..
  | refused reason =>
    refine .inr ?_
    cases reason <;>
      · simp only [look, hPoll, Passage.follow]
        exact Nat.zero_le _

theorem work_enter_le (f : Flight) (s : Site) (r : Http.Request) (stages : List Interceptor) :
    (f.enter s r stages).2.work ≤ stages.length + 2 := by
  induction stages generalizing f s r with
  | nil =>
    rw [enter_nil]
    exact (served_arrive f s r).work_le
  | cons stage rest ih =>
    have hNext : ∀ f s r, (enter f s r rest).2.work ≤ rest.length + 1 + 2 :=
      fun f s r => Nat.le_trans (ih f s r) (by omega)
    have hLook : ∀ s b ticket deadline scope,
        ((f.look s b ticket deadline scope rest r).follow rest).2.work ≤ rest.length + 1 + 2 := by
      intro s b ticket deadline scope
      rcases look_cases ih f s b ticket deadline scope r with ⟨hWaits, -⟩ | hLe
      · rw [hWaits]
        exact Nat.le_refl _
      · omega
    rw [enter_cons, List.length_cons, pass]
    split
    · exact hNext ..
    · cases stage with
      | panicRecovery | timeout | requestLogging | errorTranslation => exact hNext ..
      | schemaValidation v =>
        simp only [meet]
        cases v.check r with
        | accepted => exact hNext ..
        | rejected | panicked => exact Nat.zero_le _
      | mark label bypasses rejection =>
        cases rejection with
        | none => exact hNext ..
        | some failure => exact Nat.zero_le _
      | rateLimit =>
        simp only [meet, meetGate]
        split
        · exact hNext ..
        · split
          · exact hNext ..
          · exact Nat.zero_le _
      | circuitBreaker =>
        simp only [meet, meetGate]
        split
        · exact hNext ..
        · split
          · exact hNext ..
          · exact Nat.zero_le _
      | bulkhead =>
        simp only [meet, meetGate]
        split
        · exact hNext ..
        · exact hLook ..

/-! ## A look at a request -/

theorem quiet_of_not_pending (hEnded : f.isPending = false) : f.Quiet s := by
  refine ⟨?_, ?_, (poll_of_not_pending hEnded s).1⟩
  · unfold isPending at hEnded
    unfold Activity.Quiet
    split at hEnded <;> simp_all
  · intro hPending
    rw [hEnded] at hPending
    cases hPending

/-- A look at what a request waits for changes nothing, or the wait is over. -/
theorem pollActivity_cases (f : Flight) (s : Site) (hPending : f.isPending = true) :
    (f.pollActivity s = (s, f) ∧ f.activity.Quiet s) ∨ (f.pollActivity s).2.work < f.work := by
  cases hNow : f.activity with
  | queued ticket deadline scope rest r =>
    have hSame : { f with activity := .queued ticket deadline scope rest r } = f := by rw [← hNow]
    have hWork : f.work = rest.length + 3 := by simp only [work, hNow]
    rw [pollActivity_queued hNow]
    cases hGate : s.gates.bulkhead with
    | none =>
      refine .inl ⟨rfl, ?_⟩
      intro hSome
      rw [hGate] at hSome
      cases hSome
    | some b =>
      rcases look_cases (fun f s r => work_enter_le f s r rest) f s b ticket deadline scope r with
        ⟨hWaits, hQuiet⟩ | hLe
      · refine .inl ⟨?_, fun _ => hQuiet⟩
        dsimp only
        rw [hWaits, hSame, Passage.follow, Site.setBulkhead_note_nil hGate]
      · refine .inr ?_
        dsimp only
        omega
  | awaitingEnd scope =>
    have hSame : { f with activity := .awaitingEnd scope } = f := by rw [← hNow]
    have hWork : f.work = 2 := by simp only [work, hNow]
    simp only [pollActivity, hNow]
    cases hCause : s.cause? scope with
    | none =>
      refine .inl ⟨?_, hCause⟩
      simp only [awaitEnd, Site.cancelled?_eq_cause?, hCause, hSame]
    | some cause =>
      refine .inr ?_
      simp only [awaitEnd, Site.cancelled?_eq_cause?, hCause, hWork]
      split
      · rw [work_complete]
        exact Nat.zero_lt_two
      · exact Nat.lt_succ_of_le (work_beginWork_le ..)
  | working done scope =>
    have hWork : f.work = 1 := by simp only [work, hNow]
    simp only [pollActivity, hNow]
    by_cases hDone : done ≤ s.now
    · refine .inr ?_
      rw [if_pos hDone, work_finishWork, hWork]
      exact Nat.zero_lt_one
    · refine .inl ⟨?_, Nat.lt_of_not_le hDone⟩
      rw [if_neg hDone]
  | ended | aborted => simp [isPending, hNow] at hPending

theorem work_pos (hPending : f.isPending = true) : 0 < f.work := by
  unfold isPending at hPending
  unfold work
  cases hNow : f.activity with
  | queued | awaitingEnd | working => simp
  | ended | aborted => simp [hNow] at hPending

theorem work_pollTimeouts_le (f : Flight) (s : Site) : (f.pollTimeouts s).2.work ≤ f.work := by
  unfold pollTimeouts
  split
  · exact Nat.le_refl _
  · exact Nat.zero_le _

/-- A look at a request changes nothing, or it ends a wait. -/
theorem quiet_or_work_lt (f : Flight) (s : Site) : f.Quiet s ∨ (f.poll s).2.work < f.work := by
  cases hPending : f.isPending with
  | false => exact .inl (quiet_of_not_pending hPending)
  | true =>
    rcases pollActivity_cases f s hPending with ⟨hSame, hQuiet⟩ | hLt
    · have hPoll : f.poll s = f.pollTimeouts s := by
        unfold poll
        simp only [hSame, hPending, if_true]
      rw [hPoll, pollTimeouts_eq]
      cases hExpired : expired? s f.frames with
      | none =>
        refine .inl ⟨hQuiet, fun _ => hExpired, ?_⟩
        rw [hPoll, pollTimeouts_eq, hExpired]
      | some e => exact .inr (work_pos hPending)
    · refine .inr ?_
      unfold poll
      dsimp only
      split
      · exact Nat.lt_of_le_of_lt (work_pollTimeouts_le ..) hLt
      · exact hLt

/-! ## Timers -/

theorem expired?_eq_none {frames : List Frame} :
    expired? s frames = none ↔
      ∀ limit scope, Frame.timeout limit scope ∈ frames → s.cause? scope = none := by
  induction frames with
  | nil => exact ⟨fun _ => nofun, fun _ => rfl⟩
  | cons frame outer ih =>
    have hHere : frame.ended? s outer = none ↔
        ∀ limit scope, frame = .timeout limit scope → s.cause? scope = none := by
      cases frame <;> simp [Frame.ended?]
    rw [expired?_cons, Option.or_eq_none_iff, Option.map_eq_none_iff, ih, hHere]
    constructor
    · rintro ⟨hFirst, hOuter⟩ limit scope hMem
      rcases List.mem_cons.mp hMem with rfl | hRest
      · exact hFirst limit scope rfl
      · exact hOuter limit scope hRest
    · intro h
      refine ⟨?_, fun limit scope hRest => h limit scope (List.mem_cons_of_mem _ hRest)⟩
      rintro limit scope rfl
      exact h limit scope List.mem_cons_self

theorem deadline_gt {scope : Scope} (hCause : s.cause? scope = none) {t : Nat}
    (hDeadline : scope.deadline = some t) : s.now < t :=
  (Scope.cause?_eq_none.mp hCause).2 t hDeadline

/-- The timers of a request that has nothing to do are ahead, as long as there is a line to wait
in. -/
theorem Quiet.due_gt (h : f.Quiet s) (hPending : f.isPending = true)
    (hLine : f.activity.inLine = true → s.gates.bulkhead.isSome = true) {t : Nat}
    (hDue : f.due = some t) : s.now < t := by
  have hQuiet := h.activity
  obtain ⟨hOne, -⟩ := Clock.earlier_spec hDue
  rcases hOne with hWaits | hFrames
  · cases hNow : f.activity with
    | queued ticket deadline scope rest r =>
      rw [hNow] at hQuiet hWaits hLine
      obtain ⟨hAhead, hCause⟩ := hQuiet (hLine rfl)
      rcases (Clock.earlier_spec hWaits).1 with hTimer | hDeadline
      · cases hTimer
        exact hAhead
      · exact deadline_gt hCause hDeadline
    | awaitingEnd scope =>
      rw [hNow] at hQuiet hWaits
      exact deadline_gt hQuiet hWaits
    | working done scope =>
      rw [hNow] at hQuiet hWaits
      cases hWaits
      exact hQuiet
    | ended | aborted =>
      rw [hNow] at hWaits
      cases hWaits
  · obtain ⟨hMem, -⟩ := Clock.earliest_spec hFrames
    obtain ⟨frame, hFrame, hTimer⟩ := List.mem_map.mp hMem
    cases frame with
    | timeout limit scope =>
      exact deadline_gt (expired?_eq_none.mp (h.frames hPending) limit scope hFrame) hTimer
    | recovery | call | slot | logging | translation => cases hTimer

/-- The deadline of a timeout is not before the next timer of a request inside of it. -/
theorem exists_due_le {limit deadline : Nat} (hMem : Frame.timeout limit scope ∈ f.frames)
    (hDeadline : scope.deadline = some deadline) : ∃ timer ∈ f.due, timer ≤ deadline := by
  have hListed : some deadline ∈ f.frames.map Frame.due :=
    List.mem_map.mpr ⟨_, hMem, hDeadline⟩
  cases hFrames : Clock.earliest (f.frames.map Frame.due) with
  | none => cases Clock.earliest_eq_none.mp hFrames _ hListed
  | some first =>
    have hFirst := (Clock.earliest_spec hFrames).2 deadline hListed
    cases hDue : f.due with
    | none =>
      have hNone := (Clock.earlier_eq_none.mp hDue).2
      rw [hFrames] at hNone
      cases hNone
    | some timer =>
      exact ⟨timer, rfl, Nat.le_trans ((Clock.earlier_spec hDue).2.2 first hFrames) hFirst⟩

end Flight

/-! ## Traffic that is settled -/

namespace Traffic

/-- No request has anything to do. -/
def Settled (t : Traffic) : Prop := ∀ f ∈ t.flights, f.Quiet t.site

theorem work_cons (f : Flight) (flights : List Flight) :
    work (f :: flights) = f.work + work flights := rfl

theorem visitAll_cons (s : Site) (f : Flight) (rest : List Flight) :
    visitAll s (f :: rest) =
      ((visitAll (f.poll s).1 rest).1, (f.poll s).2 :: (visitAll (f.poll s).1 rest).2) := rfl

theorem work_visitAll_le (s : Site) (flights : List Flight) :
    work (visitAll s flights).2 ≤ work flights := by
  induction flights generalizing s with
  | nil => exact Nat.le_refl _
  | cons f rest ih =>
    have hRest := ih (f.poll s).1
    have hFirst : (f.poll s).2.work ≤ f.work := by
      rcases f.quiet_or_work_lt s with hQuiet | hLt
      · exact Nat.le_of_eq (congrArg (·.2.work) hQuiet.poll)
      · exact Nat.le_of_lt hLt
    rw [visitAll_cons, work_cons, work_cons]
    exact Nat.add_le_add hFirst hRest

/-- Where no wait has ended, nothing has changed, and nobody has anything to do. -/
theorem visitAll_eq (s : Site) (flights : List Flight)
    (h : ¬ work (visitAll s flights).2 < work flights) :
    visitAll s flights = (s, flights) ∧ ∀ f ∈ flights, f.Quiet s := by
  induction flights generalizing s with
  | nil => exact ⟨rfl, List.forall_mem_nil _⟩
  | cons f rest ih =>
    rw [visitAll_cons, work_cons, work_cons] at h
    rcases f.quiet_or_work_lt s with hQuiet | hLt
    · rw [hQuiet.poll] at h
      obtain ⟨hSame, hAll⟩ := ih s fun hLt => h (Nat.add_lt_add_left hLt _)
      refine ⟨?_, List.forall_mem_cons.mpr ⟨hQuiet, hAll⟩⟩
      rw [visitAll_cons, hQuiet.poll, hSame]
    · exact absurd (Nat.add_lt_add_of_lt_of_le hLt (work_visitAll_le ..)) h

theorem settled_settle (t : Traffic) : t.settle.Settled := by
  induction t using settle.induct with
  | case1 t site flights hVisit t' hWork ih =>
    rw [settle]
    simp only [hVisit, hWork, if_true]
    exact ih
  | case2 t site flights hVisit hWork =>
    rw [settle]
    simp only [hVisit, hWork, if_false]
    have hStill : ¬ work (visitAll t.site t.flights).2 < work t.flights := by
      rw [hVisit]
      exact hWork
    obtain ⟨hSame, hAll⟩ := visitAll_eq t.site t.flights hStill
    rw [hVisit] at hSame
    cases hSame
    exact hAll

end Traffic

end Gatehouse.Pipeline
