import Gatehouse.Proofs.Service.Readiness
import Gatehouse.Proofs.Service.Stopping

/-!
# The clock while a service stops

The clock of the library lets everything happen that can at an instant, and then goes on to the next
timer. Between two instants nobody has anything left to do, and the deadline of a stop is one of the
timers: so time passes only as a course admits.

* `Listed`: the service looks at every run that has not ended.
* `Settled`: what everything that happens at an instant comes to; `Listed.settled`.
* `Course.runUntil`: the clock makes a course; `Course.run`: so is a whole run.
-/

namespace Gatehouse.Service

variable {begun s s' : Service} {task : Nat × Nat}

/-! ## Runs that are looked at -/

/-- Every run that has not ended is among those that the service looks at. -/
def Listed (s : Service) : Prop :=
  ∀ task : Nat × Nat, task.1 < s.workers.length → task ∉ s.runs → s.HasEnded task

theorem Listed.of_eq (h : s.Listed) (hLength : s'.workers.length = s.workers.length)
    (hRuns : s'.runs = s.runs) (hEnded : ∀ task, s.HasEnded task → s'.HasEnded task) :
    s'.Listed := by
  intro task hKnown hNot
  rw [hLength] at hKnown
  rw [hRuns] at hNot
  exact hEnded task (h task hKnown hNot)

theorem Listed.spares (h : s.Listed) (hSpares : Spares s s') : s'.Listed := by
  refine h.of_eq ?_ hSpares.runs fun task hEnded => hEnded.of_stages hSpares.stages
  simpa [stages] using congrArg List.length hSpares.stages

theorem listed_create {config : Config} {uptime : Nat} (h : create config uptime = .ok s) :
    s.Listed := by
  intro task hKnown
  rw [(create_cases h).2] at hKnown
  cases hKnown

/-- One worker goes on, and the service looks at all the runs that it has not ended. -/
theorem Listed.set (h : s.Listed) {worker : Nat} {w w' : Worker}
    (hWorker : s.workers[worker]? = some w) (hWorkers : s'.workers = s.workers.set worker w')
    (hRuns : s.runs ⊆ s'.runs)
    (hEnded : ∀ k, (worker, k) ∉ s'.runs → w.isEnded k = true → w'.isEnded k = true) :
    s'.Listed := by
  rintro ⟨i, k⟩ hKnown hNot
  rw [hWorkers, List.length_set] at hKnown
  have hBefore : s.HasEnded (i, k) := h (i, k) hKnown fun hMem => hNot (hRuns hMem)
  by_cases hSame : i = worker
  · subst hSame
    obtain ⟨v, hHere, hDone⟩ := hBefore
    obtain rfl : w = v := Option.some.inj (hWorker.symm.trans hHere)
    exact on_set_self hWorker hWorkers (hEnded k hNot hDone)
  · exact on_set_ne hBefore hSame hWorkers

theorem isEnded_start {w : Worker} {k : Nat} (hOther : k ≠ w.runs.length)
    (h : w.isEnded k = true) : w.start.2.1.isEnded k = true := by
  unfold Worker.start
  split
  · exact h
  · split
    · exact h
    · unfold Worker.isEnded at h ⊢
      rcases Nat.lt_or_gt_of_ne hOther with hLess | hMore
      · rwa [List.getElem?_append_left hLess]
      · rw [List.getElem?_eq_none (by simp; omega)]

theorem Listed.startWorker (h : s.Listed) (worker : Nat) : (s.startWorker worker).2.Listed := by
  unfold Service.startWorker
  split
  · exact h
  · next w hWorker =>
    have hStarted : ∀ k, k ≠ w.runs.length → w.isEnded k = true → w.start.2.1.isEnded k = true :=
      fun k => isEnded_start
    split
    · next started journal hStart =>
      rw [hStart] at hStarted
      refine h.set hWorker rfl (List.subset_append_left _ _) fun k hNot => hStarted k ?_
      rintro rfl
      exact hNot (List.mem_append_right _ List.mem_cons_self)
    · next e w' journal hStart =>
      have hSame : w' = w := by
        unfold Worker.start at hStart
        split at hStart
        · exact ((Prod.ext_iff.mp (Prod.ext_iff.mp hStart).2).1).symm
        · split at hStart
          · exact ((Prod.ext_iff.mp (Prod.ext_iff.mp hStart).2).1).symm
          · cases hStart
      subst hSame
      exact h.set hWorker rfl (fun _ hMem => hMem) fun _ _ hEnded => hEnded

theorem Listed.addWorker (h : s.Listed) {w : Worker} (hNew : w.runs = []) (started : Bool) :
    (s.addWorker w started).Listed := by
  have hAdded : ({ s with workers := s.workers ++ [w] } : Service).Listed := by
    rintro ⟨i, k⟩ hKnown hNot
    rcases Nat.lt_or_ge i s.workers.length with hOld | hLast
    · obtain ⟨v, hWorker, hEnded⟩ : s.HasEnded (i, k) := h (i, k) hOld hNot
      exact ⟨v, by rw [List.getElem?_append_left hOld]; exact hWorker, hEnded⟩
    · have hSame : i = s.workers.length := by
        simp at hKnown
        omega
      exact ⟨w, by simp [hSame], by simp [Worker.isEnded, hNew]⟩
  unfold Service.addWorker
  dsimp only
  split
  · exact hAdded.startWorker _
  · exact hAdded

theorem Listed.startAll (h : s.Listed) (workers : List Nat) : (s.startAll workers).1.Listed := by
  induction workers generalizing s with
  | nil => exact h
  | cons worker rest ih =>
    have hStarted := h.startWorker worker
    rw [Service.startAll]
    split
    · next s' hStart =>
      rw [hStart] at hStarted
      exact ih hStarted
    · next e s' hStart =>
      rw [hStart] at hStarted
      exact hStarted

theorem Listed.begin (h : s.Listed) (isLocal : String → Bool) : (s.begin isLocal).Listed := by
  unfold Service.begin
  dsimp only
  split
  · unfold Service.beginOn
    split
    · exact h
    · have hAdded : (s.command (.add serverComponent)).2.Listed := h
      have hStarted := hAdded.startAll
        (List.range (s.command (.add serverComponent)).2.workers.length)
      dsimp only
      split
      · next s' worker e hAll =>
        rw [hAll] at hStarted
        refine Listed.spares ?_ (spares_beginStopping _ _ _)
        exact hStarted
      · next s' hAll =>
        rw [hAll] at hStarted
        exact hStarted
  · exact h

/-! ## Timers that are ahead -/

/-- The timer of a run, if it has one, is ahead. -/
def Ahead (s : Service) (task : Nat × Nat) : Prop :=
  ∀ (w : Worker) (r : Worker.Run) (t : Nat), s.workers[task.1]? = some w →
    w.runs[task.2]? = some r → r.due = some t → s.now < t

theorem Ahead.spares (h : s.Ahead task) (hSpares : Spares s s') : s'.Ahead task := by
  intro w' r' t hWorker' hRun' hDue
  obtain ⟨w, hWorker, hSame⟩ := exists_of_stages hSpares.stages.symm hWorker'
  have hStage : (w.runs[task.2]?).map Worker.Run.stage = some r'.stage := by
    have hHere := congrArg (·[task.2]?) hSame
    simp only [stagesOf, List.getElem?_map, hRun', Option.map_some] at hHere
    exact hHere
  obtain ⟨r, hRun, hStage⟩ := Option.map_eq_some_iff.mp hStage
  rw [hSpares.now]
  refine h w r t hWorker hRun ?_
  rw [Worker.Run.due, hStage]
  exact hDue

theorem getElem?_pollRun (s : Service) (worker run i : Nat) :
    (s.pollRun worker run).workers[i]? =
      if i = worker then
        (s.workers[i]?).map fun w => (w.poll run s.coordinator.fired s.now s.shutdown).1
      else s.workers[i]? := by
  unfold pollRun
  split
  · next hNone =>
    split
    · next hSame =>
      subst hSame
      simp [hNone]
    · rfl
  · next w hWorker =>
    have hKnown := (List.getElem?_eq_some_iff.mp hWorker).1
    simp only [note]
    split
    · next hSame =>
      subst hSame
      rw [List.getElem?_set_self hKnown, hWorker]
      rfl
    · next hNe => exact List.getElem?_set_ne (Ne.symm hNe)

/-- A look at a run leaves its timer ahead, and those of the others where they are. -/
theorem ahead_pollRun {worker run : Nat} (h : task = (worker, run) ∨ s.Ahead task) :
    (s.pollRun worker run).Ahead task := by
  intro w' r t hWorker' hRun hDue
  rw [(onward_pollRun s worker run).2.2]
  rw [getElem?_pollRun] at hWorker'
  split at hWorker'
  · next hWorkers =>
    obtain ⟨w, hWorker, rfl⟩ := Option.map_eq_some_iff.mp hWorker'
    by_cases hRuns : task.2 = run
    · rw [hRuns] at hRun
      exact Worker.lt_of_due_poll hRun hDue
    · rw [Worker.getElem?_poll_of_ne hRuns] at hRun
      have hAhead : s.Ahead task := h.resolve_left fun hSame => hRuns (congrArg Prod.snd hSame)
      exact hAhead w r t hWorker hRun hDue
  · next hWorkers =>
    have hAhead : s.Ahead task := h.resolve_left fun hSame => hWorkers (congrArg Prod.fst hSame)
    exact hAhead w' r t hWorker' hRun hDue

theorem ahead_polls (runs : List (Nat × Nat)) (h : task ∈ runs ∨ s.Ahead task) :
    (runs.foldl (fun s (worker, run) => s.pollRun worker run) s).Ahead task := by
  induction runs generalizing s with
  | nil => exact h.resolve_left List.not_mem_nil
  | cons first rest ih =>
    refine ih ?_
    rcases h with hMem | hAhead
    · rcases List.mem_cons.mp hMem with rfl | hLater
      · exact .inr (ahead_pollRun (.inl rfl))
      · exact .inl hLater
    · exact .inr (ahead_pollRun (.inr hAhead))

/-- What is looked at one run after the other keeps what every look keeps. -/
theorem pollRuns_keeps {P : Service → Prop} (hPoll : ∀ s worker run, P s → P (s.pollRun worker run))
    (h : P s) : P s.pollRuns := by
  unfold pollRuns
  generalize s.runs = runs
  induction runs generalizing s with
  | nil => exact h
  | cons first rest ih => exact ih (hPoll s first.1 first.2 h)

theorem Listed.pollRun (h : s.Listed) (worker run : Nat) : (s.pollRun worker run).Listed := by
  refine h.of_eq ?_ ?_ fun task hEnded => hEnded.onward (onward_pollRun s worker run).1
  · unfold Service.pollRun
    split <;> simp [note]
  · unfold Service.pollRun
    split <;> rfl

theorem ahead_of_hasEnded (h : s.HasEnded task) : s.Ahead task := by
  intro w r t hWorker hRun hDue
  obtain ⟨v, hHere, hEnded⟩ := h
  obtain rfl : w = v := Option.some.inj (hWorker.symm.trans hHere)
  rw [Worker.isEnded_of_getElem? hRun, beq_iff_eq] at hEnded
  simp [Worker.Run.due, hEnded] at hDue

/-- A look at every run leaves no timer behind. -/
theorem ahead_pollRuns (h : s.Listed) (task : Nat × Nat) : s.pollRuns.Ahead task := by
  by_cases hMem : task ∈ s.runs
  · exact ahead_polls s.runs (.inl hMem)
  · refine ahead_polls s.runs (.inr ?_)
    by_cases hKnown : task.1 < s.workers.length
    · exact ahead_of_hasEnded (h task hKnown hMem)
    · intro w r t hWorker
      exact absurd (List.getElem?_eq_some_iff.mp hWorker).1 hKnown

/-! ## Letting everything happen -/

theorem moveOn_keeps {P : Service → Prop} (hGoes : ∀ s, P s → P s.progress) (h : P s) :
    P s.moveOn := by
  induction s using Service.moveOn.induct with
  | case1 s s' hLess ih =>
    rw [Service.moveOn]
    simp only [show s.progress.work < s.work from hLess, if_true]
    exact ih (hGoes s h)
  | case2 s s' hLess =>
    rw [Service.moveOn]
    simp only [show ¬ s.progress.work < s.work from hLess, if_false]
    exact hGoes s h

theorem settle_keeps {P : Service → Prop} (hPoll : ∀ s worker run, P s → P (s.pollRun worker run))
    (hGoes : ∀ s, P s → P s.progress) (h : P s) : P s.settle := by
  have hOnce : ∀ s, P s → P s.pollRuns.moveOn :=
    fun _ h => moveOn_keeps hGoes (pollRuns_keeps hPoll h)
  induction s using Service.settle.induct with
  | case1 s s' hLess ih =>
    rw [Service.settle]
    simp only [show s.pollRuns.moveOn.work < s.work from hLess, if_true]
    exact ih (hOnce s h)
  | case2 s s' hLess =>
    rw [Service.settle]
    simp only [show ¬ s.pollRuns.moveOn.work < s.work from hLess, if_false]
    exact hOnce s h

theorem Course.poll (s : Service) (worker run : Nat) (h : Course begun s) :
    Course begun (s.pollRun worker run) := h.move (.poll worker run) trivial

theorem Course.goOn (s : Service) (h : Course begun s) : Course begun s.progress :=
  h.move .goOn trivial

theorem Course.settle (h : Course begun s) : Course begun s.settle :=
  settle_keeps Course.poll Course.goOn h

theorem Listed.moveOn (h : s.Listed) : s.moveOn.Listed :=
  moveOn_keeps (fun s h => h.spares (spares_progress s)) h

theorem Listed.settle (h : s.Listed) : s.settle.Listed :=
  settle_keeps (fun _ worker run h => h.pollRun worker run)
    (fun s h => h.spares (spares_progress s)) h

/-- A service goes on until it has nothing to do, and leaves the runs where they stand. -/
theorem still_moveOn (s : Service) : s.moveOn.Still ∧ Spares s s.moveOn := by
  induction s using Service.moveOn.induct with
  | case1 s s' hLess ih =>
    rw [Service.moveOn]
    simp only [show s.progress.work < s.work from hLess, if_true]
    obtain ⟨hStill, hSpares⟩ := ih
    exact ⟨hStill, (spares_progress s).trans hSpares⟩
  | case2 s s' hLess =>
    rw [Service.moveOn]
    simp only [show ¬ s.progress.work < s.work from hLess, if_false]
    refine ⟨?_, spares_progress s⟩
    rw [(progress_of_still hLess).1]
    exact hLess

/-- A service that has nothing to do, and whose workers have nothing to do either. -/
structure Settled (s : Service) : Prop where
  still : s.Still
  listed : s.Listed
  ahead : ∀ task, s.Ahead task

theorem now_pollRuns (s : Service) : s.pollRuns.now = s.now :=
  pollRuns_keeps (fun q worker run h => ((onward_pollRun q worker run).2.2).trans h) rfl

/-- At every instant everything happens that can: then nobody has anything left to do. -/
theorem Listed.settled (h : s.Listed) : s.settle.Settled ∧ s.settle.now = s.now := by
  induction s using Service.settle.induct with
  | case1 s s' hLess ih =>
    have hPolled : s.pollRuns.Listed :=
      pollRuns_keeps (fun _ worker run h => h.pollRun worker run) h
    have hSpares := (still_moveOn s.pollRuns).2
    rw [Service.settle]
    simp only [show s.pollRuns.moveOn.work < s.work from hLess, if_true]
    obtain ⟨hSettled, hNow⟩ := ih (hPolled.spares hSpares)
    exact ⟨hSettled, hNow.trans (hSpares.now.trans (now_pollRuns s))⟩
  | case2 s s' hLess =>
    have hPolled : s.pollRuns.Listed :=
      pollRuns_keeps (fun _ worker run h => h.pollRun worker run) h
    obtain ⟨hStill, hSpares⟩ := still_moveOn s.pollRuns
    rw [Service.settle]
    simp only [show ¬ s.pollRuns.moveOn.work < s.work from hLess, if_false]
    refine ⟨⟨hStill, hPolled.spares hSpares, fun task => ?_⟩, hSpares.now.trans (now_pollRuns s)⟩
    exact (ahead_pollRuns h task).spares hSpares

/-! ## The clock -/

/-- The next timer of a service that stops its workers is ahead, and not behind its deadline. -/
theorem Settled.due_between (h : s.Settled) {p : Stopping} (hPhase : s.phase = .stopping p) :
    ∃ t, s.due = some t ∧ s.now < t ∧ t ≤ p.deadline := by
  have hEarly : s.now < p.deadline := ((progress_of_still h.still).2 p hPhase).1
  have hDue :
      s.due = Clock.earlier (some p.deadline) (Clock.earliest (s.workers.map Worker.due)) := by
    simp [due, isOver, hPhase]
  obtain ⟨t, hSome⟩ : ∃ t, s.due = some t := by
    cases hNone : s.due with
    | some t => exact ⟨t, rfl⟩
    | none =>
      rw [hDue] at hNone
      cases (Clock.earlier_eq_none.mp hNone).1
  have hHere := hSome
  rw [hDue] at hHere
  obtain ⟨hOne, hFirst, -⟩ := Clock.earlier_spec hHere
  refine ⟨t, hSome, ?_, hFirst p.deadline rfl⟩
  rcases hOne with hLast | hTimer
  · obtain rfl := Option.some.inj hLast
    exact hEarly
  · obtain ⟨w, hWorker, hWorkerDue⟩ := List.mem_map.mp (Clock.earliest_spec hTimer).1
    obtain ⟨r, hRun, hRunDue⟩ := List.mem_map.mp (Clock.earliest_spec hWorkerDue).1
    obtain ⟨i, hWorker⟩ := List.mem_iff_getElem?.mp hWorker
    obtain ⟨k, hRun⟩ := List.mem_iff_getElem?.mp hRun
    exact h.ahead (i, k) w r t hWorker hRun hRunDue

/-- The clock of the library makes a course: it lets everything happen that can before time passes,
and time does not pass the deadline of a stop before the stop is over. -/
theorem Course.runUntil (h : Course begun s) (hSettled : s.Settled) {target : Nat}
    (hAhead : s.now ≤ target) :
    let later := Clock.runUntil due fire s.now target s
    Course begun later ∧ (later.isOver = true ∨ (later.now = target ∧ later.Settled)) := by
  refine Clock.runUntil_onward (P := fun now s => Course begun s ∧
    (s.isOver = true ∨ (s.now = now ∧ s.Settled))) ?_ hAhead ⟨h, .inr ⟨rfl, hSettled⟩⟩
  rintro now t s hLater hTimers ⟨hCourse, hState⟩
  unfold fire
  cases hOver : s.isOver with
  | true => exact ⟨hCourse, .inl hOver⟩
  | false =>
    obtain ⟨rfl, hSettled⟩ := hState.resolve_left (by simp [hOver])
    have hAdmits : s.Admits (.elapse (t - s.now)) := by
      refine .inr ⟨hSettled.still, fun p hPhase => ?_⟩
      obtain ⟨first, hDue, hFirst, hBy⟩ := hSettled.due_between hPhase
      have hNext := hTimers first hDue
      omega
    have hMoved := hCourse.move _ hAdmits
    have hNow : s.move (.elapse (t - s.now)) = { s with now := t } := by
      rw [Service.move, Nat.add_sub_cancel' hLater]
    rw [hNow] at hMoved
    have hListed : ({ s with now := t } : Service).Listed := hSettled.listed
    obtain ⟨hDone, hThen⟩ := hListed.settled
    exact ⟨hMoved.settle, .inr ⟨hThen, hDone⟩⟩

/-! ## A whole run -/

theorem Listed.fire (h : s.Listed) (now : Nat) : (Service.fire now s).Listed := by
  unfold Service.fire
  split
  · exact h
  · exact Listed.settle (s := { s with now := now }) h

theorem isOver_pollRun (worker run : Nat) (h : s.isOver = true) :
    (s.pollRun worker run).isOver = true := by
  unfold isOver at h ⊢
  rwa [(onward_pollRun s worker run).2.1]

theorem isOver_progress (h : s.isOver = true) : s.progress.isOver = true := by
  unfold isOver at h
  split at h
  · next t result hPhase => simp [Service.progress, isOver, hPhase]
  · cases h

/-- Everything that happens at an instant, and then everything until another one. -/
theorem Course.settleUntil (h : Course begun s) (hListed : s.Listed) {target : Nat}
    (hAhead : s.isOver = true ∨ s.now ≤ target) :
    let later := Clock.runUntil due fire s.now target s.settle
    Course begun later ∧ later.Listed ∧ (later.isOver = true ∨ later.now = target) := by
  intro later
  have hLater : later.Listed :=
    Clock.runUntil_keeps (fun now _ hBefore => hBefore.fire now) hListed.settle s.now target
  cases hOver : s.isOver with
  | true =>
    have hSettled : s.settle.isOver = true :=
      settle_keeps (P := fun q => q.isOver = true) (fun _ worker run => isOver_pollRun worker run)
        (fun _ => isOver_progress) hOver
    have hStays : Course begun later ∧ later.isOver = true := by
      refine Clock.runUntil_keeps (P := fun q => Course begun q ∧ q.isOver = true)
        (fun now q hBefore => ?_) ⟨h.settle, hSettled⟩ s.now target
      unfold fire
      rwa [if_pos hBefore.2]
    exact ⟨hStays.1, hLater, .inl hStays.2⟩
  | false =>
    obtain ⟨hSettled, hNow⟩ := hListed.settled
    have hBefore : s.settle.now ≤ target := hNow ▸ hAhead.resolve_left (by simp [hOver])
    obtain ⟨hCourse, hEnd⟩ := h.settle.runUntil hSettled hBefore
    rw [hNow] at hCourse hEnd
    exact ⟨hCourse, hLater, hEnd.imp_right And.left⟩

theorem Course.perform (h : Course begun s) (hListed : s.Listed)
    (hNow : s.isOver = true ∨ s.now ≤ patience) (step : Step) :
    Course begun (s.perform step).2 ∧ (s.perform step).2.Listed ∧
      ((s.perform step).2.isOver = true ∨ (s.perform step).2.now ≤ patience) := by
  unfold Service.perform
  split
  · exact ⟨h, hListed, hNow⟩
  · next hGoing =>
    obtain ⟨hOver, hEarly⟩ : s.isOver = false ∧ s.now < patience := by simpa using hGoing
    have hBefore := Nat.le_of_lt hEarly
    cases step with
    | command c =>
      have hMoved : (s.command c).2.Listed := hListed
      refine ⟨(h.move (.command c) trivial).settle, hMoved.settle, .inr ?_⟩
      exact Nat.le_trans (Nat.le_of_eq hMoved.settled.2) hBefore
    | request code =>
      have hMoved : (s.request code).Listed := hListed
      refine ⟨(h.move (.request code) trivial).settle, hMoved.settle, .inr ?_⟩
      exact Nat.le_trans (Nat.le_of_eq hMoved.settled.2) hBefore
    | advance d =>
      have hAhead : s.now ≤ min (s.now + d) patience := by omega
      obtain ⟨hCourse, hLater, hEnd⟩ := h.settleUntil hListed (.inr hAhead)
      refine ⟨hCourse, hLater, hEnd.imp_right fun hThen => ?_⟩
      exact Nat.le_trans (Nat.le_of_eq hThen) (Nat.min_le_right _ _)

theorem Course.performAll (h : Course begun s) (hListed : s.Listed)
    (hNow : s.isOver = true ∨ s.now ≤ patience) (steps : List Step) (answers : List StepAnswer) :
    let later := (steps.foldl (fun (answers, s) step =>
      let (answer, s) := s.perform step
      (answers ++ answer.toList, s)) (answers, s)).2
    Course begun later ∧ later.Listed ∧ (later.isOver = true ∨ later.now ≤ patience) := by
  induction steps generalizing s answers with
  | nil => exact ⟨h, hListed, hNow⟩
  | cons step steps ih =>
    obtain ⟨hCourse, hLater, hThen⟩ := h.perform hListed hNow step
    exact ih hCourse hLater hThen _

theorem now_startAll (s : Service) (workers : List Nat) : (s.startAll workers).1.now = s.now := by
  induction workers generalizing s with
  | nil => rfl
  | cons worker rest ih =>
    have hStarted : (s.startWorker worker).2.now = s.now := by
      unfold Service.startWorker
      split
      · rfl
      · split <;> rfl
    rw [Service.startAll]
    split
    · next s' hStart =>
      rw [hStart] at hStarted
      exact (ih s').trans hStarted
    · next e s' hStart =>
      rw [hStart] at hStarted
      exact hStarted

/-- Everything before the service serves takes no time. -/
theorem now_begin (s : Service) (isLocal : String → Bool) : (s.begin isLocal).now = s.now := by
  unfold Service.begin
  dsimp only
  split
  · unfold Service.beginOn
    split
    · rfl
    · have hStarts := now_startAll (s.command (.add serverComponent)).2
        (List.range (s.command (.add serverComponent)).2.workers.length)
      dsimp only
      split
      · next s' worker e hAll =>
        rw [hAll] at hStarts
        exact (spares_beginStopping _ _ _).now.trans hStarts
      · next s' hAll =>
        rw [hAll] at hStarts
        exact hStarts
  · rfl

/-- A whole run, beside whatever steps, is a course of the service that has begun it. -/
theorem Course.run (hListed : s.Listed) (hNow : s.now ≤ patience) (isLocal : String → Bool)
    (steps : List Step) : Course (s.begin isLocal) (s.run isLocal steps).2 := by
  have hBegun : (s.begin isLocal).moveOn.now = s.now :=
    (still_moveOn _).2.now.trans (now_begin s isLocal)
  have hMoved : Course (s.begin isLocal) (s.begin isLocal).moveOn :=
    moveOn_keeps Course.goOn .begun
  obtain ⟨hCourse, hLater, hThen⟩ := hMoved.performAll (hListed.begin isLocal).moveOn
    (.inr (hBegun ▸ hNow)) (if (s.begin isLocal).moveOn.isServing then steps else []) []
  have hRun := (hCourse.settleUntil hLater hThen).1
  rw [← hLater.settled.2] at hRun
  exact hRun

end Gatehouse.Service
