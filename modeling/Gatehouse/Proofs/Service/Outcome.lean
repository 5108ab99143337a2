import Gatehouse.Proofs.Service.Deadline
import Gatehouse.Proofs.Service.Startup

/-!
# What a run of a service comes to

A run that fails to start a worker undoes what it has done: it asks for shutdown and stops the
workers that it has started, by one deadline. A run that serves does so until shutdown is
requested, and then stops all workers in the same way. However the workers, which may fail
themselves, and everybody else go on beside it, the run returns by the deadline, and what it
returns is fixed by the failure or by the first code that anybody asked for. It panics instead when
it begins to stop and no clock will ever show the deadline.

* `Running`: what can come of a run until it returns, and what was told on the way.
* `Running.wound`: the workers that are stopped, and those that are left alone.
* `Course.running`, `Closing.returnsBy`: the clock makes a run that returns in time.
* `Panicked`: what is left of a run that has no deadline to stop by.
* `run_outcome`: what a run leaves, for every list of workers and wherever it fails.
-/

namespace Gatehouse.Service

open Readiness (Call)

/-- What can come of a run until it returns, and what was told since it began. -/
inductive Running (begun : Service) : List Event → Service → Prop where
  | begun : Running begun [] begun
  | move {told : List Event} {s : Service} (h : Running begun told s) (m : Move)
    (hGoing : s.isOver = false) (hAllows : s.Allows m) :
    Running begun (told ++ s.events m) (s.move m)

variable {begun s later : Service} {told : List Event} {deadline : Nat}
  {tasks : List (Nat × Nat)} {failure : Option RunError}

theorem Running.tells (h : Running begun told s) : Tells told begun s := by
  induction h with
  | begun => exact .refl begun
  | move _ m _ _ ih => exact ih.trans (tells_move _ m)

/-! ## Winding up -/

/-- The stations of a run that ends, or is given up at the deadline. -/
def dismissed (deadline : Nat) : Stations deadline where
  ahead run w := w.current = some run ∧ run < w.runs.length
  waited run w := w.isCancelled run = true
  past run now w := w.isCancelled run = true ∧
    (w.isEnded run = true ∨ (w.current = some run ∧ deadline ≤ now))
  ahead_alone h hLeft := ⟨hLeft.goesOn.current.trans h.1, hLeft.same.2.symm ▸ h.2⟩
  waited_alone h hLeft := (hLeft.goesOn.cancelled _).trans h
  past_alone h hLeft := ⟨(hLeft.goesOn.cancelled _).trans h.1,
    h.2.imp (hLeft.goesOn.ended _) fun hGiven => ⟨hLeft.goesOn.current.trans hGiven.1, hGiven.2⟩⟩
  past_later h hLe :=
    ⟨h.1, h.2.imp_right fun hGiven => ⟨hGiven.1, Nat.le_trans hGiven.2 hLe⟩⟩
  take h := ⟨_, Worker.beginStop_eq h.1 (List.getElem?_eq_getElem h.2),
    Worker.isCancelled_set h.2⟩
  ended _ h hEnded := ⟨h, .inl hEnded⟩
  givenUp h hLate := ⟨h, .inr ⟨rfl, hLate⟩⟩

/-- What a run returns: its failure, or the first code that was asked for. -/
def verdict (s : Service) : Option RunError → Result
  | some e => .error e
  | none => .ok (s.shutdown.exitCode.getD 0)

theorem verdict_eq {s' : Service} (h : s'.shutdown = s.shutdown) (failure : Option RunError) :
    s'.verdict failure = s.verdict failure := by
  cases failure with
  | some e => rfl
  | none => rw [verdict, verdict, h]

/-- A run that stops on account of `failure` does so until it returns, and then returns that. -/
structure Winds (failure : Option RunError) (s : Service) : Prop where
  stopping : ∀ p, s.phase = .stopping p → p.failure = failure
  ended : ∀ t result, s.phase = .ended t result → t = s.now ∧ result = s.verdict failure

/-- A stop concerns the worker that is waited for and those that remain. -/
def Stopping.Concerns (p : Stopping) (i : Nat) : Prop :=
  (∃ run, p.waiting = some (i, run)) ∨ i ∈ p.remaining

/-- A stop that goes on, with the same failure and the other workers as they are. -/
structure Proceeds (s s' : Service) (p : Stopping) : Prop where
  stopping : ∃ p', s'.phase = .stopping p' ∧ p'.deadline = p.deadline ∧ p'.failure = p.failure
  others : ∀ i, ¬ p.Concerns i → s'.workers[i]? = s.workers[i]?

theorem awaitRun_proceeds (s : Service) (p : Stopping) (worker run : Nat) :
    (∃ p', (s.awaitRun p worker run).phase = .stopping p' ∧ p'.deadline = p.deadline ∧
      p'.failure = p.failure) ∧
    ∀ i, i ≠ worker → (s.awaitRun p worker run).workers[i]? = s.workers[i]? := by
  cases hWorker : s.workers[worker]? with
  | none =>
    have hEq : s.awaitRun p worker run =
        { s with phase := .stopping { p with waiting := none } } := by
      simp [awaitRun, hWorker]
    rw [hEq]
    exact ⟨⟨_, rfl, rfl, rfl⟩, fun _ _ => rfl⟩
  | some w =>
    rw [awaitRun_of_worker hWorker]
    split
    · exact ⟨⟨_, rfl, rfl, rfl⟩, fun _ _ => rfl⟩
    · split
      · exact ⟨⟨_, rfl, rfl, rfl⟩, fun i hNe => List.getElem?_set_ne hNe.symm⟩
      · exact ⟨⟨_, rfl, rfl, rfl⟩, fun _ _ => rfl⟩

/-- What a stop does by itself: it comes to its end, or it goes on. -/
theorem progress_stopping {p : Stopping} (hPhase : s.phase = .stopping p) :
    s.progress = s.conclude p.failure ∨ Proceeds s s.progress p := by
  have hOther : ∀ {worker : Nat} {rest : List Nat}, p.remaining = worker :: rest →
      ∀ i, ¬ p.Concerns i → i ≠ worker := by
    rintro worker rest hRemaining i hNot rfl
    exact hNot (.inr (hRemaining ▸ List.mem_cons_self))
  have hAdvance := advance_progress hPhase
  generalize s.progress = next at hAdvance ⊢
  cases hAdvance with
  | @waits task hWaits =>
    obtain ⟨hStopping, hOthers⟩ := awaitRun_proceeds s p task.1 task.2
    refine .inr ⟨hStopping, fun i hNot => hOthers i ?_⟩
    rintro rfl
    exact hNot (.inl ⟨task.2, hWaits⟩)
  | concludes => exact .inl rfl
  | unknown => exact .inr ⟨⟨_, rfl, rfl, rfl⟩, fun _ _ => rfl⟩
  | passes _ hRemaining =>
    exact .inr ⟨⟨_, rfl, rfl, rfl⟩,
      fun i hNot => List.getElem?_set_ne (hOther hRemaining i hNot).symm⟩
  | @takes worker run rest w w' _ hRemaining =>
    obtain ⟨hStopping, hOthers⟩ := awaitRun_proceeds
      { s with workers := s.workers.set worker w' } { p with remaining := rest } worker run
    refine .inr ⟨hStopping, fun i hNot => (hOthers i (hOther hRemaining i hNot)).trans ?_⟩
    exact List.getElem?_set_ne (hOther hRemaining i hNot).symm

theorem forsake_stopping {p : Stopping} (hPhase : s.phase = .stopping p) :
    Proceeds s s.forsake p := by
  have hSame : Proceeds s s p := ⟨⟨p, hPhase, rfl, rfl⟩, fun _ _ => rfl⟩
  unfold Service.forsake
  simp only [hPhase]
  split
  · next worker run hWaits =>
    split
    · split
      · refine ⟨⟨_, rfl, rfl, rfl⟩, fun i hNot => List.getElem?_set_ne ?_⟩
        rintro rfl
        exact hNot (.inl ⟨run, hWaits⟩)
      · exact hSame
    · exact hSame
  · exact hSame

theorem ended_conclude (s : Service) (failure : Option RunError) :
    (s.conclude failure).phase = .ended s.now (s.verdict failure) ∧
      (s.conclude failure).now = s.now ∧ (s.conclude failure).shutdown = s.shutdown ∧
      (s.conclude failure).workers = s.workers := by
  unfold Service.conclude
  split <;> exact ⟨rfl, rfl, rfl, rfl⟩

theorem Winds.of_stopping {p : Stopping} (hPhase : s.phase = .stopping p)
    (hFailure : p.failure = failure) : Winds failure s := by
  refine ⟨fun q hSame => ?_, fun t result hEnded => ?_⟩
  · rw [← hFailure, Phase.stopping.inj (hPhase.symm.trans hSame)]
  · rw [hPhase] at hEnded
    cases hEnded

theorem phase_beside {m : Move} (hBeside : m.IsBeside) : (s.move m).phase = s.phase := by
  cases m with
  | poll worker run => exact (leavesAlone_pollRun s worker run).2.1
  | endBody worker run result => exact (leavesAlone_endBody s worker run result).2.1
  | goOn => exact hBeside.elim
  | forsake => exact hBeside.elim
  | _ => rfl

theorem Winds.move {p : Stopping} (h : Winds failure s) (hPhase : s.phase = .stopping p)
    (m : Move) : Winds failure (s.move m) := by
  have hFailure := h.stopping p hPhase
  by_cases hBeside : m.IsBeside
  · exact .of_stopping ((phase_beside hBeside).trans hPhase) hFailure
  · cases m with
    | goOn =>
      rcases progress_stopping hPhase with hEnd | ⟨⟨p', hNext, -, hSame⟩, -⟩
      · obtain ⟨hEnded, hNow, hShutdown, -⟩ := ended_conclude s p.failure
        rw [Service.move, hEnd]
        refine ⟨fun q hStopping => ?_, fun t result hHere => ?_⟩
        · rw [hEnded] at hStopping
          cases hStopping
        · obtain ⟨rfl, rfl⟩ := Phase.ended.inj (hEnded.symm.trans hHere)
          exact ⟨hNow.symm, hFailure ▸ (verdict_eq hShutdown p.failure).symm⟩
      · exact .of_stopping hNext (hSame.trans hFailure)
    | forsake =>
      obtain ⟨⟨p', hNext, -, hSame⟩, -⟩ := forsake_stopping hPhase
      exact .of_stopping hNext (hSame.trans hFailure)
    | _ => exact absurd trivial hBeside

/-- A stop concerns the workers of its tasks only. -/
theorem Underway.mem_of_concerns {st : Stations deadline} (h : Underway st tasks s) {p : Stopping}
    (hPhase : s.phase = .stopping p) {i : Nat} (hConcerns : p.Concerns i) :
    i ∈ tasks.map Prod.fst := by
  obtain ⟨done, rest, -, -, hTasks, hRemaining, -⟩ := h.stopping hPhase
  rw [hTasks, List.map_append, List.map_append, ← hRemaining]
  rcases hConcerns with ⟨run, hWaits⟩ | hMem
  · simp [hWaits]
  · simp [hMem]

theorem Underway.leavesAlone {st : Stations deadline} (h : Underway st tasks s) {p : Stopping}
    (hPhase : s.phase = .stopping p) {i : Nat} (hOther : i ∉ tasks.map Prod.fst) (m : Move)
    {w : Worker} (hWorker : s.workers[i]? = some w) : (s.move m).On i w.LeftAlone := by
  have hNot : ¬ p.Concerns i := fun hConcerns => hOther (h.mem_of_concerns hPhase hConcerns)
  by_cases hBeside : m.IsBeside
  · exact leavesAlone_beside hBeside i w hWorker
  · refine ⟨w, ?_, .refl⟩
    cases m with
    | goOn =>
      rw [← hWorker, Service.move]
      rcases progress_stopping hPhase with hEnd | hGoes
      · rw [hEnd, (ended_conclude s p.failure).2.2.2]
      · exact hGoes.others i hNot
    | forsake =>
      rw [← hWorker]
      exact (forsake_stopping hPhase).others i hNot
    | _ => exact absurd trivial hBeside

theorem Underway.exists_stopping {st : Stations deadline} (h : Underway st tasks s)
    (hGoing : s.isOver = false) : ∃ p, s.phase = .stopping p := by
  cases h.halfway with
  | stopping hPhase => exact ⟨_, hPhase⟩
  | ended hPhase =>
    rw [isOver_of_ended hPhase] at hGoing
    cases hGoing

/-- The run lemma of a stop: how far it has come, why, and who is not concerned. -/
theorem Running.wound {st : Stations deadline} (hUnderway : Underway st tasks begun)
    (hWinds : Winds failure begun) (h : Running begun told s) :
    Underway st tasks s ∧ Winds failure s ∧
      ∀ (i : Nat) (w : Worker), i ∉ tasks.map Prod.fst → begun.workers[i]? = some w →
        s.On i w.LeftAlone := by
  induction h with
  | begun => exact ⟨hUnderway, hWinds, fun i w _ hWorker => ⟨w, hWorker, .refl⟩⟩
  | @move told s _ m hGoing hAllows ih =>
    obtain ⟨hUnder, hWind, hOthers⟩ := ih
    obtain ⟨p, hPhase⟩ := hUnder.exists_stopping hGoing
    refine ⟨hUnder.move m hAllows, hWind.move hPhase m, fun i w hOther hWorker => ?_⟩
    obtain ⟨v, hHere, hLeft⟩ := hOthers i w hOther hWorker
    exact (hUnder.leavesAlone hPhase hOther m hHere).imp fun _ => hLeft.trans

/-! ## The workers that are stopped -/

/-- The first workers have been stopped. Of the run that each had to hand, the token is cancelled,
and it has ended or was given up at the deadline. -/
structure Dismissed (first later : Service) (count deadline t : Nat) : Prop where
  inTime : t ≤ deadline
  dismissed : ∀ i < count, ∃ run, (first.On i fun w => w.current = some run) ∧
    later.On i fun w => w.isCancelled run = true ∧
      (w.isEnded run = true ∨ (w.current = some run ∧ t = deadline))

/-- The runs that are to be stopped. -/
theorem exists_tasks {count : Nat} (h : ∀ i < count, s.On i IsStarted) :
    ∃ tasks : List (Nat × Nat), tasks.map Prod.fst = List.range count ∧
      ∀ task ∈ tasks, s.On task.1 fun w => w.current = some task.2 ∧ task.2 < w.runs.length := by
  induction count with
  | zero => exact ⟨[], rfl, nofun⟩
  | succ count ih =>
    obtain ⟨tasks, hRange, hTasks⟩ := ih fun i hLess => h i (Nat.lt_succ_of_lt hLess)
    obtain ⟨w, hWorker, run, hRun⟩ := h count (Nat.lt_succ_self count)
    refine ⟨tasks ++ [(count, run)], by simp [hRange, List.range_succ], fun task hMem => ?_⟩
    rcases List.mem_append.mp hMem with hMem | hMem
    · exact hTasks task hMem
    · obtain rfl := List.mem_singleton.mp hMem
      exact ⟨w, hWorker, hRun⟩

/-- What a stop of the first workers leaves when it is over. -/
theorem Running.dismissed {count t : Nat} {result : Result} (hShown : s.CanDrain)
    (h : Running (s.beginStopping (List.range count) failure) told later)
    (hStarted : ∀ i < count, s.On i IsStarted) (hEnded : later.phase = .ended t result) :
    Dismissed s later count (s.now + s.drainTimeout) t ∧ result = later.verdict failure ∧
      ∀ (i : Nat) (w : Worker), count ≤ i → s.workers[i]? = some w → later.On i w.LeftAlone := by
  obtain ⟨tasks, hRange, hTasks⟩ := exists_tasks hStarted
  rw [beginStopping_of_canDrain hShown] at h
  have hBegun : Underway (Service.dismissed (s.now + s.drainTimeout)) tasks { s with
      phase := .stopping ⟨s.now + s.drainTimeout, none, List.range count, failure⟩ } := by
    refine ⟨hRange ▸ List.nodup_range, @Halfway.stopping _ _ tasks _ _ [] tasks rfl rfl
      (Nat.le_add_right _ _) rfl hRange.symm nofun nofun hTasks⟩
  obtain ⟨hUnderway, hWinds, hOthers⟩ := h.wound hBegun (.of_stopping rfl rfl)
  refine ⟨?_, (hWinds.ended t result hEnded).2, fun i w hLe hWorker => ?_⟩
  · cases hUnderway.halfway with
    | stopping hStopping =>
      rw [hEnded] at hStopping
      cases hStopping
    | ended hSame hBefore _ hDone =>
      obtain ⟨rfl, -⟩ := Phase.ended.inj (hEnded.symm.trans hSame)
      refine ⟨hBefore, fun i hLess => ?_⟩
      have hMem : i ∈ tasks.map Prod.fst := hRange ▸ List.mem_range.mpr hLess
      obtain ⟨task, hTask, rfl⟩ := List.mem_map.mp hMem
      refine ⟨task.2, (hTasks task hTask).imp fun _ => And.left, (hDone task hTask).imp ?_⟩
      rintro w ⟨hCancelled, hPast⟩
      exact ⟨hCancelled, hPast.imp_right fun hGiven => ⟨hGiven.1, Nat.le_antisymm hBefore hGiven.2⟩⟩
  · refine hOthers i w ?_ hWorker
    rw [hRange, List.mem_range]
    exact Nat.not_lt.mpr hLe

/-- What a run leaves that has panicked where it should have begun to stop the workers. -/
structure Panicked (s later : Service) (t : Nat) (result : Result) : Prop where
  returned : t = s.now ∧ result = .error .panicked
  spared : later.workers = s.workers

theorem Running.eq_of_isOver (hOver : begun.isOver = true) (h : Running begun told later) :
    later = begun := by
  induction h with
  | begun => rfl
  | move _ m hGoing _ ih =>
    rw [ih, hOver] at hGoing
    cases hGoing

theorem Running.panicked {workers : List Nat} {t : Nat} {result : Result} (hNot : ¬ s.CanDrain)
    (h : Running (s.beginStopping workers failure) told later)
    (hEnded : later.phase = .ended t result) : Panicked s later t result := by
  rw [beginStopping_of_not_canDrain hNot] at h
  obtain rfl := h.eq_of_isOver rfl
  obtain ⟨rfl, rfl⟩ := Phase.ended.inj hEnded
  exact ⟨⟨rfl, rfl⟩, rfl⟩

/-! ## While the service serves -/

theorem LeavesAlone.trans {s' s'' : Service} (h : LeavesAlone s s') (h' : LeavesAlone s' s'') :
    LeavesAlone s s'' :=
  fun i w hWorker => On.alone (h i w hWorker) h' fun _ _ => Relation.ReflTransGen.trans

/-- A run that serves leaves its workers alone, until shutdown is requested and it stops them. -/
theorem Running.serving (hServing : begun.phase = .serving) (h : Running begun told later) :
    (later.phase = .serving ∧ LeavesAlone begun later) ∨
      ∃ since closed rest, Running begun since closed ∧ closed.phase = .serving ∧
        closed.shutdown.isTriggered = true ∧ LeavesAlone begun closed ∧
        Running closed.progress rest later ∧ told = since ++ rest := by
  induction h with
  | begun => exact .inl ⟨hServing, fun i w hWorker => ⟨w, hWorker, .refl⟩⟩
  | @move told s h m hGoing hAllows ih =>
    rcases ih with ⟨hPhase, hAlone⟩ |
      ⟨since, closed, rest, hSince, hPhase, hAsked, hAlone, hRest, rfl⟩
    · by_cases hBeside : m.IsBeside
      · exact .inl ⟨(phase_beside hBeside).trans hPhase, hAlone.trans (leavesAlone_beside hBeside)⟩
      · cases m with
        | goOn =>
          cases hTriggered : s.shutdown.isTriggered with
          | true => exact .inr ⟨told, s, [], h, hPhase, hTriggered, hAlone, .begun, rfl⟩
          | false =>
            have hStays : s.progress = s := by simp [Service.progress, hPhase, hTriggered]
            rw [Service.move, hStays]
            exact .inl ⟨hPhase, hAlone⟩
        | forsake =>
          have hStays : s.forsake = s := by simp [Service.forsake, hPhase]
          rw [Service.move, hStays]
          exact .inl ⟨hPhase, hAlone⟩
        | _ => exact absurd trivial hBeside
    · exact .inr ⟨since, closed, rest ++ s.events m, hSince, hPhase, hAsked, hAlone,
        hRest.move m hGoing hAllows, List.append_assoc _ _ _⟩

theorem progress_of_triggered (hPhase : s.phase = .serving)
    (hTriggered : s.shutdown.isTriggered = true) :
    s.progress = (s.note [.info "HTTP server stopped" []]).beginStopping
      (List.range s.workers.length) none := by
  simp [Service.progress, hPhase, hTriggered]

/-! ## The run returns -/

theorem Listed.move (h : s.Listed) (m : Move) : (s.move m).Listed := by
  by_cases hBeside : m.IsBeside
  · exact h.beside hBeside
  · cases m with
    | goOn => exact h.spares (spares_progress s)
    | forsake => exact h.spares (spares_forsake s)
    | _ => exact absurd trivial hBeside

theorem Running.listed (h : Running begun told s) (hListed : begun.Listed) : s.Listed := by
  induction h with
  | begun => exact hListed
  | move _ m _ _ ih => exact ih.move m

/-- The service is about to stop its workers, stops them or has stopped them, by a deadline. -/
inductive Closing (deadline : Nat) (s : Service) : Prop where
  | serving (hPhase : s.phase = .serving) (hTriggered : s.shutdown.isTriggered = true)
    (hDeadline : s.now + s.drainTimeout = deadline)
  | stopping {p : Stopping} (hPhase : s.phase = .stopping p) (hDeadline : p.deadline = deadline)
  | ended (hOver : s.isOver = true)

/-- A service that has to stop its workers does not let time pass before it does. -/
theorem not_still_of_triggered (hPhase : s.phase = .serving)
    (hTriggered : s.shutdown.isTriggered = true) : ¬ s.Still := by
  intro hStill
  have hStays := congrArg Service.phase (progress_of_still hStill).1
  rw [progress_of_triggered hPhase hTriggered, hPhase] at hStays
  unfold beginStopping at hStays
  split at hStays <;> cases hStays

theorem exists_ended (hOver : s.isOver = true) : ∃ t result, s.phase = .ended t result := by
  unfold isOver at hOver
  split at hOver
  · next t result hPhase => exact ⟨t, result, hPhase⟩
  · cases hOver

/-- A stop that begins is closing, whether its deadline can be shown or not. -/
theorem closing_beginStopping (s : Service) (workers : List Nat) (failure : Option RunError) :
    Closing (s.now + s.drainTimeout) (s.beginStopping workers failure) := by
  by_cases hShown : s.CanDrain
  · rw [beginStopping_of_canDrain hShown]
    exact .stopping rfl rfl
  · rw [beginStopping_of_not_canDrain hShown]
    exact .ended rfl

theorem Closing.move (h : Closing deadline s) (m : Move) (hAdmits : s.Admits m) :
    Closing deadline (s.move m) := by
  cases h with
  | serving hPhase hTriggered hDeadline =>
    by_cases hBeside : m.IsBeside
    · have hTells := tells_move s m
      have hNow : (s.move m).now = s.now := by
        refine now_move fun d hIs => ?_
        subst hIs
        rcases hAdmits with hOver | ⟨hStill, -⟩
        · simp [isOver, hPhase] at hOver
        · exact not_still_of_triggered hPhase hTriggered hStill
      refine .serving ((phase_beside hBeside).trans hPhase) ?_ ?_
      · rw [hTells.shutdown]
        exact Shutdown.isTriggered_after _ _ hTriggered
      · rw [hNow, drainTimeout, hTells.config]
        exact hDeadline
    · cases m with
      | goOn =>
        rw [Service.move, progress_of_triggered hPhase hTriggered, ← hDeadline]
        exact closing_beginStopping (s.note [.info "HTTP server stopped" []]) _ _
      | forsake =>
        have hStays : s.forsake = s := by simp [Service.forsake, hPhase]
        rw [Service.move, hStays]
        exact .serving hPhase hTriggered hDeadline
      | _ => exact absurd trivial hBeside
  | @stopping p hPhase hDeadline =>
    by_cases hBeside : m.IsBeside
    · exact .stopping ((phase_beside hBeside).trans hPhase) hDeadline
    · cases m with
      | goOn =>
        rcases progress_stopping hPhase with hEnd | ⟨⟨p', hNext, hSame, -⟩, -⟩
        · rw [Service.move, hEnd]
          exact .ended (isOver_of_ended (ended_conclude s p.failure).1)
        · exact .stopping hNext (hSame.trans hDeadline)
      | forsake =>
        obtain ⟨⟨p', hNext, hSame, -⟩, -⟩ := forsake_stopping hPhase
        exact .stopping hNext (hSame.trans hDeadline)
      | _ => exact absurd trivial hBeside
  | ended hOver =>
    obtain ⟨t, result, hPhase⟩ := exists_ended hOver
    exact .ended (isOver_of_ended (ended_move hPhase m))

theorem Course.closing (hClosing : Closing deadline begun) (h : Course begun s) :
    Closing deadline s := by
  induction h with
  | begun => exact hClosing
  | move _ m hAdmits ih => exact ih.move m hAdmits

/-- A course is a run until it returns, and what happens after that. -/
theorem Course.running (h : Course begun later) :
    ∃ told mid, Running begun told mid ∧ Course mid later ∧ (mid.isOver = true ∨ mid = later) := by
  induction h with
  | begun => exact ⟨[], begun, .begun, .begun, .inr rfl⟩
  | @move s _ m hAdmits ih =>
    obtain ⟨told, mid, hRunning, hCourse, hOver | rfl⟩ := ih
    · exact ⟨told, mid, hRunning, hCourse.move m hAdmits, .inl hOver⟩
    · cases hOver : mid.isOver with
      | true => exact ⟨told, mid, hRunning, Course.begun.move m hAdmits, .inl hOver⟩
      | false =>
        exact ⟨_, mid.move m, hRunning.move m hOver hAdmits.allows, .begun, .inr rfl⟩

/-- The clock makes a run that has returned by an instant. -/
def ReturnsBy (s : Service) (target : Nat) : Prop :=
  ∃ told returned, Running s told returned ∧ returned.isOver = true ∧
    Course returned (Clock.runUntil due fire s.now target s.settle)

/-- The clock of the library makes such a service return by its deadline. -/
theorem Closing.returnsBy (h : Closing deadline s) (hListed : s.Listed)
    (hDeadline : s.now ≤ deadline) {target : Nat} (hPast : deadline ≤ target) :
    s.ReturnsBy target := by
  obtain ⟨hSettled, hNow⟩ := hListed.settled
  obtain ⟨hCourse, hEnd⟩ := (@Course.begun s).settle.runUntil hSettled
    (hNow.symm ▸ Nat.le_trans hDeadline hPast : s.settle.now ≤ target)
  rw [hNow] at hCourse hEnd
  have hOver : (Clock.runUntil due fire s.now target s.settle).isOver = true := by
    rcases hEnd with hOver | ⟨hThen, hStill⟩
    · exact hOver
    · cases hCourse.closing h with
      | serving hPhase hTriggered =>
        exact absurd hStill.still (not_still_of_triggered hPhase hTriggered)
      | stopping hPhase hSame =>
        have hEarly := ((progress_of_still hStill.still).2 _ hPhase).1
        omega
      | ended hOver => exact hOver
  obtain ⟨told, returned, hRunning, hAfter, hReturned | rfl⟩ := hCourse.running
  · exact ⟨told, returned, hRunning, hReturned, hAfter⟩
  · exact ⟨told, _, hRunning, hOver, hAfter⟩

/-! ## What a run leaves -/

variable {s₀ mid : Service} {started t : Nat} {before after : List Event} {e : Worker.Error}
  {result : Result}

/-- What a run leaves that could not start a worker: `before` was told until then, `after` since. -/
structure FailedStart (s₀ mid later : Service) (failed : Nat) (e : Worker.Error)
    (before after : List Event) (t : Nat) (result : Result) : Prop where
  returned : ∃ w, s₀.workers[failed]? = some w ∧ result = .error (.worker w.name e)
  dismissed : Dismissed mid later failed (mid.now + s₀.drainTimeout) t
  untouched : ∀ (i : Nat) (w : Worker), failed ≤ i → s₀.workers[i]? = some w →
    later.On i w.LeftAlone
  requested : later.shutdown.isTriggered = true ∧ later.shutdown.exitCode =
    some ((s₀.shutdown.exitCode.or (codesOf before).head?).getD Worker.fatalExitCode)
  unmarked : later.ServerReady → s₀.ServerReady ∨
    ∃ moment, (.mark serverComponent, moment) ∈ callsOf (before ++ after)

/-- What a run leaves that has served until it `closed`: `before` was told until it served, `after`
since. -/
structure Served (s₀ mid closed later : Service) (before after : List Event) (t : Nat)
    (result : Result) : Prop where
  returned : result =
    .ok ((s₀.shutdown.exitCode.or (codesOf (before ++ after)).head?).getD 0)
  dismissed : Dismissed mid later s₀.workers.length (closed.now + s₀.drainTimeout) t

theorem Tells.exitCode (h : Tells told s₀ s) :
    s.shutdown.exitCode = s₀.shutdown.exitCode.or (codesOf told).head? := by
  rw [h.shutdown, Shutdown.exitCode_after]

theorem Tells.drainTimeout (h : Tells told s₀ s) : s.drainTimeout = s₀.drainTimeout := by
  rw [Service.drainTimeout, Service.drainTimeout, h.config]

/-- The listener becomes ready by a call that marks it, and by nothing else. -/
theorem ServerReady.of_after {calls : List Call} (hReady : s.ServerReady)
    (hCoordinator : s.coordinator = s₀.coordinator.after calls) :
    s₀.ServerReady ∨ ∃ moment, (.mark serverComponent, moment) ∈ calls := by
  obtain ⟨x, hKnown, hIs⟩ := hReady
  rw [hCoordinator] at hKnown
  exact (Readiness.Coordinator.ready_after hKnown hIs).imp_left fun hBefore => ⟨x, hBefore, hIs⟩

theorem Startup.failedStart (hStartup : Startup s₀ started before mid) (hShown : mid.CanDrain)
    (hError : (mid.startWorker started).1 = .error e)
    (h : Running (mid.failStart started e) after later) (hEnded : later.phase = .ended t result) :
    FailedStart s₀ mid later started e before after t result := by
  obtain ⟨hTells, hRunning, hOthers⟩ := hStartup.prepared
  have hSince := h.tells
  have hBegun := tells_beginStopping (mid.failing started e) (List.range started)
    (some (.worker (mid.nameOf started) e))
  have hShown' : (mid.failing started e).CanDrain := hShown
  have hRunning' : ∀ i < started, (mid.failing started e).On i IsStarted := hRunning
  obtain ⟨hDismissed, hResult, hRest⟩ := Running.dismissed hShown' h hRunning' hEnded
  have hKnown : started < s₀.workers.length := hTells.length ▸ (startWorker_error hError).2
  refine ⟨⟨s₀.workers[started], List.getElem?_eq_getElem hKnown, ?_⟩, ?_, ?_, ⟨?_, ?_⟩, ?_⟩
  · obtain ⟨w, hWorker, hAlone⟩ :=
      hOthers started _ (Nat.le_refl _) (List.getElem?_eq_getElem hKnown)
    have hName : mid.nameOf started = s₀.workers[started].name := by
      simp [nameOf, hWorker, hAlone.same.1]
    rw [← hName]
    exact hResult
  · rw [← hTells.drainTimeout]
    exact ⟨hDismissed.inTime, hDismissed.dismissed⟩
  · intro i w hLe hWorker
    obtain ⟨v, hHere, hAlone⟩ := hOthers i w hLe hWorker
    exact (hRest i v hLe hHere).imp fun _ => hAlone.trans
  · rw [hSince.shutdown]
    refine Shutdown.isTriggered_after _ _ ?_
    rw [failStart, hBegun.shutdown]
    exact Shutdown.isTriggered_request _ _
  · have hCode : (mid.failStart started e).shutdown.exitCode =
        some (mid.shutdown.exitCode.getD Worker.fatalExitCode) := by
      rw [failStart, hBegun.shutdown]
      refine (Shutdown.exitCode_request mid.shutdown Worker.fatalExitCode).trans ?_
      cases mid.shutdown.exitCode <;> rfl
    rw [hSince.exitCode, hCode, Option.some_or, hTells.exitCode]
  · intro hReady
    refine hReady.of_after ?_
    have hSame : (mid.failStart started e).coordinator = mid.coordinator := hBegun.coordinator
    rw [hSince.coordinator, hSame, hTells.coordinator, callsOf_append,
      Readiness.Coordinator.after_append]

theorem Startup.served {closed : Service} {since rest : List Event}
    (hStartup : Startup s₀ s₀.workers.length before mid) (hClosed : Running mid.serve since closed)
    (hShown : closed.CanDrain) (hPhase : closed.phase = .serving)
    (hTriggered : closed.shutdown.isTriggered = true) (hAlone : LeavesAlone mid.serve closed)
    (hRest : Running closed.progress rest later) (hEnded : later.phase = .ended t result) :
    Served s₀ mid closed later before (since ++ rest) t result := by
  obtain ⟨hTells, hRunning, -⟩ := hStartup.prepared
  have hSame : mid.serve.shutdown = mid.shutdown := rfl
  have hSince := (hClosed.tells.trans (tells_progress closed)).trans hRest.tells
  rw [List.append_nil] at hSince
  rw [progress_of_triggered hPhase hTriggered] at hRest
  have hLength : closed.workers.length = s₀.workers.length :=
    hClosed.tells.length.trans hTells.length
  have hStarted : ∀ i < closed.workers.length, closed.On i IsStarted := fun i hLess =>
    (hRunning i (hLength ▸ hLess)).alone hAlone fun _ _ => IsStarted.alone
  have hTimeout : closed.drainTimeout = s₀.drainTimeout :=
    hClosed.tells.drainTimeout.trans hTells.drainTimeout
  have hShown' : (closed.note [.info "HTTP server stopped" []]).CanDrain := hShown
  obtain ⟨hDismissed, hResult, -⟩ := Running.dismissed hShown' hRest hStarted hEnded
  refine ⟨?_, ?_, fun i hLess => ?_⟩
  · rw [hResult, verdict, hSince.exitCode, hSame, hTells.exitCode, Option.or_assoc,
      ← List.head?_append, ← codesOf_append]
  · exact hTimeout ▸ hDismissed.inTime
  · obtain ⟨run, hHad, hDone⟩ := hDismissed.dismissed i (hLength.symm ▸ hLess)
    rw [← hTimeout]
    refine ⟨run, ?_, hDone⟩
    obtain ⟨w, hWorker, run', hCurrent, -⟩ := hRunning i hLess
    obtain ⟨v, hHere, hLeft⟩ := hAlone i w hWorker
    obtain ⟨v', hSame', hCurrent'⟩ := hHad
    obtain rfl : v = v' := Option.some.inj (hHere.symm.trans hSame')
    exact ⟨w, hWorker, hLeft.goesOn.current.symm.trans hCurrent'⟩

/-- A run that has served has closed at some instant, and has stopped its workers since or panicked
there and then. -/
theorem Startup.closed (hStartup : Startup s₀ s₀.workers.length before mid)
    (h : Running mid.serve after later) (hEnded : later.phase = .ended t result) :
    ∃ since closed rest, Running mid.serve since closed ∧ closed.phase = .serving ∧
      closed.shutdown.isTriggered = true ∧ Running closed.progress rest later ∧
      after = since ++ rest ∧
      (closed.CanDrain → Served s₀ mid closed later before after t result) ∧
      (¬ closed.CanDrain → Panicked closed later t result) := by
  rcases h.serving rfl with ⟨hServing, -⟩ |
    ⟨since, closed, rest, hClosed, hPhase, hTriggered, hAlone, hRest, rfl⟩
  · rw [hEnded] at hServing
    cases hServing
  refine ⟨since, closed, rest, hClosed, hPhase, hTriggered, hRest, rfl, fun hShown => ?_,
    fun hNot => ?_⟩
  · exact hStartup.served hClosed hShown hPhase hTriggered hAlone hRest hEnded
  · rw [progress_of_triggered hPhase hTriggered] at hRest
    have hNot' : ¬ (closed.note [.info "HTTP server stopped" []]).CanDrain := hNot
    obtain ⟨hReturned, hSpared⟩ := hRest.panicked hNot' hEnded
    exact ⟨hReturned, hSpared⟩

/-- A run of a service, whatever its workers are and whatever happens beside it. If a worker lacks
a collaborator, the run returns the error of the first such worker and has changed nothing. If not,
it starts its workers in order, and comes to a start that fails or serves.

Both end in a stop of the workers, and only where the clock will show the deadline of that stop does
the run return. After a start that fails it then returns the error by the deadline. By then the run
of every worker that it has started is cancelled, and has ended or was given up at the deadline;
nobody has touched the others; shutdown is requested, and the listener is not ready unless somebody
else has seen to it. A run that serves returns, by the deadline, the first code that was ever asked
for, after all workers have been stopped in the same way. Where the clock will not show the deadline
the run panics instead, and leaves all workers to themselves. The clock of the library makes such
runs. -/
theorem run_outcome (s : Service) :
    (∀ (before : List Worker) (w : Worker) (after : List Worker) (e : Worker.Error),
      s.workers = before ++ w :: after → (∀ v ∈ before, v.checkCollaborators = .ok ()) →
      w.checkCollaborators = .error e →
        s.beginOn = { s with phase := .ended s.now (.error (.worker w.name e)) }) ∧
    ((∀ w ∈ s.workers, w.checkCollaborators = .ok ()) →
      ∃ started mid, Startup s started [.called (.add serverComponent, s.now)] mid ∧
        ((∃ e, (mid.startWorker started).1 = .error e ∧ s.beginOn = mid.failStart started e) ∨
          (started = s.workers.length ∧ s.beginOn = mid.serve))) ∧
    (∀ started before mid e, Startup s started before mid →
      (mid.startWorker started).1 = .error e →
        (∀ after later t result, Running (mid.failStart started e) after later →
          later.phase = .ended t result →
            (mid.CanDrain → FailedStart s mid later started e before after t result) ∧
            (¬ mid.CanDrain → Panicked mid later t result)) ∧
        (s.Listed → ∀ target, mid.now + s.drainTimeout ≤ target →
          (mid.failStart started e).ReturnsBy target)) ∧
    (∀ before mid, Startup s s.workers.length before mid →
      (∀ after later t result, Running mid.serve after later → later.phase = .ended t result →
        ∃ since closed rest, Running mid.serve since closed ∧ closed.phase = .serving ∧
          closed.shutdown.isTriggered = true ∧ Running closed.progress rest later ∧
          after = since ++ rest ∧
          (closed.CanDrain → Served s mid closed later before after t result) ∧
          (¬ closed.CanDrain → Panicked closed later t result)) ∧
      (s.Listed → ∀ since closed, Running mid.serve since closed → closed.phase = .serving →
        closed.shutdown.isTriggered = true → ∀ target, closed.now + s.drainTimeout ≤ target →
          closed.ReturnsBy target)) ∧
    (s.Listed → s.now ≤ patience → ∀ (isLocal : String → Bool) (steps : List Step),
      isLocal s.config.listener.bindAddress = true →
        ∃ told mid, Running s.beginOn told mid ∧ Course mid (s.run isLocal steps).2 ∧
          (mid.isOver = true ∨ mid = (s.run isLocal steps).2)) := by
  refine ⟨fun _ _ _ _ => beginOn_missing, beginOn_cases, ?_, ?_, ?_⟩
  · intro started before mid e hStartup hError
    refine ⟨fun _ _ _ _ h hEnded => ⟨fun hShown => ?_, fun hNot => ?_⟩,
      fun hListed target hPast => ?_⟩
    · exact hStartup.failedStart hShown hError h hEnded
    · have hNot' : ¬ (mid.failing started e).CanDrain := hNot
      obtain ⟨hReturned, hSpared⟩ := Running.panicked hNot' h hEnded
      exact ⟨hReturned, hSpared⟩
    · have hClosing : Closing (mid.now + mid.drainTimeout) (mid.failStart started e) :=
        closing_beginStopping (mid.failing started e) _ _
      have hSpares : Spares (mid.failing started e) (mid.failStart started e) :=
        spares_beginStopping _ _ _
      have hFailing : (mid.failing started e).Listed := hStartup.listed hListed
      have hNow : (mid.failStart started e).now = mid.now := hSpares.now
      rw [← hStartup.prepared.tells.drainTimeout] at hPast
      refine hClosing.returnsBy (hFailing.spares hSpares) ?_ hPast
      exact hNow ▸ Nat.le_add_right _ _
  · intro before mid hStartup
    refine ⟨fun _ _ _ _ => hStartup.closed, ?_⟩
    intro hListed since closed hClosed hPhase hTriggered target hPast
    have hTimeout : closed.drainTimeout = s.drainTimeout :=
      hClosed.tells.drainTimeout.trans hStartup.prepared.tells.drainTimeout
    have hReady : mid.serve.Listed := hStartup.listed hListed
    have hClosing : Closing (closed.now + s.drainTimeout) closed :=
      .serving hPhase hTriggered (congrArg (closed.now + ·) hTimeout)
    exact hClosing.returnsBy (hClosed.listed hReady) (Nat.le_add_right _ _) hPast
  · intro hListed hNow isLocal steps hLocal
    have hRun := Course.run hListed hNow isLocal steps
    have hBegin : s.begin isLocal = s.beginOn := by simp [Service.begin, hLocal]
    rw [hBegin] at hRun
    exact hRun.running

/-! ## Two workers -/

/-- Time only goes on. -/
theorem Running.now_le (h : Running begun told s) : begun.now ≤ s.now := by
  induction h with
  | begun => exact Nat.le_refl _
  | @move told s _ m _ _ ih =>
    by_cases hElapse : ∃ d, m = .elapse d
    · obtain ⟨d, rfl⟩ := hElapse
      exact Nat.le_trans ih (Nat.le_add_right _ d)
    · rw [now_move fun d hIs => hElapse ⟨d, hIs⟩]
      exact ih

/-- A deadline that can be shown later could have been shown before. -/
theorem CanDrain.earlier (h : s.CanDrain) (hTells : Tells told begun s)
    (hBefore : begun.now ≤ s.now) : begun.CanDrain := by
  unfold CanDrain at h ⊢
  rw [hTells.uptime, hTells.drainTimeout] at h
  omega

/-- A service with a drain timeout of one second and two workers, of which the second may run
already when the service begins its run. -/
def pair (busy : Bool) : Service :=
  let worker (name : String) : Worker :=
    .create name ⟨false, false, false⟩ (inBody name 300).body true true
  (((create _ _).toOption.get create_brief).addWorker (worker "indexer") false).addWorker
    (worker "heartbeat") busy

/-- The first worker has been started. -/
def half (busy : Bool) : Service :=
  (((pair busy).command (.add serverComponent)).2.startWorker 0).2

/-- Both workers have been started. -/
def both : Service := ((half false).startWorker 1).2

theorem startup_half (busy : Bool) :
    Startup (pair busy) 1 [.called (.add serverComponent, (pair busy).now)] (half busy) := by
  refine Startup.registered.start ?_ ?_ <;> cases busy <;> decide +kernel

theorem listed_pair (busy : Bool) : (pair busy).Listed :=
  ((listed_create (create_get create_brief)).addWorker rfl false).addWorker rfl busy

/-- Moves that take no time. -/
theorem Running.moves {moves : List Move} (h : Running begun told s)
    (hInstant : ∀ m ∈ moves, ∀ d, m ≠ .elapse d)
    (hGoing : ∀ k < moves.length, ((moves.take k).foldl Service.move s).isOver = false) :
    ∃ after, Running begun after (moves.foldl Service.move s) := by
  induction moves generalizing told s with
  | nil => exact ⟨told, h⟩
  | cons m rest ih =>
    have hAllows : s.Allows m := by
      cases m with
      | elapse d => exact absurd rfl (hInstant _ List.mem_cons_self d)
      | _ => trivial
    refine ih (h.move m (hGoing 0 (Nat.succ_pos _)) hAllows)
      (fun m' hMem => hInstant m' (List.mem_cons_of_mem _ hMem)) fun k hLess => ?_
    exact hGoing (k + 1) (Nat.succ_lt_succ hLess)

/-- Somebody asks for a code, and both bodies end as soon as their workers are stopped. -/
def swift : List Move :=
  [.poll 0 0, .poll 1 0, .request 3, .goOn, .goOn, .endBody 0 0 .ok, .goOn, .goOn,
    .endBody 1 0 .ok, .goOn, .goOn]

/-- If the second worker runs already, the run fails and shutdown is requested; if not, it serves,
and returns the code that somebody asks for. -/
theorem run_outcome_pair :
    (∃ after later t, Running ((half true).failStart 1 .alreadyRunning) after later ∧
      later.phase = .ended t (.error (.worker "heartbeat" .alreadyRunning)) ∧
      t ≤ Duration.ofSeconds 1 ∧ later.shutdown.exitCode = some Worker.fatalExitCode) ∧
    ∃ after later t, Running both.serve after later ∧
      later.phase = .ended t (.ok 3) := by
  constructor
  · obtain ⟨-, -, hFails, -, -⟩ := run_outcome (pair true)
    obtain ⟨hLeaves, hReturns⟩ := hFails 1 _ (half true) .alreadyRunning (startup_half true) rfl
    obtain ⟨after, later, hRunning, hOver, -⟩ := hReturns (listed_pair true) _ (Nat.le_refl _)
    obtain ⟨t, result, hEnded⟩ := exists_ended hOver
    obtain ⟨⟨w, hWorker, rfl⟩, hDismissed, -, ⟨-, hCode⟩, -⟩ :=
      (hLeaves after later t result hRunning hEnded).1 (by decide +kernel)
    have hName : ((pair true).workers[1]?).map Worker.name = some "heartbeat" := by decide +kernel
    rw [hWorker, Option.map_some, Option.some_inj] at hName
    refine ⟨after, later, t, hRunning, hName ▸ hEnded, ?_, hCode.trans ?_⟩
    · exact Nat.le_trans hDismissed.inTime (by decide +kernel)
    · decide +kernel
  · obtain ⟨-, -, -, hServes, -⟩ := run_outcome (pair false)
    have hStartup : Startup (pair false) (pair false).workers.length _ both :=
      (startup_half false).start (by decide +kernel) rfl
    obtain ⟨hLeaves, -⟩ := hServes _ both hStartup
    -- No time passes, so the deadline can be shown wherever the run has closed.
    let later := swift.foldl Service.move both.serve
    have hGoing :
        ∀ k < swift.length, ((swift.take k).foldl Service.move both.serve).isOver = false := by
      decide +kernel
    obtain ⟨after, hRunning⟩ := Running.begun.moves (by simp [swift]) hGoing
    have hShown : later.CanDrain := by decide +kernel
    obtain ⟨t, result, hEnded⟩ := exists_ended (by decide +kernel : later.isOver = true)
    obtain ⟨since, closed, rest, -, -, -, hStops, -, hServed, -⟩ :=
      hLeaves after later t result hRunning hEnded
    have hTells := (tells_progress closed).trans hStops.tells
    have hBefore : closed.now ≤ later.now := (spares_progress closed).now ▸ hStops.now_le
    have hReturned := (hServed (hShown.earlier hTells hBefore)).returned
    have hNone : both.serve.shutdown.exitCode = none := by decide +kernel
    have hCode : later.shutdown.exitCode = some 3 := by decide +kernel
    rw [hRunning.tells.exitCode, hNone, Option.none_or] at hCode
    have hUnasked : (pair false).shutdown.exitCode = none := by decide +kernel
    rw [hUnasked, Option.none_or, codesOf_append, List.head?_append, hCode] at hReturned
    exact ⟨after, later, t, hRunning, hReturned ▸ hEnded⟩

/-! ## A deadline that the clock will not show -/

deriving instance DecidableEq for Phase

theorem create_endless :
    (create { listener := { drainTimeoutSecs := 9223372036854775807 } }
      (Duration.ofSeconds 1)).toOption.isSome = true := by
  decide +kernel

/-- A service with the longest drain timeout that its configuration may name, on a host that has
been up for a second, and one worker. -/
def endless : Service :=
  ((create _ _).toOption.get create_endless).addWorker
    (.create "indexer" ⟨false, false, false⟩ (inBody "indexer" 300).body true true) false

/-- Somebody asks such a service to shut down. It has started its worker and serves, and it panics
instead of returning the code: its worker runs on, and no token is cancelled. -/
theorem not_always_returned :
    let later := (endless.run (fun _ => true) [.request 3]).2
    (∀ w ∈ endless.workers, w.checkCollaborators = .ok ()) ∧
      later.phase = .ended 0 (.error .panicked) ∧ later.shutdown.exitCode = some 3 ∧
      later.On 0 fun w => w.state = .running ∧ w.isCancelled 0 = false ∧ w.isEnded 0 = false := by
  intro later
  decide +kernel

end Gatehouse.Service
