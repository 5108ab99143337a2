import Gatehouse.Proofs.Service.Timers

/-!
# One deadline for all workers

The stop of a service is over by its deadline, whatever its workers do, and by then every token has
been cancelled. A worker that is stopped late has the rest of the time only: what counts for it is
the deadline, and not how long ago its own token was cancelled.

* `stopped_by_deadline`: what holds of every course.
* `not_always_in_time`: two workers that need less than the drain timeout, and the second is given
  up.
-/

namespace Gatehouse.Service

variable {begun s : Service} {deadline : Nat} {tasks : List (Nat × Nat)} {task : Nat × Nat}

/-! ## The stop as a whole -/

theorem sound_beginStopping (failure : Option RunError) (hShown : s.CanDrain)
    (hDistinct : (tasks.map Prod.fst).Nodup)
    (hRunning : ∀ task ∈ tasks, s.Has task ∧ s.Works task) :
    Sound (s.now + s.drainTimeout) tasks (s.beginStopping (tasks.map Prod.fst) failure) := by
  rw [beginStopping_of_canDrain hShown]
  exact ⟨hDistinct, fun task hMem => (hRunning task hMem).2,
    @Progressed.stopping _ tasks _ _ [] tasks rfl rfl (Nat.le_add_right _ _) rfl rfl nofun nofun
      fun task hMem => (hRunning task hMem).1⟩

/-- The clock of the library makes a course of every stop, which is over by the deadline. -/
theorem course_stopUntil (failure : Option RunError) (hShown : s.CanDrain)
    (hDistinct : (tasks.map Prod.fst).Nodup)
    (hRunning : ∀ task ∈ tasks, s.Has task ∧ s.Works task) (hListed : s.Listed) {target : Nat}
    (hAhead : s.now ≤ target) :
    let begun := s.beginStopping (tasks.map Prod.fst) failure
    let later := Clock.runUntil due fire s.now target begun.settle
    Course begun later ∧
      (s.now + s.drainTimeout ≤ target → later.isOver = true) := by
  intro begun later
  have hBegun := sound_beginStopping failure hShown hDistinct hRunning
  have hSpares := spares_beginStopping s (tasks.map Prod.fst) failure
  have hBegunListed : begun.Listed := hListed.spares hSpares
  obtain ⟨hSettled, hNow⟩ := hBegunListed.settled
  have hStart : begun.settle.now = s.now := hNow.trans hSpares.now
  obtain ⟨hCourse, hEnd⟩ :=
    Course.begun.settle.runUntil hSettled (hStart.symm ▸ hAhead : begun.settle.now ≤ target)
  rw [hStart] at hCourse hEnd
  have hLater := hCourse.sound hBegun
  refine ⟨hCourse, fun hPast => ?_⟩
  rcases hEnd with hOver | ⟨hThen, hStill⟩
  · exact hOver
  · rcases (hLater.of_still hStill.still).2 with hOver | ⟨hEarly, -⟩
    · exact hOver
    · omega

theorem Course.hasEnded (hEnded : s.HasEnded task) {later : Service} (h : Course s later) :
    later.HasEnded task := by
  induction h with
  | begun => exact hEnded
  | move _ m _ ih => exact ih.move m

/-- What all runs that end before the deadline come to. -/
theorem InTime.of_hasEnded (hSound : Sound deadline tasks s) (hEarly : s.now < deadline)
    (hEnded : ∀ task ∈ tasks, s.HasEnded task) : InTime deadline tasks s := by
  cases hSound.progressed with
  | stopping hPhase => exact .inr ⟨by simp [isOver, hPhase], hEarly, hEnded⟩
  | ended hPhase _ hNow => exact .inl ⟨_, _, hPhase, Nat.lt_of_le_of_lt hNow hEarly⟩

theorem InTime.stopped (h : InTime deadline tasks s) (hSound : Sound deadline tasks s)
    (hEnded : ∀ task ∈ tasks, s.HasEnded task) :
    (s.Still → s.isOver = true) ∧ (s.isOver = true → ∀ task ∈ tasks,
      s.On task.1 fun w => w.state = .stopped ∧ w.current = none) := by
  refine ⟨fun hStill => ?_, fun hOver task hMem => ?_⟩
  · rcases (hSound.of_still hStill).2 with hOver | ⟨-, task, hMem, hNot⟩
    · exact hOver
    · exact absurd (hEnded task hMem) hNot
  · rcases h with ⟨t, result, hPhase, hBefore⟩ | ⟨hGoing, -⟩
    · cases hSound.progressed with
      | stopping hStopping =>
        rw [hPhase] at hStopping
        cases hStopping
      | ended hSame _ _ hDone =>
        obtain ⟨rfl, -⟩ := Phase.ended.inj (hPhase.symm.trans hSame)
        obtain ⟨w, hWorker, -, hTaken⟩ := hDone task hMem
        obtain ⟨v, hHere, hWorks⟩ := hSound.works task hMem
        obtain rfl : w = v := Option.some.inj (hWorker.symm.trans hHere)
        obtain ⟨v, hHere, hIs⟩ := hEnded task hMem
        obtain rfl : w = v := Option.some.inj (hWorker.symm.trans hHere)
        exact ⟨w, hWorker, hWorks.state_of_isEnded hIs, hTaken.resolve_right (by omega)⟩
    · rw [hGoing] at hOver
      cases hOver

/-- A service stops workers that have been started, whether their bodies were invoked or not, by a
deadline that the clock will show. In every course the stop is over by the deadline, and then every
token has been cancelled. If all runs have ended at some instant before the deadline, the stop is
over there and then, every worker is stopped and none is given up. The clock of the library makes
such a course of every stop. -/
theorem stopped_by_deadline {s : Service} {tasks : List (Nat × Nat)} (failure : Option RunError)
    (hShown : s.CanDrain) (hDistinct : (tasks.map Prod.fst).Nodup)
    (hRunning : ∀ task ∈ tasks, s.Has task ∧ s.Works task) :
    let begun := s.beginStopping (tasks.map Prod.fst) failure
    let deadline := s.now + s.drainTimeout
    (∀ mid, Course begun mid →
      (mid.Still → mid.isOver = true ∨ mid.now < deadline) ∧
      (∀ t result, mid.phase = .ended t result →
        t ≤ deadline ∧ ∀ task ∈ tasks, mid.On task.1 fun w => w.isCancelled task.2 = true) ∧
      (mid.now < deadline → (∀ task ∈ tasks, mid.HasEnded task) → ∀ later, Course mid later →
        (later.Still → later.isOver = true) ∧ (later.isOver = true → ∀ task ∈ tasks,
          later.On task.1 fun w => w.state = .stopped ∧ w.current = none))) ∧
    (s.Listed → ∀ target, s.now ≤ target →
      let later := Clock.runUntil due fire s.now target begun.settle
      Course begun later ∧ (deadline ≤ target → later.isOver = true)) := by
  intro begun deadline
  have hBegun : Sound deadline tasks begun :=
    sound_beginStopping failure hShown hDistinct hRunning
  refine ⟨fun mid hCourse => ?_, fun hListed target hAhead => ?_⟩
  · have hSound := hCourse.sound hBegun
    refine ⟨fun hStill => ?_, fun t result hPhase => ?_, fun hEarly hEnded later hLater => ?_⟩
    · exact (hSound.of_still hStill).2.imp_right fun hWaits => hWaits.1
    · cases hSound.progressed with
      | stopping hStopping =>
        rw [hPhase] at hStopping
        cases hStopping
      | ended hSame hBefore _ hDone =>
        obtain ⟨rfl, -⟩ := Phase.ended.inj (hPhase.symm.trans hSame)
        exact ⟨hBefore, fun task hMem => (hDone task hMem).imp fun _ hDealt => hDealt.1⟩
    · have hInTime := InTime.of_hasEnded hSound hEarly hEnded
      exact (hLater.inTime hSound hInTime).stopped (hLater.sound hSound)
        fun task hMem => hLater.hasEnded (hEnded task hMem)
  · exact course_stopUntil failure hShown hDistinct hRunning hListed hAhead

/-! ## Two workers -/

/-- A worker in a body that takes so many milliseconds and ignores its token. -/
def inBody (name : String) (ms : Nat) : Worker :=
  let plan : Worker.Plan := ⟨some (Duration.ofMillis ms), .ok, none, false⟩
  { Worker.create name ⟨false, false, false⟩ ⟨plan, []⟩ true true with
    state := .running
    runs := [⟨.body plan plan.duration, false⟩]
    current := some 0
    calls := 1 }

theorem create_get {config : Config} {uptime : Nat}
    (h : (create config uptime).toOption.isSome = true) :
    create config uptime = .ok ((create config uptime).toOption.get h) := by
  generalize hGet : (create config uptime).toOption.get h = made
  have hMade : (create config uptime).toOption = some made := by rw [← hGet, Option.some_get]
  cases hCreate : create config uptime with
  | error e =>
    rw [hCreate] at hMade
    cases hMade
  | ok s =>
    rw [hCreate] at hMade
    exact congrArg Except.ok (Option.some.inj hMade)

theorem create_brief :
    (create { listener := { drainTimeoutSecs := 1 } } 0).toOption.isSome = true := by
  decide +kernel

/-- A service with a drain timeout of one second, which has started two such workers. -/
def twoWorkers (first second : Nat) : Service :=
  let worker (name : String) (ms : Nat) : Worker :=
    .create name ⟨false, false, false⟩ (inBody name ms).body true true
  let idle := ((((create _ _).toOption.get create_brief).addWorker (worker "indexer" first)
    false).addWorker (worker "heartbeat" second) false)
  (idle.begin fun _ => true).moveOn.settle

theorem listed_twoWorkers (first second : Nat) : (twoWorkers first second).Listed :=
  ((((listed_create (create_get create_brief)).addWorker rfl false).addWorker rfl
    false).begin _).moveOn.settle

instance {i : Nat} {P : Worker → Prop} [DecidablePred P] : Decidable (s.On i P) :=
  decidable_of_iff ((s.workers[i]?).any (fun w => decide (P w)) = true)
    (by simp [On, Option.any_eq_true])

instance : DecidablePred s.HasEnded := fun task =>
  inferInstanceAs (Decidable (s.On task.1 fun w => w.isEnded task.2 = true))

theorem running_of_workers {first second : Nat}
    (hWorkers : s.workers = [inBody "indexer" first, inBody "heartbeat" second]) :
    ∀ task ∈ [(0, 0), (1, 0)], s.Has task ∧ s.Works task := by
  have hIn : ∀ name ms, (inBody name ms).Works 0 := fun _ _ => ⟨_, rfl, trivial⟩
  intro task hMem
  simp only [List.mem_cons, List.not_mem_nil, or_false] at hMem
  rcases hMem with rfl | rfl
  · exact ⟨⟨_, by rw [hWorkers]; rfl, rfl⟩, _, by rw [hWorkers]; rfl, hIn _ _⟩
  · exact ⟨⟨_, by rw [hWorkers]; rfl, rfl⟩, _, by rw [hWorkers]; rfl, hIn _ _⟩

/-- Bodies of 300 and 600 milliseconds: after 700 milliseconds both workers are stopped. -/
theorem stopped_by_deadline_two_workers :
    let begun := (twoWorkers 300 600).beginStopping [0, 1] none
    let later := Clock.runUntil due fire 0 (Duration.ofMillis 700) begun.settle
    later.isOver = true ∧ ∀ worker ∈ [0, 1],
      later.On worker fun w => w.state = .stopped ∧ w.current = none := by
  intro begun later
  have hWorkers : (twoWorkers 300 600).workers = [inBody "indexer" 300, inBody "heartbeat" 600] := by
    decide +kernel
  have hNow : (twoWorkers 300 600).now = 0 := by decide +kernel
  obtain ⟨hAll, hClock⟩ := @stopped_by_deadline (twoWorkers 300 600) [(0, 0), (1, 0)] none
    (by decide +kernel) (by decide) (running_of_workers hWorkers)
  have hCourse : Course begun later := by
    obtain ⟨hThen, -⟩ := hClock (listed_twoWorkers 300 600) (Duration.ofMillis 700)
      (hNow ▸ Nat.zero_le _)
    rw [hNow] at hThen
    exact hThen
  have hEnded : ∀ task ∈ [(0, 0), (1, 0)], later.HasEnded task := by decide +kernel
  obtain ⟨-, hStopped⟩ := (hAll later hCourse).2.2 (by decide +kernel) hEnded later .begun
  have hOver : later.isOver = true := by decide +kernel
  refine ⟨hOver, ?_⟩
  simpa using hStopped hOver

/-- Bodies of 900 and 1500 milliseconds. The token of the second is cancelled after 900
milliseconds, when the first has ended, and its body ends 600 milliseconds after that; but the
service has given it up 100 milliseconds after its token was cancelled. -/
theorem not_always_in_time :
    let begun := (twoWorkers 900 1500).beginStopping [0, 1] none
    let stop (t : Nat) := Clock.runUntil due fire 0 t begun.settle
    let cancelled := Duration.ofMillis 900
    let drainTimeout := begun.drainTimeout
    begun.now = 0 ∧ (∀ task ∈ [(0, 0), (1, 0)], begun.Has task ∧ begun.Works task) ∧
      ((stop 0).On 0 (fun w => w.isCancelled 0 = true) ∧ cancelled < drainTimeout ∧
        (stop cancelled).HasEnded (0, 0)) ∧
      ((stop (cancelled - 1)).On 1 (fun w => w.isCancelled 0 = false) ∧
        (stop cancelled).On 1 (fun w => w.isCancelled 0 = true) ∧
        ∃ ended, Course begun ended ∧ ended.now < cancelled + drainTimeout ∧
          ended.HasEnded (1, 0)) ∧
      (stop drainTimeout).isOver = true ∧ (stop drainTimeout).On 1 fun w =>
        w.state = .stopping ∧ w.current = some 0 := by
  intro begun stop cancelled drainTimeout
  have hWorkers :
      (twoWorkers 900 1500).workers = [inBody "indexer" 900, inBody "heartbeat" 1500] := by
    decide +kernel
  have hNow : (twoWorkers 900 1500).now = 0 := by decide +kernel
  have hRunning := running_of_workers hWorkers
  obtain ⟨hCourse, -⟩ := course_stopUntil none (by decide +kernel) (by decide) hRunning
    (listed_twoWorkers 900 1500) (hNow ▸ Nat.zero_le drainTimeout)
  rw [hNow] at hCourse
  have hOver : (stop drainTimeout).isOver = true := by decide +kernel
  -- The stop is over, but the run that was given up goes on and ends by itself.
  have hMore :=
    (hCourse.move (.elapse (Duration.ofMillis 500)) (.inl hOver)).move (.poll 1 0) trivial
  have hBegun : begun.workers = (twoWorkers 900 1500).workers := by
    obtain ⟨phase, hSame⟩ := (twoWorkers 900 1500).beginStopping_eq [0, 1] none
    simp only [begun, hSame]
  refine ⟨(spares_beginStopping _ _ _).now.trans hNow,
    running_of_workers (hBegun.trans hWorkers), ?_, ⟨?_, ?_, _, hMore, ?_, ?_⟩, hOver, ?_⟩
  all_goals decide +kernel

end Gatehouse.Service
