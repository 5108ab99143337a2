import Gatehouse.Proofs.Clock
import Gatehouse.Proofs.Readiness.Signals
import Gatehouse.Service.Run

/-!
# The run of a service, one move at a time

The run of a service shares its coordinator and its workers with everybody else: components are
registered and marked from outside, before the run and beside it, and the tasks of the workers go
on whenever they like. A move is a call on the coordinator, by whomever, or something that happens
to one worker. What else the run does, to the clock, the shutdown and its own progress, concerns
neither.

* `Reachable`: what comes of moves in any order, with the calls that were made on the way.
* `Reachable.run`: a whole run beside any steps is a sequence of moves.
-/

namespace Gatehouse.Service

/-- What a service can come to by moves in any order, and the calls on its coordinator among
them. -/
inductive Reachable (begun : Service) : List Readiness.Call → Service → Prop where
  | begun : Reachable begun [] begun
  | command {calls : List Readiness.Call} {s : Service} (h : Reachable begun calls s)
    (command : Readiness.Command) :
    Reachable begun (calls ++ [(command, s.now)]) (s.command command).2
  | worker {calls : List Readiness.Call} {s : Service} (h : Reachable begun calls s)
    (name : String) (options : Worker.Options) (body : Worker.Plans)
    (hasReadiness hasShutdown : Bool) :
    Reachable begun calls
      { s with workers := s.workers ++ [.create name options body hasReadiness hasShutdown] }
  | start {calls : List Readiness.Call} {s : Service} (h : Reachable begun calls s) (worker : Nat) :
    Reachable begun calls (s.startWorker worker).2
  | poll {calls : List Readiness.Call} {s : Service} (h : Reachable begun calls s)
    (worker run : Nat) : Reachable begun calls (s.pollRun worker run)
  | stop {calls : List Readiness.Call} {s : Service} (h : Reachable begun calls s) {worker : Nat}
    {w : Worker} (hWorker : s.workers[worker]? = some w) :
    Reachable begun calls { s with workers := s.workers.set worker w.beginStop.2 }
  | giveUp {calls : List Readiness.Call} {s : Service} (h : Reachable begun calls s) {worker : Nat}
    {w : Worker} (hWorker : s.workers[worker]? = some w) (run : Nat) (cause : Cause) :
    Reachable begun calls { s with workers := s.workers.set worker (w.giveUp run cause).1 }
  | aside {calls : List Readiness.Call} {s s' : Service} (h : Reachable begun calls s)
    (hCoordinator : s'.coordinator = s.coordinator) (hWorkers : s'.workers = s.workers) :
    Reachable begun calls s'

theorem isServing_moveOn_finish (s : Service) (result : Result) :
    (s.finish result).moveOn.isServing = false := by
  have hStays : (s.finish result).progress = s.finish result := rfl
  rw [moveOn]
  simp only [hStays, Nat.lt_irrefl, if_false]
  rfl

namespace Reachable

variable {begun s : Service} {calls : List Readiness.Call}

theorem addWorker (h : Reachable begun calls s) (name : String) (options : Worker.Options)
    (body : Worker.Plans) (hasReadiness hasShutdown started : Bool) :
    Reachable begun calls
      (s.addWorker (.create name options body hasReadiness hasShutdown) started) := by
  unfold Service.addWorker
  have hAdded := h.worker name options body hasReadiness hasShutdown
  dsimp only
  split
  · exact hAdded.start s.workers.length
  · exact hAdded

theorem beginStopping (h : Reachable begun calls s) (workers : List Nat)
    (failure : Option RunError) : Reachable begun calls (s.beginStopping workers failure) := by
  obtain ⟨phase, hSame⟩ := s.beginStopping_eq workers failure
  rw [hSame]
  exact h.aside rfl rfl

theorem startAll (h : Reachable begun calls s) (workers : List Nat) :
    Reachable begun calls (s.startAll workers).1 := by
  induction workers generalizing s with
  | nil => exact h
  | cons worker rest ih =>
    have hStarted := h.start worker
    rw [Service.startAll]
    split
    · next s' hStart =>
      rw [hStart] at hStarted
      exact ih hStarted
    · next e s' hStart =>
      rw [hStart] at hStarted
      exact hStarted

theorem without_call (h : Reachable begun calls s) :
    ∃ made, Reachable begun (calls ++ made) s :=
  ⟨[], by rwa [List.append_nil]⟩

theorem finish (h : Reachable begun calls s) (result : Result) :
    Reachable begun (calls ++ []) (s.finish result) := by
  rw [List.append_nil]
  exact h.aside rfl rfl

/-- A run either ends before it has made a call, or its first one registers the listener. -/
theorem beginOn (h : Reachable begun calls s) :
    ∃ made, Reachable begun (calls ++ made) s.beginOn ∧
      ((made = [] ∧ s.beginOn.moveOn.isServing = false) ∨
        ∃ rest, made = (.add serverComponent, s.now) :: rest) := by
  unfold Service.beginOn
  split
  · next e _ => exact ⟨[], h.finish (.error e), .inl ⟨rfl, isServing_moveOn_finish s (.error e)⟩⟩
  · have hAdded := h.command (.add serverComponent)
    have hStarted := hAdded.startAll
      (List.range (s.command (.add serverComponent)).2.workers.length)
    dsimp only
    split
    · next s' worker e hAll =>
      rw [hAll] at hStarted
      refine ⟨_, beginStopping ?_ _ _, .inr ⟨[], rfl⟩⟩
      exact hStarted.aside rfl rfl
    · next s' hAll =>
      rw [hAll] at hStarted
      have hMarked := hStarted.command (.mark serverComponent)
      rw [List.append_assoc] at hMarked
      exact ⟨_, hMarked.aside rfl rfl, .inr ⟨_, rfl⟩⟩

theorem begin (h : Reachable begun calls s) (isLocal : String → Bool) :
    ∃ made, Reachable begun (calls ++ made) (s.begin isLocal) ∧
      ((made = [] ∧ (s.begin isLocal).moveOn.isServing = false) ∨
        ∃ rest, made = (.add serverComponent, s.now) :: rest) := by
  unfold Service.begin
  dsimp only
  split
  · exact h.beginOn
  · exact ⟨[], h.finish _, .inl ⟨rfl, isServing_moveOn_finish s _⟩⟩

theorem pollRuns (h : Reachable begun calls s) : Reachable begun calls s.pollRuns := by
  unfold Service.pollRuns
  generalize s.runs = runs
  induction runs generalizing s with
  | nil => exact h
  | cons pair rest ih => exact ih (h.poll pair.1 pair.2)

theorem awaitRun (h : Reachable begun calls s) (p : Stopping) (worker run : Nat) :
    Reachable begun calls (s.awaitRun p worker run) := by
  unfold Service.awaitRun
  split
  · exact h.aside rfl rfl
  · next w hWorker =>
    split
    · exact h.aside rfl rfl
    · split
      · exact (h.giveUp hWorker run .deadlineExceeded).aside rfl rfl
      · exact h.aside rfl rfl

theorem progress (h : Reachable begun calls s) : Reachable begun calls s.progress := by
  unfold Service.progress
  split
  · exact h
  · split
    · refine beginStopping ?_ _ _
      exact h.aside rfl rfl
    · exact h
  · next p hPhase =>
    split
    · exact h.awaitRun _ _ _
    · unfold conclude
      split <;> exact h.aside rfl rfl
    · dsimp only
      split
      · exact h.aside rfl rfl
      · next w hWorker =>
        have hStopped := h.stop hWorker
        split
        · next w' hStop =>
          rw [hStop] at hStopped
          exact hStopped.aside rfl rfl
        · next run w' hStop =>
          rw [hStop] at hStopped
          exact hStopped.awaitRun _ _ _
  · exact h

theorem moveOn (h : Reachable begun calls s) : Reachable begun calls s.moveOn := by
  induction s using Service.moveOn.induct with
  | case1 s s' hLess ih =>
    rw [Service.moveOn]
    simp only [show s.progress.work < s.work from hLess, if_true]
    exact ih h.progress
  | case2 s s' hLess =>
    rw [Service.moveOn]
    simp only [show ¬ s.progress.work < s.work from hLess, if_false]
    exact h.progress

theorem settle (h : Reachable begun calls s) : Reachable begun calls s.settle := by
  induction s using Service.settle.induct with
  | case1 s s' hLess ih =>
    rw [Service.settle]
    simp only [show s.pollRuns.moveOn.work < s.work from hLess, if_true]
    exact ih h.pollRuns.moveOn
  | case2 s s' hLess =>
    rw [Service.settle]
    simp only [show ¬ s.pollRuns.moveOn.work < s.work from hLess, if_false]
    exact h.pollRuns.moveOn

theorem fire (h : Reachable begun calls s) (now : Nat) :
    Reachable begun calls (Service.fire now s) := by
  unfold Service.fire
  split
  · exact h
  · exact settle (h.aside rfl rfl)

theorem runUntil (h : Reachable begun calls s) (now target : Nat) :
    Reachable begun calls (Clock.runUntil Service.due Service.fire now target s) :=
  Clock.runUntil_keeps (fun now _ h => h.fire now) h now target

theorem perform (h : Reachable begun calls s) (step : Step) :
    ∃ made, Reachable begun (calls ++ made) (s.perform step).2 := by
  unfold Service.perform
  split
  · exact h.without_call
  · cases step with
    | command command => exact ⟨_, (h.command command).settle⟩
    | request code =>
      have hAsked : Reachable begun calls (s.request code) := h.aside rfl rfl
      exact hAsked.settle.without_call
    | advance d => exact (h.settle.runUntil _ _).without_call

theorem performAll (h : Reachable begun calls s) (steps : List Step) (answers : List StepAnswer) :
    ∃ made, Reachable begun (calls ++ made)
      (steps.foldl (fun (answers, s) step =>
        let (answer, s) := s.perform step
        (answers ++ answer.toList, s)) (answers, s)).2 := by
  induction steps generalizing s calls answers with
  | nil => exact h.without_call
  | cons step steps ih =>
    obtain ⟨made, hStep⟩ := h.perform step
    obtain ⟨more, hRest⟩ := ih hStep (answers ++ (s.perform step).1.toList)
    rw [List.append_assoc] at hRest
    exact ⟨made ++ more, hRest⟩

/-- A whole run, beside whatever steps, is a sequence of moves, and the calls that are made in it
begin with the listener. -/
theorem run (h : Reachable begun calls s) (isLocal : String → Bool) (steps : List Step) :
    ∃ made, Reachable begun (calls ++ made) (s.run isLocal steps).2 ∧
      (made = [] ∨ ∃ rest, made = (.add serverComponent, s.now) :: rest) := by
  obtain ⟨made, hBegun, ⟨hMade, hEnded⟩ | ⟨rest, rfl⟩⟩ := h.begin isLocal
  · have hRun : Reachable begun (calls ++ made) (s.run isLocal steps).2 := by
      unfold Service.run
      simp only [hEnded, Bool.false_eq_true, if_false, List.foldl_nil]
      exact hBegun.moveOn.settle.runUntil _ _
    exact ⟨made, hRun, .inl hMade⟩
  · obtain ⟨more, hSteps⟩ := hBegun.moveOn.performAll
      (if (s.begin isLocal).moveOn.isServing then steps else []) []
    rw [List.append_assoc] at hSteps
    exact ⟨_, hSteps.settle.runUntil _ _, .inr ⟨rest ++ more, rfl⟩⟩

end Reachable

end Gatehouse.Service
