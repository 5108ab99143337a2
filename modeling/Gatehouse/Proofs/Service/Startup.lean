import Gatehouse.Proofs.Service.Timers
import Gatehouse.Proofs.Shutdown.Requests

/-!
# The start of a service, one worker at a time

A run registers the listener and starts the workers in the order in which they were added. Between
two starts everything can happen that others do: components are registered and marked, shutdown is
requested, workers that run already go on, and so do those that have just been started, which may
fail and ask for shutdown themselves. The run does not see any of that before it has started its
last worker or failed to start one.

* `Event`, `events`: what is asked of the coordinator and the shutdown; `tells_move`.
* `Startup`: the run has started so many workers; `Startup.sound`.
* `beginOn_missing`, `beginOn_cases`: what a run comes to before it serves.
-/

namespace Gatehouse

namespace Service

open Readiness (Call)

/-! ## What is asked of a service -/

/-- A call on the coordinator of a service, or a request to its shutdown. -/
inductive Event where
  | called (call : Call)
  | requested (code : Int)

def Event.call? : Event → Option Call
  | .called call => some call
  | .requested _ => none

def Event.code? : Event → Option Int
  | .called _ => none
  | .requested code => some code

def callsOf (events : List Event) : List Call := events.filterMap Event.call?

def codesOf (events : List Event) : List Int := events.filterMap Event.code?

theorem callsOf_append (events events' : List Event) :
    callsOf (events ++ events') = callsOf events ++ callsOf events' :=
  List.filterMap_append

theorem codesOf_append (events events' : List Event) :
    codesOf (events ++ events') = codesOf events ++ codesOf events' :=
  List.filterMap_append

/-- Whether a look at a run ends it in a way that asks for shutdown. -/
def escalates (s : Service) (worker run : Nat) : Bool :=
  (s.workers[worker]?).any fun w => (w.runs[run]?).any fun r =>
    (r.ending? w.nextPlan s.coordinator.fired s.now).any (·.requests w)

/-- Whether the end of a body asks for shutdown. -/
def escalatesAtEnd (s : Service) (worker run : Nat) (result : Worker.Result) : Bool :=
  (s.workers[worker]?).any fun w =>
    match (w.runs[run]?).map Worker.Run.stage with
    | some (.body _ _) => (Worker.Ending.body result).requests w
    | _ => false

/-- What is asked in a move, by others and by the workers that fail. -/
def events (s : Service) : Move → List Event
  | .command c => [.called (c, s.now)]
  | .request code => [.requested code]
  | .poll worker run =>
    if s.escalates worker run then [.requested Worker.fatalExitCode] else []
  | .endBody worker run result =>
    if s.escalatesAtEnd worker run result then [.requested Worker.fatalExitCode] else []
  | .goOn | .forsake | .elapse _ => []

/-- The coordinator and the shutdown of a service are what these events make of them. -/
structure Tells (events : List Event) (s s' : Service) : Prop where
  shutdown : s'.shutdown = s.shutdown.after (codesOf events)
  coordinator : s'.coordinator = s.coordinator.after (callsOf events)
  config : s'.config = s.config
  uptime : s'.uptime = s.uptime
  length : s'.workers.length = s.workers.length

variable {s₀ s s' : Service} {told told' : List Event} {started : Nat}

theorem Tells.refl (s : Service) : Tells [] s s := ⟨rfl, rfl, rfl, rfl, rfl⟩

theorem Tells.trans {s'' : Service} (h : Tells told s s') (h' : Tells told' s' s'') :
    Tells (told ++ told') s s'' := by
  refine ⟨?_, ?_, h'.config.trans h.config, h'.uptime.trans h.uptime, h'.length.trans h.length⟩
  · rw [h'.shutdown, h.shutdown, codesOf_append, Shutdown.after_append]
  · rw [h'.coordinator, h.coordinator, callsOf_append, Readiness.Coordinator.after_append]

/-- What a worker that may escalate leaves of a service. -/
theorem tells_escalation {fatal : Bool} (hShutdown : s'.shutdown =
      if fatal then (s.shutdown.request Worker.fatalExitCode).1 else s.shutdown)
    (hCoordinator : s'.coordinator = s.coordinator) (hConfig : s'.config = s.config)
    (hUptime : s'.uptime = s.uptime) (hLength : s'.workers.length = s.workers.length) :
    Tells (if fatal then [.requested Worker.fatalExitCode] else []) s s' := by
  cases fatal with
  | true => exact ⟨hShutdown, hCoordinator, hConfig, hUptime, hLength⟩
  | false => exact ⟨hShutdown, hCoordinator, hConfig, hUptime, hLength⟩

theorem shutdown_pollRun (s : Service) (worker run : Nat) :
    (s.pollRun worker run).shutdown =
      if s.escalates worker run then (s.shutdown.request Worker.fatalExitCode).1
      else s.shutdown := by
  cases hWorker : s.workers[worker]? with
  | none => simp [escalates, pollRun, hWorker]
  | some w =>
    have hPolled : (s.pollRun worker run).shutdown =
        (w.poll run s.coordinator.fired s.now s.shutdown).2.1 := by
      simp [pollRun, hWorker, note]
    rw [hPolled]
    cases hRun : w.runs[run]? with
    | none => simp [escalates, hWorker, hRun, Worker.poll]
    | some r =>
      rw [(Worker.looked_poll hRun s.coordinator.fired s.now s.shutdown).shutdown]
      simp [escalates, hWorker, hRun]

theorem shutdown_endBody (s : Service) (worker run : Nat) (result : Worker.Result) :
    (s.endBody worker run result).shutdown =
      if s.escalatesAtEnd worker run result then (s.shutdown.request Worker.fatalExitCode).1
      else s.shutdown := by
  cases hWorker : s.workers[worker]? with
  | none => simp [escalatesAtEnd, endBody, hWorker]
  | some w =>
    cases hStage : (w.runs[run]?).map Worker.Run.stage with
    | none => simp [escalatesAtEnd, endBody, hWorker, hStage]
    | some stage =>
      cases stage with
      | awaiting signals => simp [escalatesAtEnd, endBody, hWorker, hStage]
      | ended => simp [escalatesAtEnd, endBody, hWorker, hStage]
      | body plan endsAt =>
        obtain ⟨r, hRun, -⟩ := Option.map_eq_some_iff.mp hStage
        have hShutdown := (Worker.closes_bodyEnded hRun result s.shutdown).shutdown
        simp only [endBody, escalatesAtEnd, hWorker, hStage, note, hShutdown, Option.any_some]

theorem tells_pollRun (s : Service) (worker run : Nat) :
    Tells (s.events (.poll worker run)) s (s.pollRun worker run) := by
  refine tells_escalation (shutdown_pollRun s worker run) (pollRun_cases s worker run).1 ?_ ?_ ?_
  · unfold pollRun
    split <;> rfl
  · unfold pollRun
    split <;> rfl
  · unfold pollRun
    split <;> simp [note]

theorem tells_endBody (s : Service) (worker run : Nat) (result : Worker.Result) :
    Tells (s.events (.endBody worker run result)) s (s.endBody worker run result) := by
  refine tells_escalation (shutdown_endBody s worker run result) ?_ ?_ ?_ ?_ <;> unfold endBody
  · split
    · rfl
    · split <;> rfl
  · split
    · rfl
    · split <;> rfl
  · split
    · rfl
    · split <;> rfl
  · split
    · rfl
    · split <;> simp [note]

theorem tells_awaitRun (s : Service) (p : Stopping) (worker run : Nat) :
    Tells [] s (s.awaitRun p worker run) := by
  unfold awaitRun
  split
  · exact ⟨rfl, rfl, rfl, rfl, rfl⟩
  · split
    · exact ⟨rfl, rfl, rfl, rfl, rfl⟩
    · split
      · exact ⟨rfl, rfl, rfl, rfl, List.length_set⟩
      · exact ⟨rfl, rfl, rfl, rfl, rfl⟩

theorem tells_beginStopping (s : Service) (workers : List Nat) (failure : Option RunError) :
    Tells [] s (s.beginStopping workers failure) := by
  obtain ⟨phase, hSame⟩ := s.beginStopping_eq workers failure
  rw [hSame]
  exact ⟨rfl, rfl, rfl, rfl, rfl⟩

/-- What the run does by itself while it serves or stops asks for nothing. -/
theorem tells_progress (s : Service) : Tells [] s s.progress := by
  cases hPhase : s.phase with
  | idle =>
    rw [Service.progress, hPhase]
    exact .refl s
  | serving =>
    rw [Service.progress, hPhase]
    dsimp only
    split
    · have hNoted : Tells [] s (s.note [.info "HTTP server stopped" []]) := ⟨rfl, rfl, rfl, rfl, rfl⟩
      exact hNoted.trans (tells_beginStopping _ _ _)
    · exact .refl s
  | ended t result =>
    rw [Service.progress, hPhase]
    exact .refl s
  | stopping p =>
    have hAdvance := advance_progress hPhase
    generalize s.progress = next at hAdvance ⊢
    cases hAdvance with
    | waits => exact tells_awaitRun _ _ _ _
    | concludes =>
      unfold Service.conclude
      split <;> exact ⟨rfl, rfl, rfl, rfl, rfl⟩
    | unknown => exact ⟨rfl, rfl, rfl, rfl, rfl⟩
    | passes => exact ⟨rfl, rfl, rfl, rfl, List.length_set⟩
    | @takes worker run rest w w' =>
      have hTaken : Tells [] s { s with workers := s.workers.set worker w' } :=
        ⟨rfl, rfl, rfl, rfl, List.length_set⟩
      exact hTaken.trans (tells_awaitRun _ _ _ _)

theorem tells_forsake (s : Service) : Tells [] s s.forsake := by
  unfold Service.forsake
  split
  · split
    · split
      · split
        · exact ⟨rfl, rfl, rfl, rfl, List.length_set⟩
        · exact .refl s
      · exact .refl s
    · exact .refl s
  · exact .refl s

theorem tells_move (s : Service) (m : Move) : Tells (s.events m) s (s.move m) := by
  cases m with
  | command c => exact ⟨rfl, rfl, rfl, rfl, rfl⟩
  | request code => exact ⟨rfl, rfl, rfl, rfl, rfl⟩
  | poll worker run => exact tells_pollRun s worker run
  | endBody worker run result => exact tells_endBody s worker run result
  | goOn => exact tells_progress s
  | forsake => exact tells_forsake s
  | elapse d => exact ⟨rfl, rfl, rfl, rfl, rfl⟩

/-! ## Starts -/

/-- A worker that cannot be started is left as it is. -/
theorem startWorker_error {worker : Nat} {e : Worker.Error}
    (h : (s.startWorker worker).1 = .error e) :
    (s.startWorker worker).2 = s ∧ worker < s.workers.length := by
  unfold startWorker at h ⊢
  cases hWorker : s.workers[worker]? with
  | none => simp [hWorker] at h
  | some w =>
    obtain ⟨hKnown, rfl⟩ := List.getElem?_eq_some_iff.mp hWorker
    have hSame : ∀ e' w' journal, (s.workers[worker]).start = (.error e', w', journal) →
        w' = s.workers[worker] ∧ journal = [] := by
      intro e' w' journal hStart
      unfold Worker.start at hStart
      split at hStart
      · simp_all
      · split at hStart
        · simp_all
        · cases hStart
    simp only [hWorker] at h ⊢
    split at h
    · cases h
    · next e' w' journal hStart =>
      obtain ⟨rfl, rfl⟩ := hSame e' w' journal hStart
      simp [note, hKnown]

/-- What the start of a worker leaves, where it works: a run that has just been made. -/
theorem startWorker_ok {worker : Nat} (hKnown : worker < s.workers.length)
    (h : (s.startWorker worker).1 = .ok ()) :
    ∃ w', (s.startWorker worker).2.workers = s.workers.set worker w' ∧
      ∃ run, w'.current = some run ∧ run < w'.runs.length := by
  unfold startWorker at h ⊢
  rw [List.getElem?_eq_getElem hKnown] at h ⊢
  dsimp only at h ⊢
  split at h
  · next w' journal hStart =>
    refine ⟨w', rfl, ?_⟩
    unfold Worker.start at hStart
    split at hStart
    · cases hStart
    · split at hStart
      · cases hStart
      · obtain ⟨-, rfl, -⟩ := Prod.mk.injEq .. ▸ hStart
        exact ⟨_, rfl, by simp⟩
  · cases h

theorem tells_startWorker (s : Service) (worker : Nat) : Tells [] s (s.startWorker worker).2 := by
  unfold startWorker
  split
  · exact .refl s
  · split <;> exact ⟨rfl, rfl, rfl, rfl, List.length_set⟩

/-- A worker has a run to hand that was made. -/
def IsStarted (w : Worker) : Prop := ∃ run, w.current = some run ∧ run < w.runs.length

theorem IsStarted.alone {w w' : Worker} (h : IsStarted w) (hAlone : w.LeftAlone w') :
    IsStarted w' := by
  obtain ⟨run, hCurrent, hKnown⟩ := h
  exact ⟨run, hAlone.goesOn.current.trans hCurrent, hAlone.same.2.symm ▸ hKnown⟩

/-! ## The startup -/

/-- Something that others do, and not the run of the service. -/
def Move.IsBeside : Move → Prop
  | .goOn | .forsake => False
  | _ => True

/-- A run that has registered the listener and started the first workers, and what was told since
it began. -/
inductive Startup (s₀ : Service) : Nat → List Event → Service → Prop where
  | registered : Startup s₀ 0 [.called (.add serverComponent, s₀.now)]
      (s₀.command (.add serverComponent)).2
  | beside {started : Nat} {told : List Event} {s : Service} (h : Startup s₀ started told s)
    (m : Move) (hBeside : m.IsBeside) : Startup s₀ started (told ++ s.events m) (s.move m)
  | start {started : Nat} {told : List Event} {s : Service} (h : Startup s₀ started told s)
    (hKnown : started < s.workers.length) (hStart : (s.startWorker started).1 = .ok ()) :
    Startup s₀ (started + 1) told (s.startWorker started).2

theorem leavesAlone_beside {m : Move} (hBeside : m.IsBeside) : LeavesAlone s (s.move m) := by
  cases m with
  | poll worker run => exact (leavesAlone_pollRun s worker run).1
  | endBody worker run result => exact (leavesAlone_endBody s worker run result).1
  | goOn => exact hBeside.elim
  | forsake => exact hBeside.elim
  | _ => exact leavesAlone_of_eq rfl

/-- The first workers have been started, and nobody has started or stopped the others. -/
structure Prepared (s₀ : Service) (started : Nat) (told : List Event) (s : Service) : Prop where
  tells : Tells told s₀ s
  running : ∀ i < started, s.On i IsStarted
  others : ∀ (i : Nat) (w : Worker), started ≤ i → s₀.workers[i]? = some w → s.On i w.LeftAlone

theorem Prepared.beside (h : Prepared s₀ started told s) (m : Move) (hBeside : m.IsBeside) :
    Prepared s₀ started (told ++ s.events m) (s.move m) := by
  have hAlone := leavesAlone_beside (s := s) hBeside
  refine ⟨h.tells.trans (tells_move s m), fun i hLess => ?_, fun i w hLe hWorker => ?_⟩
  · exact (h.running i hLess).alone hAlone fun _ _ => IsStarted.alone
  · exact (h.others i w hLe hWorker).alone hAlone fun _ _ => Relation.ReflTransGen.trans

theorem Prepared.start (h : Prepared s₀ started told s) (hKnown : started < s.workers.length)
    (hStart : (s.startWorker started).1 = .ok ()) :
    Prepared s₀ (started + 1) told (s.startWorker started).2 := by
  obtain ⟨w', hWorkers, hStarted⟩ := startWorker_ok hKnown hStart
  have hTells := h.tells.trans (tells_startWorker s started)
  rw [List.append_nil] at hTells
  refine ⟨hTells, fun i hLess => ?_, fun i w hLe hWorker => ?_⟩
  · rcases Nat.lt_or_ge i started with hBefore | hHere
    · exact on_set_ne (h.running i hBefore) (Nat.ne_of_lt hBefore) hWorkers
    · obtain rfl : i = started := by omega
      exact on_set_self (List.getElem?_eq_getElem hKnown) hWorkers hStarted
  · exact on_set_ne (h.others i w (by omega) hWorker) (by omega) hWorkers

/-- What a startup has come to. -/
theorem Startup.prepared (h : Startup s₀ started told s) : Prepared s₀ started told s := by
  induction h with
  | registered => exact ⟨⟨rfl, rfl, rfl, rfl, rfl⟩, nofun, fun i w _ hWorker => ⟨w, hWorker, .refl⟩⟩
  | beside _ m hBeside ih => exact ih.beside m hBeside
  | start _ hKnown hStart ih => exact ih.start hKnown hStart

theorem Listed.beside (h : s.Listed) {m : Move} (hBeside : m.IsBeside) : (s.move m).Listed := by
  cases m with
  | poll worker run => exact h.pollRun worker run
  | endBody worker run result =>
    refine h.of_eq (tells_endBody s worker run result).length ?_
      fun task hEnded => hEnded.onward (onward_endBody s worker run result).1
    simp only [Service.move]
    unfold Service.endBody
    split
    · rfl
    · split <;> rfl
  | goOn => exact hBeside.elim
  | forsake => exact hBeside.elim
  | _ => exact h

theorem Startup.listed (h : Startup s₀ started told s) (hListed : s₀.Listed) : s.Listed := by
  induction h with
  | registered => exact hListed
  | beside _ m hBeside ih => exact ih.beside hBeside
  | start _ _ _ ih => exact ih.startWorker _

/-! ## How a startup ends -/

/-- The next worker cannot be started, and shutdown is requested. -/
def failing (s : Service) (worker : Nat) (e : Worker.Error) : Service :=
  let name := s.nameOf worker
  (s.note [.error "Worker failed to start"
    [("worker", .text name), ("error", .text (e.message name))]]).request Worker.fatalExitCode

/-- After that the workers before it are stopped. -/
def failStart (s : Service) (worker : Nat) (e : Worker.Error) : Service :=
  (s.failing worker e).beginStopping (List.range worker) (some (.worker (s.nameOf worker) e))

/-- All workers have been started: the listener is marked, and the service serves. -/
def serve (s : Service) : Service :=
  let s := (s.command (.mark serverComponent)).2
  { s with phase := .serving }.note [.info "HTTP server starting" []]

theorem missingCollaborator?_eq_none {workers : List Worker}
    (h : ∀ w ∈ workers, w.checkCollaborators = .ok ()) : missingCollaborator? workers = none := by
  rw [missingCollaborator?, List.findSome?_eq_none_iff]
  intro w hMem
  rw [h w hMem]

/-- The first worker that lacks a collaborator ends the run before it has done anything. -/
theorem beginOn_missing {before after : List Worker} {w : Worker} {e : Worker.Error}
    (hWorkers : s.workers = before ++ w :: after)
    (hBefore : ∀ v ∈ before, v.checkCollaborators = .ok ())
    (hError : w.checkCollaborators = .error e) :
    s.beginOn = { s with phase := .ended s.now (.error (.worker w.name e)) } := by
  have hNone : missingCollaborator? before = none := missingCollaborator?_eq_none hBefore
  have hMissing : missingCollaborator? s.workers = some (.worker w.name e) := by
    unfold missingCollaborator? at hNone ⊢
    rw [hWorkers, List.findSome?_append, hNone, Option.none_or, List.findSome?_cons, hError]
  simp only [beginOn, hMissing]
  rfl

/-- The starts that are left are made one after the other, as long as they work. -/
theorem Startup.startAll (h : Startup s₀ started told s) (left : Nat)
    (hLength : s.workers.length = started + left) :
    (∃ reached mid e, Startup s₀ reached told mid ∧ (mid.startWorker reached).1 = .error e ∧
      s.startAll (List.range' started left) = (mid, some (reached, e))) ∨
    ∃ mid, Startup s₀ (started + left) told mid ∧
      s.startAll (List.range' started left) = (mid, none) := by
  induction left generalizing started s with
  | zero => exact .inr ⟨s, h, rfl⟩
  | succ left ih =>
    rw [List.range'_succ, Service.startAll]
    cases hStart : (s.startWorker started).1 with
    | error e =>
      have hSame := (startWorker_error hStart).1
      refine .inl ⟨started, s, e, h, hStart, ?_⟩
      rw [show s.startWorker started = (.error e, s) from Prod.ext hStart hSame]
    | ok =>
      have hNext := h.start (by omega) hStart
      have hStarts : s.startWorker started = (.ok (), (s.startWorker started).2) :=
        Prod.ext hStart rfl
      have hKept := (tells_startWorker s started).length
      rw [hStarts, show started + (left + 1) = started + 1 + left by omega]
      exact ih hNext (by omega)

/-- A run whose workers have all they need either fails to start one of them, or serves. -/
theorem beginOn_cases (hAll : ∀ w ∈ s.workers, w.checkCollaborators = .ok ()) :
    ∃ started mid, Startup s started [.called (.add serverComponent, s.now)] mid ∧
      ((∃ e, (mid.startWorker started).1 = .error e ∧ s.beginOn = mid.failStart started e) ∨
        (started = s.workers.length ∧ s.beginOn = mid.serve)) := by
  have hMissing : missingCollaborator? s.workers = none := missingCollaborator?_eq_none hAll
  have hRegistered := @Startup.registered s
  have hStarts := hRegistered.startAll s.workers.length (Nat.zero_add _).symm
  rw [← List.range_eq_range'] at hStarts
  rcases hStarts with ⟨reached, mid, e, hReached, hError, hEq⟩ | ⟨mid, hServes, hEq⟩
  · refine ⟨reached, mid, hReached, .inl ⟨e, hError, ?_⟩⟩
    simp only [beginOn, hMissing]
    rw [show (s.command (.add serverComponent)).2.workers.length = s.workers.length from rfl, hEq]
    rfl
  · rw [Nat.zero_add] at hServes
    refine ⟨s.workers.length, mid, hServes, .inr ⟨rfl, ?_⟩⟩
    simp only [beginOn, hMissing]
    rw [show (s.command (.add serverComponent)).2.workers.length = s.workers.length from rfl, hEq]
    rfl

end Service

end Gatehouse
