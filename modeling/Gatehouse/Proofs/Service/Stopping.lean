import Gatehouse.Proofs.Clock
import Gatehouse.Proofs.Worker.Tasks
import Gatehouse.Service.Run

/-!
# Stopping the workers of a service

A service stops its workers one after the other: it takes the run of the first, cancels its token
and waits, and goes on to the next when the run has ended. All of them share one deadline, at which
what has not ended is given up. Beside that the bodies end when they like, components are
registered and marked, and time passes, but not while the service has something to do and not past
its deadline.

* `Move`, `Course`: everything that can happen, in any order, and what can come of it.
* `Advance`: what the service does by itself; `advance_progress`.
* `Stations`, `Underway`: what a run goes through that is stopped, and how far the service has come
  with its runs; `Underway.move`.
* `Sound`: the same for runs that leave their workers stopped; `Course.sound`.
* `InTime`: all runs have ended before the deadline; `InTime.move`.
-/

namespace Gatehouse.Service

open Worker (GoesOn)

/-- Something that happens while a service stops its workers. -/
inductive Move where
  | command (command : Readiness.Command)
  | request (code : Int)
  | poll (worker run : Nat)
  /-- A body ends, whatever was planned. -/
  | endBody (worker run : Nat) (result : Worker.Result)
  | goOn
  /-- The wait for a run is given up at the deadline, though the run may have ended as well. -/
  | forsake
  | elapse (d : Nat)

def endBody (s : Service) (worker run : Nat) (result : Worker.Result) : Service :=
  match s.workers[worker]? with
  | none => s
  | some w =>
    match (w.runs[run]?).map Worker.Run.stage with
    | some (.body _ _) =>
      let (w, shutdown, journal) := w.bodyEnded run result s.shutdown
      { s with workers := s.workers.set worker w, shutdown := shutdown }.note journal
    | _ => s

/-- What becomes of a run that is given up. -/
def abandon (s : Service) (p : Stopping) (worker run : Nat) (w : Worker) : Service :=
  let (w, journal) := w.giveUp run .deadlineExceeded
  let error := Worker.Error.stopAbandoned .deadlineExceeded
  { s with
    workers := s.workers.set worker w
    phase := .stopping { p with waiting := none } }.note
    (journal ++ [Entry.warn "Worker stop abandoned" [("error", .text (error.message w.name))]])

def forsake (s : Service) : Service :=
  match s.phase with
  | .stopping p =>
    match p.waiting with
    | some (worker, run) =>
      match s.workers[worker]? with
      | some w => if p.deadline ≤ s.now then s.abandon p worker run w else s
      | none => s
    | none => s
  | _ => s

def move (s : Service) : Move → Service
  | .command c => (s.command c).2
  | .request code => s.request code
  | .poll worker run => s.pollRun worker run
  | .endBody worker run result => s.endBody worker run result
  | .goOn => s.progress
  | .forsake => s.forsake
  | .elapse d => { s with now := s.now + d }

/-- The service has nothing to do before something else happens. -/
def Still (s : Service) : Prop := ¬ s.progress.work < s.work

/-- Time passes only for a service that has nothing to do, and not past its deadline. -/
def Admits (s : Service) : Move → Prop
  | .elapse d => s.isOver = true ∨ (s.Still ∧ ∀ p, s.phase = .stopping p → s.now + d ≤ p.deadline)
  | _ => True

/-- The same for a service that may still have to serve, however long that takes: only a stop has to
go on in time. -/
def Allows (s : Service) : Move → Prop
  | .elapse d => ∀ p, s.phase = .stopping p → s.Still ∧ s.now + d ≤ p.deadline
  | _ => True

/-- What can come of a service, by whatever happens. -/
inductive Course (begun : Service) : Service → Prop where
  | begun : Course begun begun
  | move {s : Service} (h : Course begun s) (m : Move) (hAdmits : s.Admits m) :
    Course begun (s.move m)

/-! ## The deadline of a stop -/

/-- The clock will show the deadline of a stop that begins now. -/
def CanDrain (s : Service) : Prop := s.uptime + s.now + s.drainTimeout ≤ Instant.latest

instance : DecidablePred CanDrain := fun s =>
  inferInstanceAs (Decidable (s.uptime + s.now + s.drainTimeout ≤ Instant.latest))

theorem beginStopping_of_canDrain {s : Service} (h : s.CanDrain) (workers : List Nat)
    (failure : Option RunError) :
    s.beginStopping workers failure =
      { s with phase := .stopping ⟨s.now + s.drainTimeout, none, workers, failure⟩ } := by
  have hDeadline : s.drainDeadline? = some (s.now + s.drainTimeout) := by
    refine Option.map_eq_some_iff.mpr ⟨_, Instant.after?_eq_some_iff.mpr ⟨h, rfl⟩, ?_⟩
    omega
  rw [beginStopping, hDeadline]

/-- Where it will not, the run has panicked, and stops nothing. -/
theorem beginStopping_of_not_canDrain {s : Service} (h : ¬ s.CanDrain) (workers : List Nat)
    (failure : Option RunError) :
    s.beginStopping workers failure = s.finish (.error .panicked) := by
  have hNone : s.drainDeadline? = none :=
    Option.map_eq_none_iff.mpr (Instant.after?_eq_none_iff.mpr (Nat.lt_of_not_le h))
  rw [beginStopping, hNone]

/-- A stop that begins has more to do than one that has panicked, and no more than its workers. -/
theorem work_beginStopping_le (s : Service) (workers : List Nat) (failure : Option RunError) :
    (s.beginStopping workers failure).work ≤ 2 * workers.length + 1 := by
  unfold beginStopping
  split <;> simp [work, finish]

/-! ## Tasks -/

/-- Something holds of the worker of a task. -/
def On (s : Service) (worker : Nat) (P : Worker → Prop) : Prop :=
  ∃ w, s.workers[worker]? = some w ∧ P w

/-- The worker of a task has its run to hand. -/
def Has (s : Service) (task : Nat × Nat) : Prop := s.On task.1 fun w => w.current = some task.2

/-- The run of a task leaves its worker stopped when it ends, or has so ended. -/
def Works (s : Service) (task : Nat × Nat) : Prop := s.On task.1 fun w => w.Works task.2

def HasEnded (s : Service) (task : Nat × Nat) : Prop :=
  s.On task.1 fun w => w.isEnded task.2 = true

/-- The run of a task has been taken and its token cancelled. -/
def Taken (s : Service) (task : Nat × Nat) : Prop :=
  s.On task.1 fun w => w.isCancelled task.2 = true ∧ w.current = none

/-- A task that is done with at an instant: if it was given up, the deadline had come. -/
def Dealt (s : Service) (deadline now : Nat) (task : Nat × Nat) : Prop :=
  s.On task.1 fun w => w.isCancelled task.2 = true ∧ (w.current = none ∨ deadline ≤ now)

/-- The workers go on, and nothing else happens to them. -/
def Onward (s s' : Service) : Prop :=
  ∀ (i : Nat) (w : Worker), s.workers[i]? = some w → ∃ w', s'.workers[i]? = some w' ∧ GoesOn w w'

/-- Nobody starts or stops a worker. -/
def LeavesAlone (s s' : Service) : Prop :=
  ∀ (i : Nat) (w : Worker), s.workers[i]? = some w → s'.On i w.LeftAlone

variable {s s' : Service} {deadline : Nat} {tasks : List (Nat × Nat)} {task : Nat × Nat}

theorem On.imp {i : Nat} {P Q : Worker → Prop} (h : s.On i P) (hImp : ∀ w, P w → Q w) :
    s.On i Q := by
  obtain ⟨w, hWorker, hP⟩ := h
  exact ⟨w, hWorker, hImp w hP⟩

theorem On.onward {i : Nat} {P : Worker → Prop} (h : s.On i P) (hOnward : Onward s s')
    (hKeeps : ∀ w w', GoesOn w w' → P w → P w') : s'.On i P := by
  obtain ⟨w, hWorker, hP⟩ := h
  obtain ⟨w', hWorker', hGoes⟩ := hOnward i w hWorker
  exact ⟨w', hWorker', hKeeps w w' hGoes hP⟩

theorem Admits.allows {m : Move} (h : s.Admits m) : s.Allows m := by
  cases m with
  | elapse d =>
    intro p hPhase
    obtain ⟨hStill, hAhead⟩ := h.resolve_left (by simp [isOver, hPhase])
    exact ⟨hStill, hAhead p hPhase⟩
  | _ => trivial

theorem On.and {i : Nat} {P Q : Worker → Prop} (h : s.On i P) (h' : s.On i Q) :
    s.On i fun w => P w ∧ Q w := by
  obtain ⟨w, hWorker, hP⟩ := h
  obtain ⟨v, hSame, hQ⟩ := h'
  obtain rfl : w = v := Option.some.inj (hWorker.symm.trans hSame)
  exact ⟨w, hWorker, hP, hQ⟩

theorem On.alone {i : Nat} {P : Worker → Prop} (h : s.On i P) (hAlone : LeavesAlone s s')
    (hKeeps : ∀ w w', P w → w.LeftAlone w' → P w') : s'.On i P := by
  obtain ⟨w, hWorker, hP⟩ := h
  exact (hAlone i w hWorker).imp fun w' hLeft => hKeeps w w' hP hLeft

theorem leavesAlone_of_eq (h : s'.workers = s.workers) : LeavesAlone s s' :=
  fun i w hWorker => ⟨w, by rw [h]; exact hWorker, .refl⟩

theorem leavesAlone_set {i : Nat} {w w' : Worker} (hWorker : s.workers[i]? = some w)
    (h : s'.workers = s.workers.set i w') (hOwn : w.OwnStep w') : LeavesAlone s s' := by
  intro j v hOther
  unfold On
  rw [h]
  by_cases hSame : j = i
  · subst hSame
    obtain rfl : w = v := Option.some.inj (hWorker.symm.trans hOther)
    exact ⟨w', List.getElem?_set_self (List.getElem?_eq_some_iff.mp hWorker).1, .single hOwn⟩
  · exact ⟨v, by rw [List.getElem?_set_ne (Ne.symm hSame)]; exact hOther, .refl⟩

theorem LeavesAlone.onward (h : LeavesAlone s s') : Onward s s' := by
  intro i w hWorker
  obtain ⟨w', hWorker', hLeft⟩ := h i w hWorker
  exact ⟨w', hWorker', hLeft.goesOn⟩

theorem onward_of_eq (h : s'.workers = s.workers) : Onward s s' := (leavesAlone_of_eq h).onward

theorem HasEnded.onward (h : s.HasEnded task) (hOnward : Onward s s') : s'.HasEnded task :=
  On.onward h hOnward fun _ _ hGoes => hGoes.ended task.2

/-! ## How far the service has come -/

/-- What a run goes through that is stopped by a deadline: it lies ahead, it has been taken and is
waited for, and it is past. -/
structure Stations (deadline : Nat) where
  ahead : Nat → Worker → Prop
  waited : Nat → Worker → Prop
  past : Nat → Nat → Worker → Prop
  ahead_alone : ∀ {run : Nat} {w w' : Worker}, ahead run w → w.LeftAlone w' → ahead run w'
  waited_alone : ∀ {run : Nat} {w w' : Worker}, waited run w → w.LeftAlone w' → waited run w'
  past_alone : ∀ {run now : Nat} {w w' : Worker}, past run now w → w.LeftAlone w' → past run now w'
  past_later : ∀ {run now now' : Nat} {w : Worker}, past run now w → now ≤ now' → past run now' w
  take : ∀ {run : Nat} {w : Worker}, ahead run w →
    ∃ w', w.beginStop = (some run, w') ∧ waited run w'
  ended : ∀ {run : Nat} {w : Worker} (now : Nat), waited run w → w.isEnded run = true →
    past run now w
  givenUp : ∀ {run now : Nat} {w : Worker}, waited run w → deadline ≤ now →
    past run now (w.giveUp run .deadlineExceeded).1

/-- A service that stops `tasks` by a deadline: some are past, one may be waited for, the rest lie
ahead; or the stop is over. -/
inductive Halfway (st : Stations deadline) (tasks : List (Nat × Nat)) (s : Service) : Prop where
  | stopping {p : Stopping} {done rest : List (Nat × Nat)} (hPhase : s.phase = .stopping p)
    (hDeadline : p.deadline = deadline) (hNow : s.now ≤ deadline)
    (hTasks : tasks = done ++ (p.waiting.toList ++ rest))
    (hRemaining : p.remaining = rest.map Prod.fst)
    (hDone : ∀ task ∈ done, s.On task.1 (st.past task.2 s.now))
    (hWaiting : ∀ task ∈ p.waiting, s.On task.1 (st.waited task.2))
    (hRest : ∀ task ∈ rest, s.On task.1 (st.ahead task.2))
  | ended {t : Nat} {result : Result} (hPhase : s.phase = .ended t result)
    (hBefore : t ≤ deadline) (hNow : t ≤ s.now)
    (hDone : ∀ task ∈ tasks, s.On task.1 (st.past task.2 t))

structure Underway (st : Stations deadline) (tasks : List (Nat × Nat)) (s : Service) : Prop where
  distinct : (tasks.map Prod.fst).Nodup
  halfway : Halfway st tasks s

theorem leavesAlone_pollRun (s : Service) (worker run : Nat) :
    LeavesAlone s (s.pollRun worker run) ∧ (s.pollRun worker run).phase = s.phase ∧
      (s.pollRun worker run).now = s.now := by
  unfold pollRun
  split
  · exact ⟨leavesAlone_of_eq rfl, rfl, rfl⟩
  · next w hWorker => exact ⟨leavesAlone_set hWorker rfl (.poll run _ _ _), rfl, rfl⟩

theorem leavesAlone_endBody (s : Service) (worker run : Nat) (result : Worker.Result) :
    LeavesAlone s (s.endBody worker run result) ∧ (s.endBody worker run result).phase = s.phase ∧
      (s.endBody worker run result).now = s.now := by
  unfold endBody
  split
  · exact ⟨leavesAlone_of_eq rfl, rfl, rfl⟩
  · next w hWorker =>
    split
    · next plan endsAt hBody =>
      exact ⟨leavesAlone_set hWorker rfl (.bodyEnded hBody result _), rfl, rfl⟩
    · exact ⟨leavesAlone_of_eq rfl, rfl, rfl⟩

theorem onward_pollRun (s : Service) (worker run : Nat) :
    Onward s (s.pollRun worker run) ∧ (s.pollRun worker run).phase = s.phase ∧
      (s.pollRun worker run).now = s.now :=
  (leavesAlone_pollRun s worker run).imp_left LeavesAlone.onward

theorem onward_endBody (s : Service) (worker run : Nat) (result : Worker.Result) :
    Onward s (s.endBody worker run result) ∧ (s.endBody worker run result).phase = s.phase ∧
      (s.endBody worker run result).now = s.now :=
  (leavesAlone_endBody s worker run result).imp_left LeavesAlone.onward

/-! ## What the service does -/

theorem on_set_ne {i j : Nat} {w' : Worker} {P : Worker → Prop} (h : s.On j P) (hNe : j ≠ i)
    (hWorkers : s'.workers = s.workers.set i w') : s'.On j P := by
  obtain ⟨w, hWorker, hP⟩ := h
  exact ⟨w, by rw [hWorkers, List.getElem?_set_ne hNe.symm]; exact hWorker, hP⟩

theorem on_set_self {i : Nat} {w w' : Worker} {P : Worker → Prop} (hWorker : s.workers[i]? = some w)
    (hWorkers : s'.workers = s.workers.set i w') (hP : P w') : s'.On i P :=
  ⟨w', by rw [hWorkers, List.getElem?_set_self (List.getElem?_eq_some_iff.mp hWorker).1], hP⟩

/-- The tasks before and behind one of them belong to other workers. -/
theorem ne_of_distinct {front back : List (Nat × Nat)}
    (h : ((front ++ task :: back).map Prod.fst).Nodup) :
    ∀ task' ∈ front ++ back, task'.1 ≠ task.1 := by
  intro task' hMem hSame
  rw [List.map_append, List.map_cons, List.nodup_middle, List.nodup_cons, ← List.map_append] at h
  exact h.1 (hSame ▸ List.mem_map_of_mem hMem)

variable {st : Stations deadline}

/-- What does not concern the stop leaves it as far as it is. -/
theorem Underway.aside (h : Underway st tasks s) (hAlone : LeavesAlone s s')
    (hPhase : s'.phase = s.phase) (hNow : s'.now = s.now) : Underway st tasks s' := by
  refine ⟨h.distinct, ?_⟩
  cases h.halfway with
  | stopping hStopping hDeadline hBefore hTasks hRemaining hDone hWaiting hRest =>
    refine .stopping (hPhase.trans hStopping) hDeadline (hNow ▸ hBefore) hTasks hRemaining ?_ ?_ ?_
    · exact fun task hMem => hNow ▸ (hDone task hMem).alone hAlone fun _ _ => st.past_alone
    · exact fun task hMem => (hWaiting task hMem).alone hAlone fun _ _ => st.waited_alone
    · exact fun task hMem => (hRest task hMem).alone hAlone fun _ _ => st.ahead_alone
  | ended hEnded hBefore hLater hDone =>
    exact .ended (hPhase.trans hEnded) hBefore (hNow ▸ hLater)
      fun task hMem => (hDone task hMem).alone hAlone fun _ _ => st.past_alone

/-- A stop that goes on, opened up. -/
theorem Underway.stopping (h : Underway st tasks s) {p : Stopping}
    (hPhase : s.phase = .stopping p) :
    ∃ done rest, p.deadline = deadline ∧ s.now ≤ deadline ∧
      tasks = done ++ (p.waiting.toList ++ rest) ∧ p.remaining = rest.map Prod.fst ∧
      (∀ task ∈ done, s.On task.1 (st.past task.2 s.now)) ∧
      (∀ task ∈ p.waiting, s.On task.1 (st.waited task.2)) ∧
      ∀ task ∈ rest, s.On task.1 (st.ahead task.2) := by
  cases h.halfway with
  | ended hEnded =>
    rw [hPhase] at hEnded
    cases hEnded
  | @stopping p' done rest hStopping hDeadline hBefore hTasks hRemaining hDone hWaiting hRest =>
    obtain rfl : p = p' := Phase.stopping.inj (hPhase.symm.trans hStopping)
    exact ⟨done, rest, hDeadline, hBefore, hTasks, hRemaining, hDone, hWaiting, hRest⟩

/-- One task goes on, and the others stay as they are. -/
theorem Underway.others (h : Underway st tasks s) {front back : List (Nat × Nat)}
    (hTasks : tasks = front ++ task :: back) {w' : Worker}
    (hWorkers : s'.workers = s.workers.set task.1 w') {task' : Nat × Nat}
    (hMem : task' ∈ front ++ back) {P : Worker → Prop} (hOn : s.On task'.1 P) : s'.On task'.1 P :=
  on_set_ne hOn (ne_of_distinct (hTasks ▸ h.distinct) task' hMem) hWorkers

theorem Underway.waits (h : Underway st tasks s) {p : Stopping} (hPhase : s.phase = .stopping p)
    (hWaits : p.waiting = some task) :
    task ∈ tasks ∧ p.deadline = deadline ∧ s.On task.1 (st.waited task.2) := by
  obtain ⟨done, rest, hDeadline, -, hTasks, -, -, hWaiting, -⟩ := h.stopping hPhase
  rw [hWaits] at hTasks
  exact ⟨hTasks ▸ List.mem_append_right _ List.mem_cons_self, hDeadline, hWaiting task hWaits⟩

/-- The wait for a run is over. -/
theorem Underway.pass (h : Underway st tasks s) {p : Stopping} (hPhase : s.phase = .stopping p)
    (hWaits : p.waiting = some task) {w' : Worker} (hWorkers : s'.workers = s.workers.set task.1 w')
    (hPast : s'.On task.1 (st.past task.2 s.now)) (hNow : s'.now = s.now)
    (hPassed : s'.phase = .stopping { p with waiting := none }) : Underway st tasks s' := by
  obtain ⟨done, rest, hDeadline, hBefore, hTasks, hRemaining, hDone, -, hRest⟩ := h.stopping hPhase
  rw [hWaits] at hTasks
  refine ⟨h.distinct, @Halfway.stopping deadline st tasks _ _ (done ++ [task]) rest hPassed
    hDeadline (hNow ▸ hBefore) ?_ hRemaining ?_ nofun ?_⟩
  · rw [hTasks]
    simp
  · rw [hNow]
    intro task' hMem
    rcases List.mem_append.mp hMem with hMem | hMem
    · exact h.others hTasks hWorkers (List.mem_append_left _ hMem) (hDone task' hMem)
    · obtain rfl := List.mem_singleton.mp hMem
      exact hPast
  · exact fun task' hMem =>
      h.others hTasks hWorkers (List.mem_append_right _ hMem) (hRest task' hMem)

/-- A run that is given up at the deadline is put back. -/
theorem Underway.abandon (h : Underway st tasks s) {p : Stopping} (hPhase : s.phase = .stopping p)
    (hWaits : p.waiting = some task) {w : Worker} (hWorker : s.workers[task.1]? = some w)
    (hLate : p.deadline ≤ s.now) : Underway st tasks (s.abandon p task.1 task.2 w) := by
  obtain ⟨-, hDeadline, v, hSame, hWaited⟩ := h.waits hPhase hWaits
  obtain rfl : w = v := Option.some.inj (hWorker.symm.trans hSame)
  have hWorkers : (s.abandon p task.1 task.2 w).workers =
      s.workers.set task.1 (w.giveUp task.2 .deadlineExceeded).1 := rfl
  exact h.pass hPhase hWaits hWorkers
    (on_set_self hWorker hWorkers (st.givenUp hWaited (hDeadline ▸ hLate))) rfl rfl

/-- What a wait for a run comes to: the run has ended, or the deadline has come, or it goes on. -/
theorem awaitRun_of_worker {p : Stopping} {worker run : Nat} {w : Worker}
    (hWorker : s.workers[worker]? = some w) :
    s.awaitRun p worker run =
      if w.isEnded run then { s with phase := .stopping { p with waiting := none } }
      else if p.deadline ≤ s.now then s.abandon p worker run w
      else { s with phase := .stopping { p with waiting := some (worker, run) } } := by
  simp only [awaitRun, hWorker]
  rfl

theorem Underway.awaitRun (h : Underway st tasks s) {p : Stopping} (hPhase : s.phase = .stopping p)
    (hWaits : p.waiting = some task) : Underway st tasks (s.awaitRun p task.1 task.2) := by
  obtain ⟨-, -, w, hWorker, hWaited⟩ := h.waits hPhase hWaits
  rw [awaitRun_of_worker hWorker]
  split
  · next hEnded =>
    have hSame : s.workers = s.workers.set task.1 w := by
      obtain ⟨hKnown, rfl⟩ := List.getElem?_eq_some_iff.mp hWorker
      rw [List.set_getElem_self]
    exact h.pass hPhase hWaits hSame ⟨w, hWorker, st.ended s.now hWaited hEnded⟩ rfl rfl
  · split
    · next hLate => exact h.abandon hPhase hWaits hWorker hLate
    · have hSame : ({ p with waiting := some (task.1, task.2) } : Stopping) = p := by
        rw [← hWaits]
      rw [hSame, ← hPhase]
      exact h

/-- With no worker left, the stop is over. -/
theorem Underway.conclude (h : Underway st tasks s) {p : Stopping} (hPhase : s.phase = .stopping p)
    (hNone : p.waiting = none) (hRemaining : p.remaining = []) :
    Underway st tasks (s.conclude p.failure) := by
  obtain ⟨done, rest, -, hBefore, hTasks, hRest, hDone, -, -⟩ := h.stopping hPhase
  have hAll : tasks = done := by
    rw [hRemaining, eq_comm, List.map_eq_nil_iff] at hRest
    rw [hTasks, hNone, hRest]
    simp
  rw [← hAll] at hDone
  unfold Service.conclude
  split <;> exact ⟨h.distinct, .ended rfl hBefore (Nat.le_refl _) hDone⟩

/-- The service takes the run of the next worker, and waits for it. -/
theorem Underway.take (h : Underway st tasks s) {p : Stopping} (hPhase : s.phase = .stopping p)
    (hNone : p.waiting = none) {worker : Nat} {remaining : List Nat}
    (hRemaining : p.remaining = worker :: remaining) :
    ∃ w run w', s.workers[worker]? = some w ∧ w.beginStop = (some run, w') ∧
      Underway st tasks { s with
        workers := s.workers.set worker w'
        phase := .stopping { p with waiting := some (worker, run), remaining := remaining } } := by
  obtain ⟨done, rest, hDeadline, hBefore, hTasks, hRest, hDone, -, hAhead⟩ := h.stopping hPhase
  rw [hRemaining] at hRest
  obtain ⟨task, rest, rfl⟩ : ∃ task rest', rest = task :: rest' := by
    cases rest with
    | nil => cases hRest
    | cons task rest' => exact ⟨task, rest', rfl⟩
  obtain ⟨rfl, rfl⟩ := List.cons.inj hRest
  rw [hNone] at hTasks
  obtain ⟨w, hWorker, hHere⟩ := hAhead task List.mem_cons_self
  obtain ⟨w', hBegin, hWaited⟩ := st.take hHere
  refine ⟨w, task.2, w', hWorker, hBegin, h.distinct,
    @Halfway.stopping deadline st tasks _ _ done rest rfl hDeadline hBefore hTasks rfl ?_ ?_ ?_⟩
  · exact fun task' hMem => h.others hTasks rfl (List.mem_append_left _ hMem) (hDone task' hMem)
  · rintro task' ⟨⟩
    exact on_set_self hWorker rfl hWaited
  · exact fun task' hMem => h.others hTasks rfl (List.mem_append_right _ hMem)
      (hAhead task' (List.mem_cons_of_mem _ hMem))

/-- The inversion of what the service does by itself while it stops its workers. -/
inductive Advance (s : Service) (p : Stopping) : Service → Prop where
  | waits {task : Nat × Nat} (hWaits : p.waiting = some task) :
    Advance s p (s.awaitRun p task.1 task.2)
  | concludes (hWaits : p.waiting = none) (hRemaining : p.remaining = []) :
    Advance s p (s.conclude p.failure)
  | unknown {worker : Nat} {rest : List Nat} (hWaits : p.waiting = none)
    (hRemaining : p.remaining = worker :: rest) (hWorker : s.workers[worker]? = none) :
    Advance s p { s with phase := .stopping { p with remaining := rest } }
  | passes {worker : Nat} {rest : List Nat} {w w' : Worker} (hWaits : p.waiting = none)
    (hRemaining : p.remaining = worker :: rest) (hWorker : s.workers[worker]? = some w)
    (hBegin : w.beginStop = (none, w')) :
    Advance s p { s with
      workers := s.workers.set worker w'
      phase := .stopping { p with remaining := rest } }
  | takes {worker run : Nat} {rest : List Nat} {w w' : Worker} (hWaits : p.waiting = none)
    (hRemaining : p.remaining = worker :: rest) (hWorker : s.workers[worker]? = some w)
    (hBegin : w.beginStop = (some run, w')) :
    Advance s p (awaitRun { s with workers := s.workers.set worker w' }
      { p with remaining := rest } worker run)

theorem advance_progress {p : Stopping} (hPhase : s.phase = .stopping p) :
    Advance s p s.progress := by
  cases hWaits : p.waiting with
  | some task => simpa [Service.progress, hPhase, hWaits] using Advance.waits hWaits
  | none =>
    cases hRemaining : p.remaining with
    | nil =>
      simpa [Service.progress, hPhase, hWaits, hRemaining] using
        Advance.concludes hWaits hRemaining
    | cons worker rest =>
      cases hWorker : s.workers[worker]? with
      | none =>
        simpa [Service.progress, hPhase, hWaits, hRemaining, hWorker] using
          Advance.unknown hWaits hRemaining hWorker
      | some w =>
        rcases hBegin : w.beginStop with ⟨run?, w'⟩
        cases run? with
        | none =>
          simpa [Service.progress, hPhase, hWaits, hRemaining, hWorker, hBegin] using
            Advance.passes hWaits hRemaining hWorker hBegin
        | some run =>
          simpa [Service.progress, hPhase, hWaits, hRemaining, hWorker, hBegin] using
            Advance.takes hWaits hRemaining hWorker hBegin

theorem isOver_of_ended {t : Nat} {result : Result} (hPhase : s.phase = .ended t result) :
    s.isOver = true := by
  simp [isOver, hPhase]

/-- The step lemma of the service itself: it waits, takes the next run, or comes to its end. -/
theorem Underway.progress (h : Underway st tasks s) : Underway st tasks s.progress := by
  cases hPhase : s.phase with
  | idle =>
    cases h.halfway with
    | stopping hStopping | ended hStopping =>
      rw [hPhase] at hStopping
      cases hStopping
  | serving =>
    cases h.halfway with
    | stopping hStopping | ended hStopping =>
      rw [hPhase] at hStopping
      cases hStopping
  | ended t result =>
    have hStays : s.progress = s := by simp [Service.progress, hPhase]
    rw [hStays]
    exact h
  | stopping p =>
    have hAdvance := advance_progress hPhase
    generalize s.progress = next at hAdvance ⊢
    cases hAdvance with
    | waits hWaits => exact h.awaitRun hPhase hWaits
    | concludes hWaits hRemaining => exact h.conclude hPhase hWaits hRemaining
    | unknown hWaits hRemaining hWorker =>
      obtain ⟨w, run, w', hKnown, -⟩ := h.take hPhase hWaits hRemaining
      rw [hWorker] at hKnown
      cases hKnown
    | passes hWaits hRemaining hWorker hBegin =>
      obtain ⟨w, run, w', hKnown, hTakes, -⟩ := h.take hPhase hWaits hRemaining
      obtain rfl := Option.some.inj (hWorker.symm.trans hKnown)
      rw [hBegin] at hTakes
      cases hTakes
    | takes hWaits hRemaining hWorker hBegin =>
      obtain ⟨w, run, w', hKnown, hTakes, hNext⟩ := h.take hPhase hWaits hRemaining
      obtain rfl := Option.some.inj (hWorker.symm.trans hKnown)
      obtain ⟨hRun, rfl⟩ := Prod.mk.inj (hBegin.symm.trans hTakes)
      obtain rfl := Option.some.inj hRun
      -- A wait sets the phase anew, so it does not matter that the run is taken in the same move.
      have hAwaited := @Underway.awaitRun _ deadline tasks (_, _) st hNext _ rfl rfl
      exact hAwaited

theorem Underway.forsake (h : Underway st tasks s) : Underway st tasks s.forsake := by
  unfold Service.forsake
  split
  · next p hPhase =>
    split
    · next worker run hWaits =>
      split
      · next w hWorker =>
        split
        · next hLate =>
          exact @Underway.abandon _ deadline tasks (worker, run) st h p hPhase hWaits w hWorker
            hLate
        · exact h
      · exact h
    · exact h
  · exact h

theorem Underway.elapse (h : Underway st tasks s) {d : Nat} (hAllows : s.Allows (.elapse d)) :
    Underway st tasks { s with now := s.now + d } := by
  refine ⟨h.distinct, ?_⟩
  cases h.halfway with
  | stopping hPhase hDeadline hBefore hTasks hRemaining hDone hWaiting hRest =>
    have hAhead := (hAllows _ hPhase).2
    refine .stopping hPhase hDeadline (hDeadline ▸ hAhead) hTasks hRemaining ?_ hWaiting hRest
    exact fun task hMem =>
      (hDone task hMem).imp fun _ hPast => st.past_later hPast (Nat.le_add_right s.now d)
  | ended hPhase hBefore hNow hDone =>
    exact .ended hPhase hBefore (Nat.le_trans hNow (Nat.le_add_right s.now d)) hDone

/-- The step lemma. -/
theorem Underway.move (h : Underway st tasks s) (m : Move) (hAllows : s.Allows m) :
    Underway st tasks (s.move m) := by
  cases m with
  | command c => exact h.aside (leavesAlone_of_eq rfl) rfl rfl
  | request code => exact h.aside (leavesAlone_of_eq rfl) rfl rfl
  | poll worker run =>
    obtain ⟨hAlone, hPhase, hNow⟩ := leavesAlone_pollRun s worker run
    exact h.aside hAlone hPhase hNow
  | endBody worker run result =>
    obtain ⟨hAlone, hPhase, hNow⟩ := leavesAlone_endBody s worker run result
    exact h.aside hAlone hPhase hNow
  | goOn => exact h.progress
  | forsake => exact h.forsake
  | elapse d => exact h.elapse hAllows

/-! ## Runs that leave their workers stopped -/

/-- A service that stops `tasks` by a deadline: some are done with, one may be waited for, the rest
are untouched; or the stop is over. -/
inductive Progressed (deadline : Nat) (tasks : List (Nat × Nat)) (s : Service) : Prop where
  | stopping {p : Stopping} {done rest : List (Nat × Nat)} (hPhase : s.phase = .stopping p)
    (hDeadline : p.deadline = deadline) (hNow : s.now ≤ deadline)
    (hTasks : tasks = done ++ (p.waiting.toList ++ rest))
    (hRemaining : p.remaining = rest.map Prod.fst)
    (hDone : ∀ task ∈ done, s.Dealt deadline s.now task)
    (hWaiting : ∀ task ∈ p.waiting, s.Taken task) (hRest : ∀ task ∈ rest, s.Has task)
  | ended {t : Nat} {result : Result} (hPhase : s.phase = .ended t result)
    (hBefore : t ≤ deadline) (hNow : t ≤ s.now) (hDone : ∀ task ∈ tasks, s.Dealt deadline t task)

structure Sound (deadline : Nat) (tasks : List (Nat × Nat)) (s : Service) : Prop where
  distinct : (tasks.map Prod.fst).Nodup
  works : ∀ task ∈ tasks, s.Works task
  progressed : Progressed deadline tasks s

/-- The stations of a run that leaves its worker stopped. -/
def enduring (deadline : Nat) : Stations deadline where
  ahead run w := w.current = some run ∧ w.Works run
  waited run w := (w.isCancelled run = true ∧ w.current = none) ∧ w.Works run
  past run now w := (w.isCancelled run = true ∧ (w.current = none ∨ deadline ≤ now)) ∧ w.Works run
  ahead_alone h hLeft := ⟨hLeft.goesOn.current.trans h.1, hLeft.goesOn.works _ h.2⟩
  waited_alone h hLeft :=
    ⟨⟨(hLeft.goesOn.cancelled _).trans h.1.1, hLeft.goesOn.current.trans h.1.2⟩,
      hLeft.goesOn.works _ h.2⟩
  past_alone h hLeft :=
    ⟨⟨(hLeft.goesOn.cancelled _).trans h.1.1, h.1.2.imp_left hLeft.goesOn.current.trans⟩,
      hLeft.goesOn.works _ h.2⟩
  past_later h hLe := ⟨⟨h.1.1, h.1.2.imp_right fun hLate => Nat.le_trans hLate hLe⟩, h.2⟩
  take h := by
    obtain ⟨w', hBegin, hTaken, hCancelled, hWorks⟩ := Worker.beginStop_of_current h.1 h.2
    exact ⟨w', hBegin, ⟨hCancelled, hTaken⟩, hWorks⟩
  ended _ h _ := ⟨⟨h.1.1, .inl h.1.2⟩, h.2⟩
  givenUp h hLate := ⟨⟨h.1.1, .inr hLate⟩, h.2⟩

/-- Every task of such a stop works, at whichever station it is. -/
theorem sound_iff : Sound deadline tasks s ↔ Underway (enduring deadline) tasks s := by
  constructor
  · intro h
    refine ⟨h.distinct, ?_⟩
    cases h.progressed with
    | stopping hPhase hDeadline hNow hTasks hRemaining hDone hWaiting hRest =>
      refine .stopping hPhase hDeadline hNow hTasks hRemaining (fun task hMem => ?_)
        (fun task hMem => ?_) fun task hMem => ?_
      · exact (hDone task hMem).and (h.works task (by simp [hTasks, hMem]))
      · exact (hWaiting task hMem).and (h.works task (by simp [hTasks, Option.mem_def.mp hMem]))
      · exact (hRest task hMem).and (h.works task (by simp [hTasks, hMem]))
    | ended hPhase hBefore hNow hDone =>
      exact .ended hPhase hBefore hNow fun task hMem => (hDone task hMem).and (h.works task hMem)
  · intro h
    cases h.halfway with
    | stopping hPhase hDeadline hNow hTasks hRemaining hDone hWaiting hRest =>
      refine ⟨h.distinct, fun task hMem => ?_, .stopping hPhase hDeadline hNow hTasks hRemaining
        (fun task hMem => (hDone task hMem).imp fun _ => And.left)
        (fun task hMem => (hWaiting task hMem).imp fun _ => And.left)
        fun task hMem => (hRest task hMem).imp fun _ => And.left⟩
      rw [hTasks, List.mem_append, List.mem_append, Option.mem_toList] at hMem
      rcases hMem with hMem | hMem | hMem
      · exact (hDone task hMem).imp fun _ => And.right
      · exact (hWaiting task hMem).imp fun _ => And.right
      · exact (hRest task hMem).imp fun _ => And.right
    | ended hPhase hBefore hNow hDone =>
      exact ⟨h.distinct, fun task hMem => (hDone task hMem).imp fun _ => And.right,
        .ended hPhase hBefore hNow fun task hMem => (hDone task hMem).imp fun _ => And.left⟩

theorem Sound.move (h : Sound deadline tasks s) (m : Move) (hAdmits : s.Admits m) :
    Sound deadline tasks (s.move m) :=
  sound_iff.mpr ((sound_iff.mp h).move m hAdmits.allows)

/-- The run lemma. -/
theorem Course.sound {begun : Service} (hBegun : Sound deadline tasks begun)
    (h : Course begun s) : Sound deadline tasks s := by
  induction h with
  | begun => exact hBegun
  | move _ m hAdmits ih => exact ih.move m hAdmits

/-! ## When the service has nothing to do -/

theorem work_awaitRun_le (s : Service) (p : Stopping) (worker run : Nat) :
    (s.awaitRun p worker run).work ≤ 2 * p.remaining.length + 2 := by
  cases hWorker : s.workers[worker]? with
  | none => simp [Service.awaitRun, hWorker, work]
  | some w =>
    rw [awaitRun_of_worker hWorker]
    split
    · simp [work]
    · split
      · simp [Service.abandon, note, work]
      · simp [work]

/-- A service that has nothing to do stays as it is. If it stops its workers, it waits for a run
that has not ended, before its deadline. -/
theorem progress_of_still (hStill : s.Still) :
    s.progress = s ∧ ∀ p, s.phase = .stopping p →
      s.now < p.deadline ∧ ∃ task, p.waiting = some task ∧ ¬ s.HasEnded task := by
  unfold Still at hStill
  cases hPhase : s.phase with
  | idle => exact ⟨by simp [Service.progress, hPhase], nofun⟩
  | ended t result => exact ⟨by simp [Service.progress, hPhase], nofun⟩
  | serving =>
    refine ⟨?_, nofun⟩
    cases hTriggered : s.shutdown.isTriggered with
    | false => simp [Service.progress, hPhase, hTriggered]
    | true =>
      refine absurd ?_ hStill
      have hLess := work_beginStopping_le (s.note [.info "HTTP server stopped" []])
        (List.range s.workers.length) none
      rw [List.length_range] at hLess
      simp only [Service.progress, hPhase, hTriggered, if_true]
      refine Nat.lt_of_le_of_lt hLess ?_
      simp [work, hPhase]
  | stopping p =>
    have hAdvance := advance_progress hPhase
    generalize s.progress = next at hAdvance hStill ⊢
    cases hAdvance with
    | @waits task hWaits =>
      cases hWorker : s.workers[task.1]? with
      | none => simp [awaitRun, hWorker, work, hPhase, hWaits] at hStill
      | some w =>
        rw [awaitRun_of_worker hWorker] at hStill ⊢
        split at hStill
        · simp [work, hPhase, hWaits] at hStill
        · next hNot =>
          split at hStill
          · simp [Service.abandon, Service.note, work, hPhase, hWaits] at hStill
          · next hEarly =>
            have hSame : ({ p with waiting := some (task.1, task.2) } : Stopping) = p := by
              rw [← hWaits]
            refine ⟨?_, ?_⟩
            · rw [if_neg hNot, if_neg hEarly, hSame, ← hPhase]
            · rintro p' ⟨⟩
              refine ⟨Nat.lt_of_not_le hEarly, task, hWaits, ?_⟩
              rintro ⟨v, hHere, hEnded⟩
              obtain rfl : w = v := Option.some.inj (hWorker.symm.trans hHere)
              exact hNot hEnded
    | concludes =>
      refine absurd ?_ hStill
      unfold Service.conclude
      split <;> simp [finish, note, work, hPhase]
    | unknown hWaits hRemaining => simp [work, hPhase, hWaits, hRemaining] at hStill
    | passes hWaits hRemaining => simp [work, hPhase, hWaits, hRemaining] at hStill
    | @takes worker run rest w w' hWaits hRemaining =>
      refine absurd (Nat.lt_of_le_of_lt (work_awaitRun_le _ _ worker run) ?_) hStill
      simp [work, hPhase, hWaits, hRemaining]
      omega

/-- In the course of a stop such a service is through, or it waits for one of its runs. -/
theorem Sound.of_still (h : Sound deadline tasks s) (hStill : s.Still) :
    s.progress = s ∧
      (s.isOver = true ∨ (s.now < deadline ∧ ∃ task ∈ tasks, ¬ s.HasEnded task)) := by
  obtain ⟨hStays, hStopping⟩ := progress_of_still hStill
  refine ⟨hStays, ?_⟩
  cases h.progressed with
  | ended hPhase => exact .inl (isOver_of_ended hPhase)
  | stopping hPhase hDeadline =>
    obtain ⟨hEarly, task, hWaits, hNot⟩ := hStopping _ hPhase
    exact .inr ⟨hDeadline ▸ hEarly, task, ((sound_iff.mp h).waits hPhase hWaits).1, hNot⟩

/-! ## Everything ends before the deadline -/

/-- Where the runs of a worker stand. -/
def stagesOf (w : Worker) : List Worker.Stage := w.runs.map Worker.Run.stage

/-- Where the runs of all workers stand. -/
def stages (s : Service) : List (List Worker.Stage) := s.workers.map stagesOf

theorem stages_set {worker : Nat} {w w' : Worker} (hWorker : s.workers[worker]? = some w)
    (hWorkers : s'.workers = s.workers.set worker w') (hSame : stagesOf w' = stagesOf w) :
    s'.stages = s.stages := by
  obtain ⟨hKnown, hHere⟩ := List.getElem?_eq_some_iff.mp hWorker
  rw [stages, hWorkers, List.map_set, hSame, ← List.map_set, ← hHere, List.set_getElem_self, stages]

theorem stagesOf_beginStop (w : Worker) : stagesOf w.beginStop.2 = stagesOf w := by
  unfold Worker.beginStop
  split
  · rfl
  · next run _ =>
    have hCancelled :
        stagesOf (w.setRun run fun r => { r with cancelled := true }) = stagesOf w := by
      refine List.ext_getElem? fun k => ?_
      simp only [stagesOf, Worker.setRun, List.getElem?_map, List.getElem?_modify]
      split <;> cases w.runs[k]? <;> rfl
    dsimp only
    split <;> exact hCancelled

/-- What the service does by itself leaves the clock alone, and the runs where they stand. -/
structure Spares (s s' : Service) : Prop where
  now : s'.now = s.now
  runs : s'.runs = s.runs
  stages : s'.stages = s.stages

theorem spares_set {worker : Nat} {w w' : Worker} (hWorker : s.workers[worker]? = some w)
    (hNow : s'.now = s.now) (hRuns : s'.runs = s.runs)
    (hWorkers : s'.workers = s.workers.set worker w') (hSame : stagesOf w' = stagesOf w) :
    Spares s s' :=
  ⟨hNow, hRuns, stages_set hWorker hWorkers hSame⟩

theorem Spares.trans {s'' : Service} (h : Spares s s') (h' : Spares s' s'') : Spares s s'' :=
  ⟨h'.now.trans h.now, h'.runs.trans h.runs, h'.stages.trans h.stages⟩

theorem spares_awaitRun (s : Service) (p : Stopping) (worker run : Nat) :
    Spares s (s.awaitRun p worker run) := by
  cases hWorker : s.workers[worker]? with
  | none =>
    simp only [Service.awaitRun, hWorker]
    exact ⟨rfl, rfl, rfl⟩
  | some w =>
    rw [awaitRun_of_worker hWorker]
    split
    · exact ⟨rfl, rfl, rfl⟩
    · split
      · exact spares_set hWorker rfl rfl rfl rfl
      · exact ⟨rfl, rfl, rfl⟩

theorem spares_beginStopping (s : Service) (workers : List Nat) (failure : Option RunError) :
    Spares s (s.beginStopping workers failure) := by
  obtain ⟨phase, hSame⟩ := s.beginStopping_eq workers failure
  rw [hSame]
  exact ⟨rfl, rfl, rfl⟩

theorem spares_progress (s : Service) : Spares s s.progress := by
  cases hPhase : s.phase with
  | idle =>
    rw [Service.progress, hPhase]
    exact ⟨rfl, rfl, rfl⟩
  | serving =>
    rw [Service.progress, hPhase]
    dsimp only
    split
    · have hSpares := spares_beginStopping (s.note [.info "HTTP server stopped" []])
        (List.range s.workers.length) none
      exact ⟨hSpares.now, hSpares.runs, hSpares.stages⟩
    · exact ⟨rfl, rfl, rfl⟩
  | ended t result =>
    rw [Service.progress, hPhase]
    exact ⟨rfl, rfl, rfl⟩
  | stopping p =>
    have hAdvance := advance_progress hPhase
    generalize s.progress = next at hAdvance ⊢
    cases hAdvance with
    | waits => exact spares_awaitRun _ _ _ _
    | concludes =>
      unfold Service.conclude
      split <;> exact ⟨rfl, rfl, rfl⟩
    | unknown => exact ⟨rfl, rfl, rfl⟩
    | @passes worker rest w w' _ _ hWorker hBegin =>
      have hSame := stagesOf_beginStop w
      rw [hBegin] at hSame
      exact spares_set hWorker rfl rfl rfl hSame
    | @takes worker run rest w w' _ _ hWorker hBegin =>
      have hSame := stagesOf_beginStop w
      rw [hBegin] at hSame
      have hTaken : Spares s { s with workers := s.workers.set worker w' } :=
        spares_set hWorker rfl rfl rfl hSame
      exact hTaken.trans (spares_awaitRun _ _ _ _)

theorem spares_forsake (s : Service) : Spares s s.forsake := by
  unfold Service.forsake
  split
  · split
    · split
      · next w hWorker =>
        split
        · exact spares_set hWorker rfl rfl rfl rfl
        · exact ⟨rfl, rfl, rfl⟩
      · exact ⟨rfl, rfl, rfl⟩
    · exact ⟨rfl, rfl, rfl⟩
  · exact ⟨rfl, rfl, rfl⟩

theorem exists_of_stages (hStages : s'.stages = s.stages) {worker : Nat} {w : Worker}
    (hWorker : s.workers[worker]? = some w) :
    ∃ w', s'.workers[worker]? = some w' ∧ stagesOf w' = stagesOf w := by
  have hHere : s'.stages[worker]? = some (stagesOf w) := by
    rw [hStages, stages, List.getElem?_map, hWorker]
    rfl
  rw [stages, List.getElem?_map] at hHere
  exact Option.map_eq_some_iff.mp hHere

theorem HasEnded.of_stages (h : s.HasEnded task) (hStages : s'.stages = s.stages) :
    s'.HasEnded task := by
  obtain ⟨w, hWorker, hEnded⟩ := h
  obtain ⟨w', hWorker', hSame⟩ := exists_of_stages hStages hWorker
  have hStage := congrArg (·[task.2]?) hSame
  simp only [stagesOf, List.getElem?_map] at hStage
  refine ⟨w', hWorker', ?_⟩
  unfold Worker.isEnded at hEnded ⊢
  cases hRun : w.runs[task.2]? with
  | none =>
    rw [hRun, Option.map_none, Option.map_eq_none_iff] at hStage
    rw [hStage]
  | some r =>
    rw [hRun] at hStage hEnded
    obtain ⟨r', hRun', hSame'⟩ := Option.map_eq_some_iff.mp hStage
    rw [hRun']
    simp only [hSame']
    exact hEnded

theorem HasEnded.move (h : s.HasEnded task) (m : Move) : (s.move m).HasEnded task := by
  cases m with
  | command c => exact h.onward (onward_of_eq rfl)
  | request code => exact h.onward (onward_of_eq rfl)
  | poll worker run => exact h.onward (onward_pollRun s worker run).1
  | endBody worker run result => exact h.onward (onward_endBody s worker run result).1
  | goOn => exact h.of_stages (spares_progress s).stages
  | forsake => exact h.of_stages (spares_forsake s).stages
  | elapse d => exact h

/-- The stop was over before the deadline, or it is going to be: all runs have ended. -/
def InTime (deadline : Nat) (tasks : List (Nat × Nat)) (s : Service) : Prop :=
  (∃ t result, s.phase = .ended t result ∧ t < deadline) ∨
    (s.isOver = false ∧ s.now < deadline ∧ ∀ task ∈ tasks, s.HasEnded task)

/-- Only the clock moves the clock. -/
theorem now_move {m : Move} (hNot : ∀ d, m ≠ .elapse d) : (s.move m).now = s.now := by
  cases m with
  | command c => rfl
  | request code => rfl
  | poll worker run => exact (onward_pollRun s worker run).2.2
  | endBody worker run result => exact (onward_endBody s worker run result).2.2
  | goOn => exact (spares_progress s).now
  | forsake => exact (spares_forsake s).now
  | elapse d => exact absurd rfl (hNot d)

theorem ended_move {t : Nat} {result : Result} (hPhase : s.phase = .ended t result) (m : Move) :
    (s.move m).phase = .ended t result := by
  cases m with
  | command c => exact hPhase
  | request code => exact hPhase
  | poll worker run => exact (onward_pollRun s worker run).2.1.trans hPhase
  | endBody worker run result' => exact (onward_endBody s worker run result').2.1.trans hPhase
  | goOn => simp [move, Service.progress, hPhase]
  | forsake => simp [move, Service.forsake, hPhase]
  | elapse d => exact hPhase

/-- Once all runs have ended, no time passes until the stop is over. -/
theorem InTime.move (h : InTime deadline tasks s) (hSound : Sound deadline tasks s) (m : Move)
    (hAdmits : s.Admits m) : InTime deadline tasks (s.move m) := by
  rcases h with ⟨t, result, hPhase, hEarly⟩ | ⟨hGoing, hEarly, hEnded⟩
  · exact .inl ⟨t, result, ended_move hPhase m, hEarly⟩
  · by_cases hElapse : ∃ d, m = .elapse d
    · obtain ⟨d, rfl⟩ := hElapse
      rcases hAdmits with hOver | ⟨hStill, -⟩
      · rw [hGoing] at hOver
        cases hOver
      · obtain ⟨-, hOver | ⟨-, task, hMem, hNot⟩⟩ := hSound.of_still hStill
        · rw [hGoing] at hOver
          cases hOver
        · exact absurd (hEnded task hMem) hNot
    · have hNow : (s.move m).now = s.now := now_move fun d hIs => hElapse ⟨d, hIs⟩
      have hAfter := (hSound.move m hAdmits).progressed
      cases hAfter with
      | @ended t result hPhase hBefore hLater =>
        rw [hNow] at hLater
        exact .inl ⟨t, result, hPhase, Nat.lt_of_le_of_lt hLater hEarly⟩
      | stopping hPhase =>
        refine .inr ⟨by simp [isOver, hPhase], hNow ▸ hEarly, fun task hMem => ?_⟩
        exact (hEnded task hMem).move m

theorem Course.inTime (hSound : Sound deadline tasks s) (h : InTime deadline tasks s)
    {later : Service} (hCourse : Course s later) : InTime deadline tasks later := by
  induction hCourse with
  | begun => exact h
  | move hBefore m hAdmits ih => exact ih.move (hBefore.sound hSound) m hAdmits

end Gatehouse.Service
