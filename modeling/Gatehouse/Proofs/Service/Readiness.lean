import Gatehouse.Proofs.Service.Moves
import Gatehouse.Proofs.Worker.Gate

/-!
# Ready with the listener

The listener of a service is a component like the others, and its run registers it. What has been
registered and marked before can fire the all-ready signal without it: the service is ready, and
the workers that wait for that start, though nobody has marked the listener. As long as the
listener is registered before the others have all become ready, the signal waits for it.

* `Reachable.coordinator_eq`, `Reachable.held`: what the calls decide for the service, and what the
  signal decides for its workers.
* `server_ready_iff`: exactly when readiness takes the listener in.
* `not_always_server_ready`: a run whose listener never becomes ready, and a worker that starts.
-/

namespace Gatehouse.Service

open Readiness

/-- The listener is registered, and it was marked. -/
def ServerReady (s : Service) : Prop :=
  ∃ x, s.coordinator.component? serverComponent = some x ∧ x.ready = true

instance : DecidablePred ServerReady := fun s =>
  decidable_of_iff ((s.coordinator.component? serverComponent).any Component.ready = true)
    (Option.any_eq_true _ _)

variable {begun s : Service} {calls : List Call}

theorem create_cases {config : Config} {uptime : Nat} (h : create config uptime = .ok begun) :
    begun.coordinator = .create config.readiness.trafficMode ∧ begun.workers = [] := by
  unfold create at h
  split at h
  · cases h
  · split at h
    · cases h
    · cases h
      exact ⟨rfl, rfl⟩

theorem startWorker_cases (s : Service) (worker : Nat) :
    (s.startWorker worker).2.coordinator = s.coordinator ∧
      ((s.startWorker worker).2.workers = s.workers ∨
        ∃ w ∈ s.workers, (s.startWorker worker).2.workers = s.workers.set worker w.start.2.1) := by
  unfold startWorker
  split
  · exact ⟨rfl, .inl rfl⟩
  · next w hWorker =>
    have hMem := List.mem_of_getElem? hWorker
    split
    · next hStart => exact ⟨rfl, .inr ⟨w, hMem, by rw [hStart]; rfl⟩⟩
    · next hStart => exact ⟨rfl, .inr ⟨w, hMem, by rw [hStart]; rfl⟩⟩

theorem pollRun_cases (s : Service) (worker run : Nat) :
    (s.pollRun worker run).coordinator = s.coordinator ∧
      ((s.pollRun worker run).workers = s.workers ∨
        ∃ w ∈ s.workers, (s.pollRun worker run).workers =
          s.workers.set worker (w.poll run s.coordinator.fired s.now s.shutdown).1) := by
  unfold pollRun
  split
  · exact ⟨rfl, .inl rfl⟩
  · next w hWorker => exact ⟨rfl, .inr ⟨w, List.mem_of_getElem? hWorker, rfl⟩⟩

/-- The coordinator of a service is what the calls have made of it. -/
theorem Reachable.coordinator_eq (h : Reachable begun calls s) :
    s.coordinator = begun.coordinator.after calls := by
  induction h with
  | begun => rfl
  | @command calls s _ command ih =>
    rw [Coordinator.after_concat, ← ih]
    rfl
  | worker _ _ _ _ _ _ ih => exact ih
  | start _ worker ih => exact (startWorker_cases _ worker).1.trans ih
  | poll _ worker run ih => exact (pollRun_cases _ worker run).1.trans ih
  | stop _ _ ih => exact ih
  | giveUp _ _ _ _ ih => exact ih
  | aside _ hCoordinator _ ih => exact hCoordinator.trans ih

/-- The workers that wait for readiness, before the service is ready. -/
def Held (s : Service) : Prop :=
  s.coordinator.isReady = false →
    ∀ w ∈ s.workers, w.options.waitForReadiness = true → w.Untouched

/-- One worker goes on, and keeps its options. -/
theorem Held.set (h : s.Held) {w w' : Worker} (hMem : w ∈ s.workers)
    (hOptions : w'.options = w.options)
    (hKept : s.coordinator.isReady = false → w.options.waitForReadiness = true → w.Untouched →
      w'.Untouched) {worker : Nat} {s' : Service} (hCoordinator : s'.coordinator = s.coordinator)
    (hWorkers : s'.workers = s.workers.set worker w') : s'.Held := by
  intro hNot w'' hMem'' hWaits
  rw [hCoordinator] at hNot
  rw [hWorkers] at hMem''
  rcases List.mem_or_eq_of_mem_set hMem'' with hOther | rfl
  · exact h hNot w'' hOther hWaits
  · rw [hOptions] at hWaits
    exact hKept hNot hWaits (h hNot w hMem hWaits)

/-- Until the all-ready signal has fired, no body of a worker that waits for it was invoked. -/
theorem Reachable.held (hNone : begun.workers = []) (h : Reachable begun calls s) : s.Held := by
  induction h with
  | begun =>
    intro _ w hMem
    rw [hNone] at hMem
    cases hMem
  | @command calls s _ command ih =>
    intro hNot
    refine ih ?_
    cases hReady : s.coordinator.isReady with
    | false => rfl
    | true =>
      have hKept := Coordinator.allReadyAt_after s.coordinator [(command, s.now)] hReady
      have hStill : (s.command command).2.coordinator.isReady = true := by
        rw [← hReady]
        exact congrArg Option.isSome hKept
      rw [hStill] at hNot
      cases hNot
  | @worker calls s _ name options body hasReadiness hasShutdown ih =>
    intro hNot w hMem hWaits
    rcases List.mem_append.mp hMem with hOld | hNew
    · exact ih hNot w hOld hWaits
    · obtain rfl := List.mem_singleton.mp hNew
      exact Worker.untouched_create name options body hasReadiness hasShutdown
  | @start calls s _ worker ih =>
    obtain ⟨hCoordinator, hSame | ⟨w, hMem, hWorkers⟩⟩ := startWorker_cases s worker
    · intro hNot
      rw [hCoordinator] at hNot
      rw [hSame]
      exact ih hNot
    · exact ih.set hMem (Worker.options_start w)
        (fun _ hWaits hBefore => Worker.untouched_start hBefore hWaits) hCoordinator hWorkers
  | @poll calls s _ worker run ih =>
    obtain ⟨hCoordinator, hSame | ⟨w, hMem, hWorkers⟩⟩ := pollRun_cases s worker run
    · intro hNot
      rw [hCoordinator] at hNot
      rw [hSame]
      exact ih hNot
    · exact ih.set hMem (Worker.lasts_poll w run _ s.now s.shutdown).options
        (fun hNot _ hBefore => Worker.untouched_poll hBefore hNot run s.now s.shutdown)
        hCoordinator hWorkers
  | @stop calls s _ worker w hWorker ih =>
    exact ih.set (List.mem_of_getElem? hWorker) (Worker.options_beginStop w)
      (fun _ _ hBefore => Worker.untouched_beginStop hBefore) rfl rfl
  | @giveUp calls s _ worker w hWorker run cause ih =>
    have hOptions : (w.giveUp run cause).1.options = w.options := rfl
    exact ih.set (List.mem_of_getElem? hWorker) hOptions
      (fun _ _ hBefore => ⟨hBefore.calls, hBefore.runs⟩) rfl rfl
  | aside _ hCoordinator hWorkers ih =>
    intro hNot
    rw [hCoordinator] at hNot
    rw [hWorkers]
    exact ih hNot

/-- The components are not all ready at any point before the listener is one of them. -/
def ListenerCounted (calls : List Call) : Prop :=
  ∀ p, p <+: calls → AllMarked p → Registered p serverComponent

theorem listenerCounted_iff (mode : Config.TrafficMode) (calls : List Call) :
    ListenerCounted calls ↔ ∀ p, p <+: calls →
      ((Coordinator.create mode).after p).isReady = true → MarkedReady p serverComponent := by
  constructor
  · intro hCounted p hPrefix hReady
    obtain ⟨before, hBefore, hAll⟩ := (Coordinator.isReady_after mode p).mp hReady
    have hMarked := hAll.2 serverComponent (hCounted before (hBefore.trans hPrefix) hAll)
    exact hMarked.mono hBefore
  · intro hOnly p hPrefix hAll
    have hReady := (Coordinator.isReady_after mode p).mpr ⟨p, List.prefix_refl p, hAll⟩
    exact (hOnly p hPrefix hReady).registered

/-- Once the listener is registered, nothing that happens later leaves it out. -/
theorem ListenerCounted.append (h : ListenerCounted calls) (moment : Nat) (later : List Call) :
    ListenerCounted (calls ++ (.add serverComponent, moment) :: later) := by
  intro p hPrefix hAll
  have hWhole : calls ++ [(.add serverComponent, moment)] <+:
      calls ++ (.add serverComponent, moment) :: later :=
    ⟨later, by simp⟩
  have hAdded : (.add serverComponent, moment) ∈ p → Registered p serverComponent :=
    fun hMem => ⟨by decide, moment, hMem⟩
  rcases List.prefix_or_prefix_of_prefix hPrefix hWhole with hShort | hLong
  · rcases List.prefix_concat_iff.mp hShort with rfl | hBefore
    · exact hAdded (by simp)
    · exact h p hBefore hAll
  · exact hAdded (hLong.subset (by simp))

/-- A service that is not ready may register its listener. -/
theorem Reachable.listenerCounted {mode : Config.TrafficMode}
    (hBegun : begun.coordinator = .create mode) (h : Reachable begun calls s)
    (hNot : s.coordinator.isReady = false) : ListenerCounted calls := by
  intro p hPrefix hAll
  have hReady := (Coordinator.isReady_after mode calls).mpr ⟨p, hPrefix, hAll⟩
  rw [← hBegun, ← h.coordinator_eq, hNot] at hReady
  cases hReady

/-- What the calls say of the listener is what the service tells. -/
theorem Reachable.serverReady {mode : Config.TrafficMode}
    (hBegun : begun.coordinator = .create mode) (h : Reachable begun calls s)
    (hMarked : MarkedReady calls serverComponent) : s.ServerReady := by
  have hBooks := Coordinator.books_after mode calls
  rw [← hBegun, ← h.coordinator_eq] at hBooks
  exact hBooks.exists_ready hMarked

/-- Whatever is registered and marked before the run of a service and beside it: exactly if the
components are never all ready before the listener is registered, the service is at no point ready
before the listener was marked. Then it is ready with a listener that is ready only, and so is it
when the body of a worker that waits for readiness is invoked. -/
theorem server_ready_iff {config : Config} {uptime : Nat}
    (hCreate : create config uptime = .ok begun) (h : Reachable begun calls s) :
    (ListenerCounted calls ↔ ∀ p, p <+: calls →
      (begun.coordinator.after p).isReady = true → MarkedReady p serverComponent) ∧
    s.coordinator = begun.coordinator.after calls ∧
    (ListenerCounted calls →
      (s.coordinator.isReady = true → s.ServerReady) ∧
      ∀ w ∈ s.workers, w.options.waitForReadiness = true → 0 < w.calls → s.ServerReady) ∧
    ∀ isLocal steps, ∃ made, Reachable begun (calls ++ made) (s.run isLocal steps).2 ∧
      (ListenerCounted calls → ListenerCounted (calls ++ made)) := by
  obtain ⟨hBegun, hNone⟩ := create_cases hCreate
  have hExact := listenerCounted_iff config.readiness.trafficMode calls
  rw [← hBegun] at hExact
  refine ⟨hExact, h.coordinator_eq, fun hCounted => ?_, fun isLocal steps => ?_⟩
  · have hWith : s.coordinator.isReady = true → s.ServerReady := fun hReady => by
      rw [h.coordinator_eq] at hReady
      exact h.serverReady hBegun (hExact.mp hCounted calls (List.prefix_refl calls) hReady)
    refine ⟨hWith, fun w hMem hWaits hCalled => ?_⟩
    cases hReady : s.coordinator.isReady with
    | true => exact hWith hReady
    | false =>
      have hUntouched := h.held hNone hReady w hMem hWaits
      rw [hUntouched.calls] at hCalled
      cases hCalled
  · obtain ⟨made, hRun, rfl | ⟨rest, rfl⟩⟩ := h.run isLocal steps
    · exact ⟨[], hRun, fun hCounted => by rwa [List.append_nil]⟩
    · exact ⟨_, hRun, fun hCounted => hCounted.append s.now rest⟩

/-- A service of the default configuration, before its run. -/
def plain : Service := (create {} 0).toOption.get (by decide +kernel)

theorem create_plain : create {} 0 = .ok plain := by
  have hSome : (create {} 0).toOption.isSome = true := by decide +kernel
  cases hCreate : create {} 0 with
  | error e =>
    rw [hCreate] at hSome
    cases hSome
  | ok s => simp [plain, hCreate, Except.toOption]

def heartbeat : Worker :=
  .create "heartbeat" ⟨true, false, false⟩ ⟨⟨none, .ok, some .ok, false⟩, []⟩ true true

/-- A database is registered before the run, which marks it when it serves. -/
def patient : Service := (plain.command (.add "database")).2.addWorker heartbeat false

def patientRun : Service := (patient.run (fun _ => true) [.command (.mark "database")]).2

theorem server_ready_iff_database :
    patientRun.ServerReady ∧
      ∃ w ∈ patientRun.workers, w.options.waitForReadiness = true ∧ 0 < w.calls := by
  have hPatient : Reachable plain [(.add "database", 0)] patient :=
    (Reachable.begun.command (.add "database")).addWorker _ _ _ _ _ _
  have hBefore := hPatient.listenerCounted (create_cases create_plain).1 (by decide +kernel)
  obtain ⟨-, -, -, hRun⟩ := server_ready_iff create_plain hPatient
  obtain ⟨made, hAfter, hKept⟩ := hRun (fun _ => true) [.command (.mark "database")]
  obtain ⟨-, -, hReady, -⟩ := server_ready_iff create_plain hAfter
  obtain ⟨hServer, -⟩ := hReady (hKept hBefore)
  exact ⟨hServer (by decide +kernel), by decide +kernel⟩

/-- A client is registered and ready before the run, and so is a worker that runs already. -/
def hasty : Service :=
  (((plain.command (.add "outbound-client")).2.command (.mark "outbound-client")).2.addWorker
    heartbeat false).addWorker
    (.create "indexer" ⟨false, false, false⟩ ⟨⟨none, .ok, some .ok, false⟩, []⟩ true true) true

/-- The worker that runs already cannot be started, and that ends the run before the listener is
marked. The service is ready all the same, and the other worker has begun. -/
theorem not_always_server_ready :
    (¬ ∀ (config : Config) (uptime : Nat) (begun : Service) (calls : List Call) (s : Service),
      create config uptime = .ok begun → Reachable begun calls s →
      s.coordinator.isReady = true → s.ServerReady) ∧
    ¬ ∀ (config : Config) (uptime : Nat) (begun : Service) (calls : List Call) (s : Service),
      create config uptime = .ok begun → Reachable begun calls s →
      ∀ w ∈ s.workers, w.options.waitForReadiness = true → 0 < w.calls → s.ServerReady := by
  have hHasty : Reachable plain _ hasty :=
    (((Reachable.begun.command (.add "outbound-client")).command
      (.mark "outbound-client")).addWorker _ _ _ _ _ _).addWorker _ _ _ _ _ _
  obtain ⟨made, hRun, -⟩ := hHasty.run (fun _ => true) []
  have hNot : ¬ (hasty.run (fun _ => true) []).2.ServerReady := by decide +kernel
  have hCalled : ∃ w ∈ (hasty.run (fun _ => true) []).2.workers,
      w.options.waitForReadiness = true ∧ 0 < w.calls := by
    decide +kernel
  obtain ⟨w, hMem, hWaits, hCalls⟩ := hCalled
  exact ⟨fun hAlways => hNot (hAlways {} 0 plain _ _ create_plain hRun (by decide +kernel)),
    fun hAlways => hNot (hAlways {} 0 plain _ _ create_plain hRun w hMem hWaits hCalls)⟩

end Gatehouse.Service
