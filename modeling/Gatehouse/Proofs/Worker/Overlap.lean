import Gatehouse.Proofs.Worker.Moves
import Mathlib.Data.List.Nodup
import Mathlib.Data.List.Perm.Subperm

/-!
# One run of a worker at a time

A worker keeps the handle of its current run and starts no other run while that one is unfinished.
A stop takes the handle with it for as long as it waits, so that the worker has none to look at:
what is started meanwhile runs beside the run that is being stopped. The handle is all that
protects a run. As long as no start is made while a stop waits, every unfinished run is one whose
handle the worker or a stop has, and there is at most one handle.

* `Lasts`: what looking at a run leaves of a worker, and `lasts_poll`.
* `Exchange`: what a stop may do with the handle, and `exchange_visitStop`.
* `Supervision.Guarded`: there is one handle, and every unfinished run has it.
* `one_run_at_a_time`: in good order at most one run is unfinished, and exactly the starts that
  are made while a stop waits break that.
-/

namespace Gatehouse.Worker

/-- The runs of a worker that have not ended, the earliest first. -/
def unfinished (w : Worker) : List Nat := (List.range w.runs.length).filter fun k => !w.isEnded k

variable {w w' : Worker} {run k : Nat}

theorem lt_length_of_not_isEnded (h : w.isEnded k = false) : k < w.runs.length := by
  by_contra hBeyond
  have hNone : w.runs[k]? = none := List.getElem?_eq_none (Nat.le_of_not_lt hBeyond)
  simp [isEnded, hNone] at h

theorem mem_unfinished : k ∈ w.unfinished ↔ w.isEnded k = false := by
  simp only [unfinished, List.mem_filter, List.mem_range, Bool.not_eq_true', and_iff_right_iff_imp]
  exact lt_length_of_not_isEnded

theorem nodup_unfinished (w : Worker) : w.unfinished.Nodup := List.nodup_range.filter _

/-! ## Starts -/

theorem isBusy_iff : w.isBusy = true ↔ ∃ k ∈ w.current, w.isEnded k = false := by
  cases hCurrent : w.current with
  | none => simp [isBusy, hCurrent]
  | some run => simp [isBusy, hCurrent]

theorem start_of_busy (hAble : w.checkCollaborators = .ok ()) (hBusy : w.isBusy = true) :
    w.start = (.error .alreadyRunning, w, []) := by
  simp [start, hAble, hBusy]

theorem start_of_not_busy (hAble : w.checkCollaborators = .ok ()) (hBusy : w.isBusy = false) :
    w.start = (.ok (),
      { w with
        state := .idle
        runs := w.runs ++ [⟨.awaiting w.awaited, false⟩]
        current := some w.runs.length },
      [.debug "Worker started" [w.nameField]]) := by
  simp [start, hAble, hBusy]

/-- A run that is made is unfinished; the others stay as they are. -/
theorem isEnded_append (w : Worker) (signals : List Readiness.Signal) (k : Nat) :
    { w with runs := w.runs ++ [(⟨.awaiting signals, false⟩ : Run)] }.isEnded k =
      (w.isEnded k && k != w.runs.length) := by
  unfold isEnded
  dsimp only
  rcases Nat.lt_trichotomy k w.runs.length with hBelow | rfl | hAbove
  · have hNe : k ≠ w.runs.length := Nat.ne_of_lt hBelow
    rw [List.getElem?_append_left hBelow]
    simp [hNe]
  · simp
  · have hNe : k ≠ w.runs.length := Nat.ne_of_gt hAbove
    have hBeyond : (w.runs ++ [(⟨.awaiting signals, false⟩ : Run)]).length ≤ k := by
      rw [List.length_append, List.length_singleton]
      exact hAbove
    rw [List.getElem?_eq_none hBeyond, List.getElem?_eq_none (Nat.le_of_lt hAbove)]
    simp [hNe]

/-- What is started runs beside whatever is unfinished. -/
theorem unfinished_start (hAble : w.checkCollaborators = .ok ()) (hBusy : w.isBusy = false) :
    w.start.2.1.unfinished = w.unfinished ++ [w.runs.length] := by
  have hEnded : ∀ k, w.start.2.1.isEnded k = (w.isEnded k && k != w.runs.length) := by
    rw [start_of_not_busy hAble hBusy]
    exact isEnded_append w w.awaited
  have hLength : w.start.2.1.runs.length = w.runs.length + 1 := by
    simp [start_of_not_busy hAble hBusy]
  unfold unfinished
  simp only [hEnded, hLength, List.range_succ, List.filter_append]
  congr 1
  · refine List.filter_congr fun k hk => ?_
    have hNe : k ≠ w.runs.length := Nat.ne_of_lt (List.mem_range.mp hk)
    simp [hNe]
  · simp

/-! ## Runs that go on -/

/-- What looking at a run leaves of a worker: its options and collaborators, the handle that it
has, and that a run has ended. -/
structure Lasts (w w' : Worker) : Prop where
  options : w'.options = w.options
  collaborators : w'.checkCollaborators = w.checkCollaborators
  current : w'.current = w.current
  ended : ∀ k, w.isEnded k = true → w'.isEnded k = true

namespace Lasts

theorem refl (w : Worker) : Lasts w w := ⟨rfl, rfl, rfl, fun _ h => h⟩

theorem trans {w'' : Worker} (h : Lasts w w') (h' : Lasts w' w'') : Lasts w w'' :=
  ⟨h'.options.trans h.options, h'.collaborators.trans h.collaborators,
    h'.current.trans h.current, fun k hk => h'.ended k (h.ended k hk)⟩

end Lasts

theorem isEnded_setRun_of_ne {f : Run → Run} (h : k ≠ run) :
    (w.setRun run f).isEnded k = w.isEnded k := by
  simp [isEnded, setRun, h.symm]

/-- A run may change its stage while it is unfinished, and when it ends. -/
theorem lasts_setRun {f : Run → Run} (h : w.isEnded run = false ∨ ∀ r, (f r).stage = .ended) :
    Lasts w (w.setRun run f) := by
  refine ⟨rfl, rfl, rfl, fun k hk => ?_⟩
  by_cases hSame : k = run
  · subst hSame
    rcases h with hUnfinished | hEnds
    · rw [hUnfinished] at hk
      cases hk
    · cases hRun : w.runs[k]? <;> simp [isEnded, setRun, hRun, hEnds]
  · rw [isEnded_setRun_of_ne hSame]
    exact hk

/-- Neither the state of a worker nor the number of its calls matters here. -/
theorem Lasts.relabel (h : Lasts w w') (state : State) (calls : Nat) :
    Lasts w { w' with state := state, calls := calls } :=
  ⟨h.options, h.collaborators, h.current, h.ended⟩

theorem lasts_finish (w : Worker) (run : Nat) (exit : Exit) : Lasts w (w.finish run exit).1 :=
  (lasts_setRun (.inr fun _ => rfl)).relabel .stopped w.calls

theorem lasts_bodyEnded (w : Worker) (run : Nat) (result : Result) (s : Shutdown) :
    Lasts w (w.bodyEnded run result s).1 := by
  unfold bodyEnded
  split
  · exact lasts_finish w run .ok
  · split
    · dsimp only
      split <;> exact lasts_finish w run .escalated
    · exact lasts_finish w run .failed

theorem lasts_pollBody (w : Worker) (run : Nat) (plan : Plan) (endsAt : Option Nat)
    (cancelled : Bool) (now : Nat) (s : Shutdown) :
    Lasts w (w.pollBody run plan endsAt cancelled now s).1 := by
  unfold pollBody
  split
  · exact lasts_bodyEnded w run _ s
  · split
    · split
      · exact lasts_bodyEnded w run plan.result s
      · exact .refl w
    · exact .refl w

theorem lasts_beginBody (hRun : w.isEnded run = false) (cancelled : Bool) (now : Nat)
    (s : Shutdown) : Lasts w (w.beginBody run cancelled now s).1 := by
  unfold beginBody
  dsimp only
  split
  · exact (lasts_setRun (.inr fun _ => rfl)).relabel _ _
  · exact ((lasts_setRun (.inl hRun)).relabel _ _).trans (lasts_pollBody _ _ _ _ _ _ _)

theorem lasts_pollSignals (hRun : w.isEnded run = false) (fired : Readiness.Signal → Bool)
    (cancelled : Bool) (now : Nat) (s : Shutdown) (signals : List Readiness.Signal) :
    Lasts w (w.pollSignals run fired cancelled now s signals).1 := by
  induction signals with
  | nil => exact lasts_beginBody hRun cancelled now s
  | cons signal rest ih =>
    unfold pollSignals
    split
    · exact ih
    · split
      · exact lasts_finish w run .cancelledBeforeStart
      · exact lasts_setRun (.inl hRun)

theorem lasts_poll (w : Worker) (run : Nat) (fired : Readiness.Signal → Bool) (now : Nat)
    (s : Shutdown) : Lasts w (w.poll run fired now s).1 := by
  unfold poll
  split
  · exact .refl w
  · next r hRun =>
    split
    · next signals hStage =>
      have hUnfinished : w.isEnded run = false := by simp [isEnded, hRun, hStage]
      exact lasts_pollSignals hUnfinished fired r.cancelled now s signals
    · exact lasts_pollBody w run _ _ r.cancelled now s
    · exact .refl w

/-! ## Stops -/

/-- The handles that a worker and one of the stops have between them. -/
def handles (w : Worker) (s : Stop) : List Nat := w.current.toList ++ s.awaits?.toList

/-- What a stop may do with the handle: it makes no other, and gives up none of an unfinished
run. -/
structure Exchange (w : Worker) (s : Stop) (w' : Worker) (s' : Stop) : Prop where
  collaborators : w'.checkCollaborators = w.checkCollaborators
  same : ∀ k, w'.isEnded k = w.isEnded k
  fewer : (handles w' s').length ≤ (handles w s).length
  kept : (handles w s).length ≤ 1 → ∀ k ∈ handles w s, w.isEnded k = false → k ∈ handles w' s'

namespace Exchange

variable {w'' : Worker} {s s' s'' : Stop}

theorem refl (w : Worker) (s : Stop) : Exchange w s w s :=
  ⟨rfl, fun _ => rfl, Nat.le_refl _, fun _ _ hMem _ => hMem⟩

theorem trans (h : Exchange w s w' s') (h' : Exchange w' s' w'' s'') : Exchange w s w'' s'' := by
  refine ⟨h'.collaborators.trans h.collaborators, fun k => (h'.same k).trans (h.same k),
    Nat.le_trans h'.fewer h.fewer, fun hOne k hMem hUnfinished => ?_⟩
  have hMid : k ∈ handles w' s' := h.kept hOne k hMem hUnfinished
  have hUnfinishedMid : w'.isEnded k = false := (h.same k).trans hUnfinished
  exact h'.kept (Nat.le_trans h.fewer hOne) k hMid hUnfinishedMid

end Exchange

theorem isEnded_cancel (w : Worker) (run k : Nat) :
    (w.setRun run fun r => { r with cancelled := true }).isEnded k = w.isEnded k := by
  by_cases hSame : k = run
  · subst hSame
    cases hRun : w.runs[k]? <;> simp [isEnded, setRun, hRun]
  · exact isEnded_setRun_of_ne hSame

/-- A stop takes the handle, and leaves the worker without. -/
theorem exchange_beginStop (s : Stop) (hAsked : s.stage = .asked)
    (hCurrent : w.current = some run) :
    ∃ w', w.beginStop = (some run, w') ∧ Exchange w s w' { s with stage := .waiting run } := by
  have hBefore : handles w s = [run] := by simp [handles, Stop.awaits?, hAsked, hCurrent]
  have hExchange : ∀ w' : Worker, w'.current = none →
      w'.checkCollaborators = w.checkCollaborators → (∀ k, w'.isEnded k = w.isEnded k) →
        Exchange w s w' { s with stage := .waiting run } := by
    intro w' hNone hCollaborators hSame
    have hAfter : handles w' { s with stage := .waiting run } = handles w s := by
      rw [hBefore]
      simp [handles, Stop.awaits?, hNone]
    exact ⟨hCollaborators, hSame, Nat.le_of_eq (congrArg List.length hAfter),
      fun _ k hMem _ => by rwa [hAfter]⟩
  unfold beginStop
  rw [hCurrent]
  dsimp only
  split
  · exact ⟨_, rfl, hExchange _ rfl rfl (isEnded_cancel w run)⟩
  · exact ⟨_, rfl, hExchange _ rfl rfl (isEnded_cancel w run)⟩

/-- A stop whose run has ended throws the handle away. -/
theorem exchange_ended {s : Stop} (hStage : s.stage = .waiting run) (hEnded : w.isEnded run = true)
    (result : Except Error Unit) : Exchange w s w { s with stage := .ended result } := by
  refine ⟨rfl, fun _ => rfl, by simp [handles, Stop.awaits?, hStage], ?_⟩
  intro _ k hMem hUnfinished
  simp only [handles, Stop.awaits?, hStage, List.mem_append] at hMem
  rcases hMem with hHad | hTaken
  · exact List.mem_append_left _ hHad
  · obtain rfl : k = run := by simpa using hTaken
    rw [hUnfinished] at hEnded
    cases hEnded

/-- A stop that gives up puts the handle back. It would overwrite another one. -/
theorem exchange_giveUp {s : Stop} (hStage : s.stage = .waiting run) (cause : Cause) :
    Exchange w s (w.giveUp run cause).1
      { s with stage := .ended (.error (.stopAbandoned cause)) } := by
  have hAfter : handles (w.giveUp run cause).1
      { s with stage := .ended (.error (.stopAbandoned cause)) } = [run] := by
    simp [handles, Stop.awaits?, giveUp]
  have hBefore : handles w s = w.current.toList ++ [run] := by
    simp [handles, Stop.awaits?, hStage]
  refine ⟨rfl, fun _ => rfl, by simp [hAfter, hBefore], fun hOne k hMem _ => ?_⟩
  have hNone : w.current.toList = [] := by simpa [hBefore] using hOne
  rw [hBefore, hNone] at hMem
  rwa [hAfter]

namespace Supervision

theorem exchange_visitStop_waiting (w : Worker) (cause : Option Cause) {s : Stop}
    (hStage : s.stage = .waiting run) :
    Exchange w s (visitStop w cause s).2.1 (visitStop w cause s).1 := by
  obtain ⟨id, scope, stage⟩ := s
  obtain rfl : stage = .waiting run := hStage
  simp only [visitStop]
  split
  · next hEnded => exact exchange_ended rfl hEnded _
  · cases cause with
    | none => exact .refl w _
    | some cause => exact exchange_giveUp rfl cause

theorem exchange_visitStop (w : Worker) (cause : Option Cause) (s : Stop) :
    Exchange w s (visitStop w cause s).2.1 (visitStop w cause s).1 := by
  cases hStage : s.stage with
  | asked =>
    cases hCurrent : w.current with
    | none =>
      simp only [visitStop, hStage, beginStop, hCurrent]
      refine ⟨rfl, fun _ => rfl, ?_, ?_⟩ <;> simp [handles, Stop.awaits?, hStage, hCurrent]
    | some run =>
      obtain ⟨w', hBegin, hTaken⟩ := exchange_beginStop s hStage hCurrent
      have hLooks : visitStop w cause s = visitStop w' cause { s with stage := .waiting run } := by
        simp only [visitStop, hStage, hBegin]
      rw [hLooks]
      exact hTaken.trans (exchange_visitStop_waiting w' cause rfl)
  | waiting run => exact exchange_visitStop_waiting w cause hStage
  | ended result =>
    simp only [visitStop, hStage]
    exact .refl w s

theorem exchange_forsake (w : Worker) (cause : Option Cause) (s : Stop) :
    Exchange w s (forsake w cause s).2.1 (forsake w cause s).1 := by
  unfold forsake
  split
  · next run cause hStage => exact exchange_giveUp hStage cause
  · exact .refl w s

/-! ## The one handle -/

/-- All handles that there are. -/
def handles (r : Supervision) : List Nat := r.worker.current.toList ++ r.taken

/-- The handles of one stop and the worker, and those of the other stops. -/
theorem handles_perm {r : Supervision} {before rest : List Stop} {s : Stop}
    (hStops : r.stops = before ++ s :: rest) :
    r.handles.Perm (Worker.handles r.worker s ++ (before ++ rest).filterMap Stop.awaits?) := by
  have hTaken : r.taken = before.filterMap Stop.awaits? ++
      (s.awaits?.toList ++ rest.filterMap Stop.awaits?) := by
    simp only [taken, hStops, List.filterMap_append, List.filterMap_cons]
    cases s.awaits? <;> rfl
  rw [handles, hTaken, Worker.handles, List.filterMap_append, List.append_assoc]
  exact (List.perm_append_comm_assoc _ _ _).append_left _

/-- What every exchange between the worker and one of the stops keeps. -/
theorem onStop_keeps {P : Supervision → Prop}
    (hKeeps : ∀ {r r' : Supervision} {before rest : List Stop} {s s' : Stop}, P r →
      r.stops = before ++ s :: rest → r'.stops = before ++ s' :: rest →
        Exchange r.worker s r'.worker s' → P r')
    {f : Worker → Option Cause → Stop → Stop × Worker × Journal}
    (hf : ∀ w cause s, Exchange w s (f w cause s).2.1 (f w cause s).1) {r : Supervision} (h : P r)
    (index : Nat) : P (r.onStop index f) := by
  unfold onStop
  cases hStop : r.stops[index]? with
  | none => exact h
  | some s =>
    obtain ⟨hIndex, rfl⟩ := List.getElem?_eq_some_iff.mp hStop
    obtain ⟨before, rest, hBefore, -, hAfter⟩ := List.exists_of_set hIndex
    exact hKeeps h hBefore hAfter (hf _ _ _)

/-- Where a stop has the one handle, the worker has none. -/
theorem current_eq_none_of_one {r : Supervision} (hOne : r.handles.length ≤ 1)
    (hTaken : r.taken ≠ []) : r.worker.current = none := by
  rw [handles, List.length_append] at hOne
  have hSome := List.length_pos_iff.mpr hTaken
  cases hCurrent : r.worker.current with
  | none => rfl
  | some run =>
    rw [hCurrent, Option.toList_some, List.length_singleton] at hOne
    omega

/-- There is at most one handle, and it is that of every unfinished run. -/
structure Guarded (r : Supervision) : Prop where
  able : r.worker.checkCollaborators = .ok ()
  one : r.handles.length ≤ 1
  handle : ∀ k, r.worker.isEnded k = false → k ∈ r.handles

namespace Guarded

variable {r r' : Supervision}

theorem length_unfinished (h : r.Guarded) : r.worker.unfinished.length ≤ 1 := by
  have hHandles : r.worker.unfinished ⊆ r.handles := fun k hk => h.handle k (mem_unfinished.mp hk)
  have hFewer : r.worker.unfinished.length ≤ r.handles.length :=
    ((nodup_unfinished r.worker).subperm hHandles).length_le
  exact Nat.le_trans hFewer h.one

/-- What neither moves a handle nor makes a run. -/
theorem lasts (h : r.Guarded) (hLasts : Lasts r.worker r'.worker) (hTaken : r'.taken = r.taken) :
    r'.Guarded := by
  have hHandles : r'.handles = r.handles := by rw [handles, handles, hLasts.current, hTaken]
  refine ⟨hLasts.collaborators.trans h.able, by rw [hHandles]; exact h.one, fun k hk => ?_⟩
  rw [hHandles]
  refine h.handle k (Bool.eq_false_iff.mpr fun hEnded => ?_)
  rw [hLasts.ended k hEnded] at hk
  cases hk

theorem start (h : r.Guarded) (hNone : r.taken = []) : (r.move .start).Guarded := by
  cases hBusy : r.worker.isBusy with
  | true =>
    have hRefused : (r.move .start).worker = r.worker := by
      simp only [move, start_of_busy h.able hBusy]
    refine h.lasts ?_ rfl
    rw [hRefused]
    exact .refl r.worker
  | false =>
    have hMade : (r.move .start).worker =
        { r.worker with
          state := .idle
          runs := r.worker.runs ++ [⟨.awaiting r.worker.awaited, false⟩]
          current := some r.worker.runs.length } := by
      simp only [move, start_of_not_busy h.able hBusy]
    have hHandles : (r.move .start).handles = [r.worker.runs.length] := by
      have hTaken : (r.move .start).taken = [] := hNone
      rw [handles, hTaken, hMade]
      rfl
    have hOver : ∀ k, r.worker.isEnded k = true := by
      intro k
      by_contra hUnfinished
      have hMem : k ∈ r.handles := h.handle k (Bool.eq_false_iff.mpr hUnfinished)
      rw [handles, hNone, List.append_nil, Option.mem_toList] at hMem
      have hStill := isBusy_iff.mpr ⟨k, hMem, Bool.eq_false_iff.mpr hUnfinished⟩
      rw [hBusy] at hStill
      cases hStill
    have hEnded : ∀ k, (r.move .start).worker.isEnded k = (k != r.worker.runs.length) := by
      intro k
      have hAppend := isEnded_append r.worker r.worker.awaited k
      rw [hOver k, Bool.true_and] at hAppend
      rw [hMade]
      exact hAppend
    refine ⟨?_, by rw [hHandles]; exact Nat.le_refl 1, fun k hk => ?_⟩
    · rw [hMade]
      exact h.able
    · rw [hEnded] at hk
      rw [hHandles]
      simpa using hk

theorem exchange (h : r.Guarded) {before rest : List Stop} {s s' : Stop}
    (hBefore : r.stops = before ++ s :: rest) (hAfter : r'.stops = before ++ s' :: rest)
    (hExchange : Exchange r.worker s r'.worker s') : r'.Guarded := by
  have hOld := handles_perm hBefore
  have hNew := handles_perm hAfter
  have hOne := h.one
  rw [hOld.length_eq, List.length_append] at hOne
  refine ⟨hExchange.collaborators.trans h.able, ?_, fun k hk => ?_⟩
  · rw [hNew.length_eq, List.length_append]
    exact Nat.le_trans (Nat.add_le_add_right hExchange.fewer _) hOne
  · rw [hNew.mem_iff, List.mem_append]
    have hUnfinished : r.worker.isEnded k = false := (hExchange.same k).symm.trans hk
    have hMem := h.handle k hUnfinished
    rw [hOld.mem_iff, List.mem_append] at hMem
    rcases hMem with hMine | hOthers
    · exact .inl (hExchange.kept (Nat.le_trans (Nat.le_add_right _ _) hOne) k hMine hUnfinished)
    · exact .inr hOthers

theorem onStop (h : r.Guarded) (index : Nat)
    {f : Worker → Option Cause → Stop → Stop × Worker × Journal}
    (hf : ∀ w cause s, Exchange w s (f w cause s).2.1 (f w cause s).1) :
    (r.onStop index f).Guarded :=
  onStop_keeps (fun h => h.exchange) hf h index

theorem move (h : r.Guarded) (m : Move) (hStart : m = .start → r.taken = []) :
    (r.move m).Guarded := by
  cases m with
  | start => exact h.start (hStart rfl)
  | stop id scope =>
    refine h.lasts (.refl r.worker) ?_
    simp [Supervision.move, taken, Stop.awaits?]
  | visit index => exact h.onStop index exchange_visitStop
  | forsake index => exact h.onStop index exchange_forsake
  | poll run => exact h.lasts (lasts_poll r.worker run r.coordinator.fired r.now r.shutdown) rfl
  | request code => exact h.lasts (.refl r.worker) rfl
  | readiness command moment => exact h.lasts (.refl r.worker) rfl
  | scope command => exact h.lasts (.refl r.worker) rfl
  | clock now => exact h.lasts (.refl r.worker) rfl

theorem of_orderly {begun : Supervision} (hBegun : begun.Guarded) (h : Orderly begun r) :
    r.Guarded := by
  induction h with
  | begun => exact hBegun
  | move _ m hStart ih => exact ih.move m hStart

/-- A stop that waits leaves the worker without a handle. -/
theorem current_eq_none (h : r.Guarded) (hTaken : r.taken ≠ []) : r.worker.current = none :=
  current_eq_none_of_one h.one hTaken

/-- The handle is what keeps a second run from being started. -/
theorem isBusy_iff (h : r.Guarded) :
    r.worker.isBusy = true ↔ r.worker.unfinished ≠ [] ∧ r.taken = [] := by
  rw [Worker.isBusy_iff]
  constructor
  · rintro ⟨k, hCurrent, hUnfinished⟩
    refine ⟨List.ne_nil_of_mem (mem_unfinished.mpr hUnfinished), ?_⟩
    by_contra hTaken
    rw [h.current_eq_none hTaken] at hCurrent
    cases hCurrent
  · rintro ⟨hSome, hTaken⟩
    obtain ⟨k, hk⟩ := List.exists_mem_of_ne_nil _ hSome
    have hUnfinished := mem_unfinished.mp hk
    have hMem := h.handle k hUnfinished
    rw [handles, hTaken, List.append_nil, Option.mem_toList] at hMem
    exact ⟨k, hMem, hUnfinished⟩

end Guarded

end Supervision

open Supervision

/-- A worker that has never been started has no run and no handle. -/
theorem guarded_create {name : String} {options : Options} {body : Plans}
    {hasReadiness hasShutdown : Bool}
    (hAble : (create name options body hasReadiness hasShutdown).checkCollaborators = .ok ())
    (mode : Config.TrafficMode) :
    (Supervision.create (create name options body hasReadiness hasShutdown) mode).Guarded :=
  ⟨hAble, Nat.zero_le _, fun _ hk => nomatch lt_length_of_not_isEnded hk⟩

/-- As long as no start is made while a stop waits, at most one run of a worker is unfinished. A
start is then refused, and changes nothing, as long as there is one. A start that is made while a
stop waits for an unfinished run is not refused, and a second run is unfinished. -/
theorem one_run_at_a_time {name : String} {options : Options} {body : Plans}
    {hasReadiness hasShutdown : Bool}
    (hAble : (create name options body hasReadiness hasShutdown).checkCollaborators = .ok ())
    {mode : Config.TrafficMode} {r : Supervision}
    (hOrderly : Orderly (.create (create name options body hasReadiness hasShutdown) mode) r) :
    r.worker.unfinished.length ≤ 1 ∧
      (r.worker.unfinished = [] → r.worker.start.1 = .ok ()) ∧
      (r.worker.unfinished ≠ [] → r.taken = [] →
        r.worker.start = (.error .alreadyRunning, r.worker, [])) ∧
      (r.worker.unfinished ≠ [] → r.taken ≠ [] →
        r.worker.start.1 = .ok () ∧ r.worker.start.2.1.unfinished.length = 2) := by
  have hGuarded : r.Guarded := .of_orderly (guarded_create hAble mode) hOrderly
  have hOne := hGuarded.length_unfinished
  refine ⟨hOne, fun hNone => ?_, fun hSome hFree => ?_, fun hSome hTaken => ?_⟩
  · have hBusy : r.worker.isBusy = false := by
      rw [Bool.eq_false_iff, Ne, hGuarded.isBusy_iff]
      exact fun hStill => hStill.1 hNone
    rw [start_of_not_busy hGuarded.able hBusy]
  · exact start_of_busy hGuarded.able (hGuarded.isBusy_iff.mpr ⟨hSome, hFree⟩)
  · have hBusy : r.worker.isBusy = false := by
      rw [Bool.eq_false_iff, Ne, hGuarded.isBusy_iff]
      exact fun hStill => hTaken hStill.2
    refine ⟨by rw [start_of_not_busy hGuarded.able hBusy], ?_⟩
    have hPositive := List.length_pos_iff.mpr hSome
    rw [unfinished_start hGuarded.able hBusy, List.length_append, List.length_singleton]
    omega

/-- A worker whose body runs until it is cancelled. -/
def indexer : Worker :=
  .create "indexer" ⟨false, false, false⟩ ⟨⟨none, .ok, some .ok, false⟩, []⟩ false false

/-- The indexer is started, and a stop waits for it. -/
def beingStopped : Supervision :=
  [Move.start, .poll 0, .stop "s" none, .visit 0].foldl Supervision.move
    (.create indexer .standalone)

/-- The run has ended, the stop has seen it, and the indexer is started again. -/
def startedAgain : Supervision :=
  [Move.poll 0, .visit 0, .start, .poll 1].foldl Supervision.move beingStopped

theorem orderly_beingStopped : Orderly (.create indexer .standalone) beingStopped :=
  (((Orderly.begun.move .start fun _ => rfl).move (.poll 0) nofun).move (.stop "s" none) nofun).move
    (.visit 0) nofun

theorem one_run_at_a_time_indexer :
    (beingStopped.worker.start.1 = .ok () ∧ beingStopped.worker.start.2.1.unfinished.length = 2) ∧
    startedAgain.worker.start = (.error .alreadyRunning, startedAgain.worker, []) := by
  constructor
  · obtain ⟨-, -, -, hOverlap⟩ := one_run_at_a_time (by decide) orderly_beingStopped
    exact hOverlap (by decide) (by decide)
  · have hOrderly : Orderly (.create indexer .standalone) startedAgain :=
      (((orderly_beingStopped.move (.poll 0) nofun).move (.visit 0) nofun).move .start
        fun _ => by decide).move (.poll 1) nofun
    obtain ⟨-, -, hRefused, -⟩ := one_run_at_a_time (by decide) hOrderly
    exact hRefused (by decide) (by decide)

/-- A start that is made while a stop waits is not refused. -/
theorem not_always_one_run :
    (¬ ∀ (name : String) (options : Options) (body : Plans) (hasReadiness hasShutdown : Bool)
      (mode : Config.TrafficMode) (moves : List Move),
      (create name options body hasReadiness hasShutdown).checkCollaborators = .ok () →
        (moves.foldl Supervision.move (.create (create name options body hasReadiness hasShutdown)
          mode)).worker.unfinished.length ≤ 1) ∧
    beingStopped.worker.unfinished = [0] ∧ beingStopped.worker.start.1 = .ok () ∧
      (beingStopped.move .start).worker.unfinished = [0, 1] := by
  refine ⟨fun hAlways => ?_, by decide, by decide, by decide⟩
  have hOne := hAlways "indexer" indexer.options indexer.body false false .standalone
    [.start, .poll 0, .stop "s" none, .visit 0, .start] (by decide)
  revert hOne
  decide

end Gatehouse.Worker
