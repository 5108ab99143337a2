import Gatehouse.Proofs.Bulkhead.Threads

/-!
# When the gauge shows the count

On several threads other tasks come between a step of the count and its publication. If nobody steps
the count while an earlier one is still to be published, the gauge is right as soon as everything is
published. Where somebody does, two tasks have different counts to publish. Only one of them can be
what the count comes to in the end, and the other may be published last.

* `Threads.Orderly`, `Threads.InOrder`: the orderly runs, and their invariant.
* `Threads.overtake`: what comes of a count that is stepped too early.
* `Threads.orderly_of_reachable`: on one thread every run is orderly.
* `slots_conserved_on_threads`: what holds of every run, and for which of them the gauge is right.
-/

namespace Gatehouse.Bulkhead

namespace Threads

/-- Every count has been published. -/
def Told (t : Threads) : Prop := ∀ x ∈ t.tasks, x.pending = none

/-- Whether a move steps the count. -/
def counts (t : Threads) : Move → Bool
  | .countIn index => (t.tasks[index]?).any fun x => x.stage == some .taken
  | .countOut index => (t.tasks[index]?).any fun x => x.stage.isNone && x.attempt.holds
  | _ => false

/-- The move does not step the count while an earlier one is still to be published. -/
def Waits (t : Threads) (m : Move) : Prop := t.counts m = true → t.Told

/-- Every move of a run waits for the publications that it would come before. -/
def Orderly (t : Threads) : List Move → Prop
  | [] => True
  | m :: rest => t.Waits m ∧ (t.move m).Orderly rest

instance (t : Threads) : Decidable t.Told :=
  inferInstanceAs (Decidable (∀ x ∈ t.tasks, x.pending = none))

instance (t : Threads) (m : Move) : Decidable (t.Waits m) :=
  inferInstanceAs (Decidable (t.counts m = true → t.Told))

instance decidableOrderly : (moves : List Move) → (t : Threads) → Decidable (t.Orderly moves)
  | [], _ => .isTrue trivial
  | m :: rest, t => @instDecidableAnd _ _ _ (decidableOrderly rest (t.move m))

variable {t : Threads} {b : Bulkhead} {x : Task} {index : Nat} {m : Move}

theorem orderly_append {moves later : List Move} (h : t.Orderly moves)
    (hLater : (t.through moves).Orderly later) : t.Orderly (moves ++ later) := by
  induction moves generalizing t with
  | nil => exact hLater
  | cons m rest ih => exact ⟨h.1, ih h.2 hLater⟩

/-! ## The orderly runs -/

/-- What has still to be published is the count, and it is what the gauge shows if nothing has. -/
structure InOrder (t : Threads) : Prop where
  fresh : ∀ x ∈ t.tasks, ∀ count, x.pending = some count → count = t.bulkhead.inFlight
  shown : t.Told → ∀ reading, t.journal.slotGauge = some reading →
    reading = .gauge t.bulkhead.inFlight

theorem mem_set_cases {tasks : List Task} {x' y : Task} (hMem : y ∈ tasks.set index x') :
    y = x' ∨ y ∈ tasks :=
  (List.mem_or_eq_of_mem_set hMem).symm

/-- What neither steps the count nor publishes it. -/
theorem InOrder.beside (h : t.InOrder) {f : Bulkhead → Task → Task × Bulkhead × Journal}
    (hCount : ∀ x, t.tasks[index]? = some x → (f t.bulkhead x).2.1.inFlight = t.bulkhead.inFlight)
    (hTold : ∀ x, t.tasks[index]? = some x → (f t.bulkhead x).2.2 = [])
    (hPending : ∀ x, t.tasks[index]? = some x → (f t.bulkhead x).1.pending = x.pending) :
    (t.onTask index f).InOrder := by
  cases hTask : t.tasks[index]? with
  | none =>
    rw [onTask_of_none hTask]
    exact h
  | some x =>
    have hOwn := List.mem_of_getElem? hTask
    rw [onTask_eq hTask]
    refine ⟨fun y hMem count hCounted => ?_, fun hAll reading hShown => ?_⟩
    · simp only [hCount x hTask]
      rcases mem_set_cases hMem with rfl | hOld
      · exact h.fresh x hOwn count (hPending x hTask ▸ hCounted)
      · exact h.fresh y hOld count hCounted
    · simp only [hTold x hTask, List.append_nil] at hShown
      simp only [hCount x hTask]
      refine h.shown (fun y hMem => ?_) reading hShown
      obtain ⟨k, hHere⟩ := List.mem_iff_getElem?.mp hMem
      by_cases hSame : index = k
      · subst hSame
        obtain rfl := Option.some.inj (hTask.symm.trans hHere)
        have hLess := (List.getElem?_eq_some_iff.mp hTask).1
        rw [← hPending x hTask]
        exact hAll _ (List.mem_of_getElem? (List.getElem?_set_self hLess))
      · refine hAll y (List.mem_of_getElem? (i := k) ?_)
        rw [List.getElem?_set_ne hSame]
        exact hHere

/-- What steps the count, when every earlier one has been published. -/
theorem InOrder.counted (hTold : t.Told) (hTask : t.tasks[index]? = some x)
    {f : Bulkhead → Task → Task × Bulkhead × Journal}
    (hPending : (f t.bulkhead x).1.pending = some (f t.bulkhead x).2.1.inFlight) :
    (t.onTask index f).InOrder := by
  have hLess := (List.getElem?_eq_some_iff.mp hTask).1
  rw [onTask_eq hTask]
  refine ⟨fun y hMem count hCounted => ?_, fun hAll => ?_⟩
  · rcases mem_set_cases hMem with rfl | hOld
    · exact Option.some.inj (hCounted.symm.trans hPending)
    · rw [hTold y hOld] at hCounted
      cases hCounted
  · have hNone := hAll _ (List.mem_of_getElem? (List.getElem?_set_self hLess))
    rw [hPending] at hNone
    cases hNone

theorem InOrder.publish (h : t.InOrder) (index : Nat) : (t.move (.publish index)).InOrder := by
  cases hTask : t.tasks[index]? with
  | none =>
    rw [move, onTask_of_none hTask]
    exact h
  | some x =>
    cases hPending : x.pending with
    | none =>
      have hSame : x.publish t.bulkhead = (x, t.bulkhead, []) := by
        unfold Task.pending at hPending
        unfold Task.publish
        split at hPending <;> simp_all
      rw [move, onTask_of_same fun y hHere => Option.some.inj (hTask.symm.trans hHere) ▸ hSame]
      exact h
    | some count =>
      have hFresh := h.fresh x (List.mem_of_getElem? hTask) count hPending
      obtain ⟨x', hPublish, hNone⟩ : ∃ x', x.publish t.bulkhead =
          (x', t.bulkhead, Bulkhead.publish count) ∧ x'.pending = none := by
        unfold Task.pending at hPending
        unfold Task.publish
        split at hPending <;> simp_all [Task.pending]
      rw [move, onTask_eq hTask, hPublish]
      refine ⟨fun y hMem count' hCounted => ?_, fun _ reading hShown => ?_⟩
      · rcases mem_set_cases hMem with rfl | hOld
        · rw [hNone] at hCounted
          cases hCounted
        · exact h.fresh y hOld count' hCounted
      · rw [Bulkhead.publish, Journal.slotGauge_append_measure] at hShown
        rw [← Option.some.inj hShown, hFresh]

theorem countIn_of_ne (h : x.stage ≠ some .taken) (b : Bulkhead) : x.countIn b = (x, b, []) := by
  unfold Task.countIn
  split
  · next hTaken => exact absurd hTaken h
  · rfl

theorem countOut_of_holds (hOutside : x.stage = none) (hHolds : x.attempt.holds = true)
    (b : Bulkhead) : x.countOut b =
      ({ x with stage := some (.discounted b.countOut.1) }, b.countOut.2, []) := by
  unfold Attempt.holds at hHolds
  split at hHolds
  · next since hHeld => simp [Task.countOut, hOutside, hHeld]
  · cases hHolds

theorem countOut_of_not (h : (x.stage.isNone && x.attempt.holds) = false) (b : Bulkhead) :
    x.countOut b = (x, b, []) := by
  unfold Task.countOut
  split
  · next since hOutside hHeld => simp [hOutside, Attempt.holds, hHeld] at h
  · rfl

theorem InOrder.countIn (h : t.InOrder) (hWaits : t.Waits (.countIn index)) :
    (t.move (.countIn index)).InOrder := by
  cases hCounts : t.counts (.countIn index) with
  | true =>
    obtain ⟨x, hTask, hTaken⟩ : ∃ x, t.tasks[index]? = some x ∧ x.stage = some .taken := by
      simpa [counts, Option.any_eq_true] using hCounts
    refine InOrder.counted (f := Task.countIn) (hWaits hCounts) hTask ?_
    simp [Task.countIn, hTaken, Task.pending, Bulkhead.countIn]
  | false =>
    rw [move, onTask_of_same fun x hTask => countIn_of_ne (fun hTaken => ?_) _]
    · exact h
    · simp [counts, hTask, hTaken] at hCounts

theorem InOrder.countOut (h : t.InOrder) (hWaits : t.Waits (.countOut index)) :
    (t.move (.countOut index)).InOrder := by
  cases hCounts : t.counts (.countOut index) with
  | true =>
    obtain ⟨x, hTask, hOutside, hHolds⟩ : ∃ x, t.tasks[index]? = some x ∧ x.stage = none ∧
        x.attempt.holds = true := by
      simpa [counts, Option.any_eq_true] using hCounts
    refine InOrder.counted (f := Task.countOut) (hWaits hCounts) hTask ?_
    rw [countOut_of_holds hOutside hHolds]
    rfl
  | false =>
    rw [move, onTask_of_same fun x hTask => countOut_of_not ?_ _]
    · exact h
    · simpa [counts, hTask] using hCounts

/-- A look that takes a slot does not count it. -/
theorem look_fields (tokens : Tokens) (now : Nat) (b : Bulkhead) (h : x.Apt) :
    (x.look tokens now b).2.1.inFlight = b.inFlight ∧ (x.look tokens now b).2.2 = [] ∧
      (x.look tokens now b).1.pending = x.pending := by
  unfold Task.look
  dsimp only
  split
  · next hWaiting =>
    have hPending : x.pending = none := by
      rw [Task.pending, stage_of_waiting h hWaiting]
    have hInFlight := (withdraw_fields b x.attempt.ticket).1
    cases hTake : b.take? x.attempt.ticket with
    | some taken =>
      simp only [look_of_take hTake]
      obtain ⟨-, rfl⟩ := take_eq_some_iff.mp hTake
      exact ⟨rfl, trivial, hPending.symm⟩
    | none =>
      simp only [look_of_take_none hTake]
      by_cases hLate : x.attempt.deadline ≤ now
      · simp only [hLate, if_true]
        exact ⟨hInFlight, trivial, rfl⟩
      · simp only [hLate, if_false]
        cases x.attempt.scope.bind fun s => s.cancelled? tokens now with
        | some cause => exact ⟨hInFlight, rfl, rfl⟩
        | none => exact ⟨rfl, rfl, rfl⟩
  · exact ⟨rfl, rfl, rfl⟩

theorem abort_fields (b : Bulkhead) (x : Task) :
    (x.abort b).2.1.inFlight = b.inFlight ∧ (x.abort b).2.2 = [] ∧
      (x.abort b).1.pending = x.pending := by
  unfold Task.abort
  split
  · exact ⟨(withdraw_fields b x.attempt.ticket).1, rfl, rfl⟩
  · exact ⟨rfl, rfl, rfl⟩

theorem handBack_task_fields (b : Bulkhead) (x : Task) :
    (x.handBack b).2.1.inFlight = b.inFlight ∧ (x.handBack b).2.2 = [] ∧
      (x.handBack b).1.pending = x.pending := by
  unfold Task.handBack
  split
  · next hPublished =>
    exact ⟨(handBack_fields b).2.1, rfl, by simp [Task.pending, hPublished]⟩
  · exact ⟨rfl, rfl, rfl⟩

theorem InOrder.acquire (h : t.InOrder) (id : String) (scope : Option Scope) :
    (t.move (.acquire id scope)).InOrder := by
  have hInFlight := (enter_fields t.bulkhead).2.2.1
  refine ⟨fun x hMem count hPending => ?_, fun hAll reading hShown => ?_⟩
  · rw [show (t.move (.acquire id scope)).bulkhead.inFlight = t.bulkhead.inFlight from hInFlight]
    rcases List.mem_append.mp hMem with hOld | hNew
    · exact h.fresh x hOld count hPending
    · obtain rfl := List.mem_singleton.mp hNew
      cases hPending
  · rw [show (t.move (.acquire id scope)).bulkhead.inFlight = t.bulkhead.inFlight from hInFlight]
    exact h.shown (fun x hMem => hAll x (List.mem_append_left _ hMem)) reading hShown

/-- The step lemma of the orderly runs. -/
theorem InOrder.move (h : t.InOrder) (hSound : t.Sound) {m : Move} (hWaits : t.Waits m) :
    (t.move m).InOrder := by
  cases m with
  | clock now => exact ⟨h.fresh, h.shown⟩
  | scope command => exact ⟨h.fresh, h.shown⟩
  | acquire id scope => exact h.acquire id scope
  | look index =>
    have hLook : ∀ x, t.tasks[index]? = some x → _ := fun x hTask =>
      look_fields t.directory.tokens t.now t.bulkhead (hSound.apt x (List.mem_of_getElem? hTask))
    exact h.beside (fun x hTask => (hLook x hTask).1) (fun x hTask => (hLook x hTask).2.1)
      fun x hTask => (hLook x hTask).2.2
  | countIn index => exact h.countIn hWaits
  | countOut index => exact h.countOut hWaits
  | publish index => exact h.publish index
  | handBack index =>
    exact h.beside (fun x _ => (handBack_task_fields _ x).1)
      (fun x _ => (handBack_task_fields _ x).2.1) fun x _ => (handBack_task_fields _ x).2.2
  | abort index =>
    exact h.beside (fun x _ => (abort_fields _ x).1) (fun x _ => (abort_fields _ x).2.1)
      fun x _ => (abort_fields _ x).2.2

theorem InOrder.through (h : t.InOrder) (hSound : t.Sound) {moves : List Move}
    (hOrderly : t.Orderly moves) : (t.through moves).InOrder := by
  induction moves generalizing t with
  | nil => exact h
  | cons m rest ih => exact ih (h.move hSound hOrderly.1) (sound_move hSound m).1 hOrderly.2

theorem inOrder_start (b : Bulkhead) : (start b).InOrder := ⟨nofun, fun _ => nofun⟩

/-! ## A count that is stepped too early -/

/-- A task goes on until it is through. If it waits, it is dropped. -/
def finish (index : Nat) : List Move :=
  [.abort index, .countIn index, .publish index, .handBack index]

theorem getElem?_onTask (t : Threads) (index : Nat)
    (f : Bulkhead → Task → Task × Bulkhead × Journal) (k : Nat) :
    (t.onTask index f).tasks[k]? =
      if index = k then (t.tasks[k]?).map fun x => (f t.bulkhead x).1 else t.tasks[k]? := by
  cases hTask : t.tasks[index]? with
  | none =>
    rw [onTask_of_none hTask]
    split
    · next hSame => rw [← hSame, hTask, Option.map_none]
    · rfl
  | some x =>
    rw [onTask_eq hTask]
    have hLess := (List.getElem?_eq_some_iff.mp hTask).1
    split
    · next hSame =>
      subst hSame
      rw [List.getElem?_set_self hLess, hTask, Option.map_some]
    · next hNe => exact List.getElem?_set_ne hNe

theorem done_finish (x : Task) (b₁ b₂ b₃ b₄ : Bulkhead) :
    ((((x.abort b₁).1.countIn b₂).1.publish b₃).1.handBack b₄).1.Done := by
  have hAborted : (x.abort b₁).1.attempt.waits = false := by
    unfold Task.abort
    split
    · rfl
    · next hNot => simpa [Attempt.waits] using hNot
  generalize (x.abort b₁).1 = y at hAborted
  obtain ⟨a, stage⟩ := y
  rcases stage with _ | (_ | _ | _ | _)
  · exact ⟨rfl, hAborted⟩
  · exact ⟨rfl, hAborted⟩
  · exact ⟨rfl, hAborted⟩
  · exact ⟨rfl, rfl⟩
  · exact ⟨rfl, rfl⟩

theorem keeps_onTask {f : Bulkhead → Task → Task × Bulkhead × Journal}
    (h : ∀ x, t.tasks[index]? = some x → (f t.bulkhead x).1.keeps = x.keeps) :
    (t.onTask index f).tasks.map Task.keeps = t.tasks.map Task.keeps := by
  refine List.ext_getElem? fun k => ?_
  rw [List.getElem?_map, List.getElem?_map, getElem?_onTask]
  split
  · next hSame =>
    subst hSame
    cases hTask : t.tasks[index]? with
    | none => rfl
    | some x => exact congrArg some (h x hTask)
  · rfl

theorem keeps_abort (b : Bulkhead) (x : Task) : (x.abort b).1.keeps = x.keeps := by
  unfold Task.abort
  split
  · next hWaiting =>
    unfold Task.keeps
    split <;> simp_all [Attempt.holds]
  · rfl

theorem keeps_countIn (b : Bulkhead) (x : Task) : (x.countIn b).1.keeps = x.keeps := by
  unfold Task.countIn
  split
  · next hTaken => simp [Task.keeps, hTaken]
  · rfl

theorem keeps_publish (b : Bulkhead) (h : x.Apt) : (x.publish b).1.keeps = x.keeps := by
  unfold Task.publish
  split
  · next count hCounted =>
    have hHolds := h (by simp [hCounted])
    simp [Task.keeps, hCounted, hHolds]
  · next count hDiscounted => simp [Task.keeps, hDiscounted]
  · rfl

theorem keeps_handBack (b : Bulkhead) (x : Task) : (x.handBack b).1.keeps = x.keeps := by
  unfold Task.handBack
  split
  · next hPublished => simp [Task.keeps, hPublished, Attempt.holds]
  · rfl

/-- What a task that goes on until it is through leaves of the others, and of the slots that will be
held once all are through. -/
theorem through_finish (h : t.Sound) (index : Nat) :
    (t.through (finish index)).tasks.map Task.keeps = t.tasks.map Task.keeps ∧
      ∀ k x, (t.through (finish index)).tasks[k]? = some x →
        if index = k then x.Done else t.tasks[k]? = some x := by
  have hAborted := (sound_move h (.abort index)).1
  have hCounted := (sound_move hAborted (.countIn index)).1
  constructor
  · have hPublished : ∀ x, ((t.move (.abort index)).move (.countIn index)).tasks[index]? = some x →
        x.Apt := fun x hTask => hCounted.apt x (List.mem_of_getElem? hTask)
    refine (keeps_onTask fun x _ => keeps_handBack _ x).trans ?_
    refine (keeps_onTask fun x hTask => keeps_publish _ (hPublished x hTask)).trans ?_
    refine (keeps_onTask fun x _ => keeps_countIn _ x).trans ?_
    exact keeps_onTask fun x _ => keeps_abort _ x
  · intro k x hTask
    simp only [through, finish, List.foldl, Threads.move, getElem?_onTask] at hTask
    split
    · next hSame =>
      simp only [hSame, if_true, Option.map_map] at hTask
      obtain ⟨x, -, rfl⟩ := Option.map_eq_some_iff.mp hTask
      exact done_finish x _ _ _ _
    · next hNe => simpa only [hNe, if_false] using hTask

theorem through_finishAll (h : t.Sound) (indices : List Nat) :
    let later := t.through (indices.flatMap finish)
    later.tasks.map Task.keeps = t.tasks.map Task.keeps ∧
      ∀ k x, later.tasks[k]? = some x → if k ∈ indices then x.Done else t.tasks[k]? = some x := by
  induction indices generalizing t with
  | nil => exact ⟨rfl, fun k x hTask => hTask⟩
  | cons index rest ih =>
    have hNext := (sound_through h (finish index)).1
    obtain ⟨hKeeps, hEach⟩ := through_finish h index
    obtain ⟨hRestKeeps, hRest⟩ := ih hNext
    rw [List.flatMap_cons]
    dsimp only
    rw [through_append]
    refine ⟨hRestKeeps.trans hKeeps, fun k x hTask => ?_⟩
    have hHere := hRest k x hTask
    by_cases hLater : k ∈ rest
    · rw [if_pos hLater] at hHere
      rw [if_pos (List.mem_cons_of_mem _ hLater)]
      exact hHere
    · rw [if_neg hLater] at hHere
      have hFirst := hEach k x hHere
      by_cases hSame : index = k
      · rw [if_pos hSame] at hFirst
        rw [if_pos (hSame ▸ List.mem_cons_self)]
        exact hFirst
      · rw [if_neg hSame] at hFirst
        rw [if_neg (by simp [hLater, Ne.symm hSame])]
        exact hFirst

theorem settled_of_done (h : ∀ x ∈ t.tasks, x.Done) : t.Settled := by
  intro x hMem
  obtain ⟨hStage, hWaits⟩ := h x hMem
  refine ⟨hStage, ?_⟩
  unfold Task.look
  dsimp only
  split
  · next hWaiting =>
    rw [Attempt.waits_iff.mpr hWaiting] at hWaits
    cases hWaits
  · rfl

/-- Once all tasks are through, the count is the number of those that keep their slots. -/
theorem inFlight_eq_keeps (h : t.Sound) (hDone : ∀ x ∈ t.tasks, x.Done) :
    t.bulkhead.inFlight = (t.tasks.map Task.keeps).count true := by
  rw [inFlight_eq_held h fun x hMem => (hDone x hMem).1, held, List.count, List.countP_map]
  refine List.countP_congr fun x hMem => ?_
  simp [Task.keeps, (hDone x hMem).1]

theorem waits_of_holds {a : Attempt} (h : a.holds = true) : a.waits = false := by
  unfold Attempt.holds at h
  split at h
  · next since hHeld => simp [Attempt.waits, hHeld]
  · cases h

/-- A task that has a count to publish is through once it has done so, and has given its slot back
if it is to. -/
theorem publish_of_pending (hApt : x.Apt) {count : Nat} (hPending : x.pending = some count)
    (b : Bulkhead) :
    ∃ x', x.publish b = (x', b, Bulkhead.publish count) ∧ ∀ b', (x'.handBack b').1.Done := by
  unfold Task.pending at hPending
  split at hPending
  · next told hCounted =>
    obtain rfl := Option.some.inj hPending
    have hWaits := waits_of_holds (hApt (by simp [hCounted]))
    exact ⟨{ x with stage := none }, by simp [Task.publish, hCounted], fun _ => ⟨rfl, hWaits⟩⟩
  · next told hDiscounted =>
    obtain rfl := Option.some.inj hPending
    exact ⟨{ x with stage := some .published }, by simp [Task.publish, hDiscounted],
      fun _ => ⟨rfl, rfl⟩⟩
  · cases hPending

/-- Once the others are through, what one task has left to publish is what the gauge shows. -/
theorem publishes_last (h : t.Sound) (hTask : t.tasks[index]? = some x) {count : Nat}
    (hPending : x.pending = some count)
    (hOthers : ∀ k y, t.tasks[k]? = some y → k ≠ index → y.Done) :
    let later := t.through [.publish index, .handBack index]
    later.Settled ∧ later.journal.slotGauge = some (.gauge count) ∧
      later.bulkhead.inFlight = (t.tasks.map Task.keeps).count true := by
  obtain ⟨x', hPublish, hDone⟩ :=
    publish_of_pending (h.apt x (List.mem_of_getElem? hTask)) hPending t.bulkhead
  have hSound := (sound_through h [.publish index, .handBack index]).1
  have hAll : ∀ y ∈ (t.through [.publish index, .handBack index]).tasks, y.Done := by
    intro y hMem
    obtain ⟨k, hHere⟩ := List.mem_iff_getElem?.mp hMem
    simp only [through, List.foldl, move, getElem?_onTask] at hHere
    by_cases hSame : index = k
    · subst hSame
      simp only [if_true, hTask, Option.map_some, hPublish] at hHere
      obtain rfl := Option.some.inj hHere
      exact hDone _
    · simp only [hSame, if_false] at hHere
      exact hOthers k y hHere fun hIs => hSame hIs.symm
  refine ⟨settled_of_done hAll, ?_, ?_⟩
  · have hNothing : ((t.move (.publish index)).move (.handBack index)).journal =
        (t.move (.publish index)).journal := by
      simp only [move, onTask]
      split
      · rfl
      · next y hHere => rw [(handBack_task_fields _ y).2.1, List.append_nil]
    simp only [through, List.foldl, hNothing]
    rw [move, onTask_eq hTask, hPublish]
    exact Journal.slotGauge_append_measure _ _
  · rw [inFlight_eq_keeps hSound hAll]
    refine congrArg (List.count true) ?_
    have hFirst := (sound_move h (.publish index)).1
    refine (keeps_onTask fun y _ => keeps_handBack _ y).trans (keeps_onTask fun y hHere => ?_)
    exact keeps_publish _ (h.apt y (List.mem_of_getElem? hHere))

/-- Two tasks have different counts to publish: one of them is not the count that all tasks come to
in the end, and that one may be published last. -/
theorem overtake_of_ne (h : t.Sound) {early late : Nat} {x y : Task} {told told' : Nat}
    (hEarly : t.tasks[early]? = some x) (hLate : t.tasks[late]? = some y)
    (hTold : x.pending = some told) (hTold' : y.pending = some told') (hNe : told ≠ told') :
    ∃ rest, let later := t.through rest
      later.Settled ∧ ∃ count, later.journal.slotGauge = some (.gauge count) ∧
        count ≠ later.bulkhead.inFlight := by
  let final := (t.tasks.map Task.keeps).count true
  obtain ⟨last, z, count, hLast, hPending, hWrong⟩ : ∃ (last : Nat) (z : Task) (count : Nat),
      t.tasks[last]? = some z ∧ z.pending = some count ∧ count ≠ final := by
    by_cases hSame : told = final
    · exact ⟨late, y, told', hLate, hTold', fun hIs => hNe (hSame.trans hIs.symm)⟩
    · exact ⟨early, x, told, hEarly, hTold, hSame⟩
  let others := (List.range t.tasks.length).filter (· ≠ last)
  obtain ⟨hKeeps, hEach⟩ := through_finishAll h others
  have hSound := (sound_through h (others.flatMap finish)).1
  have hLength : (t.through (others.flatMap finish)).tasks.length = t.tasks.length := by
    simpa using congrArg List.length hKeeps
  have hNotOther : last ∉ others := by simp [others]
  obtain ⟨z', hHere⟩ : ∃ z', (t.through (others.flatMap finish)).tasks[last]? = some z' := by
    have hLess := (List.getElem?_eq_some_iff.mp hLast).1
    exact ⟨_, List.getElem?_eq_getElem (hLength.symm ▸ hLess)⟩
  have hStays := hEach last z' hHere
  rw [if_neg hNotOther] at hStays
  obtain rfl : z = z' := Option.some.inj (hLast.symm.trans hStays)
  have hOthers : ∀ k y', (t.through (others.flatMap finish)).tasks[k]? = some y' → k ≠ last →
      y'.Done := by
    intro k y' hTask hOther
    have hLess := (List.getElem?_eq_some_iff.mp hTask).1
    have hMem : k ∈ others := by
      rw [hLength] at hLess
      simp [others, hLess, hOther]
    have hDone := hEach k y' hTask
    rwa [if_pos hMem] at hDone
  obtain ⟨hSettled, hShown, hCount⟩ := publishes_last hSound hHere hPending hOthers
  refine ⟨others.flatMap finish ++ [.publish last, .handBack last], ?_⟩
  dsimp only
  rw [through_append]
  refine ⟨hSettled, count, hShown, ?_⟩
  rw [hCount, hKeeps]
  exact hWrong

/-- A task that has its slot and is counted is one of those in flight. -/
theorem inFlight_pos (h : t.Sound) (hTask : t.tasks[index]? = some x) (hOutside : x.stage = none)
    (hHolds : x.attempt.holds = true) : 0 < t.bulkhead.inFlight := by
  obtain ⟨hIndex, hGet⟩ := List.getElem?_eq_some_iff.mp hTask
  have hBefore : (x :: t.tasks.eraseIdx index).Perm t.tasks :=
    hGet ▸ List.getElem_cons_eraseIdx_perm hIndex
  have hApt : ∀ y ∈ t.tasks.eraseIdx index, y.Apt := fun y hMem =>
    h.apt y (List.mem_of_mem_eraseIdx hMem)
  have hOthers := uncounted_le_held hApt
  have hCounter := h.counter
  unfold held uncounted at hCounter
  rw [← hBefore.countP_eq, ← hBefore.countP_eq, List.countP_cons, List.countP_cons, hHolds,
    show x.uncounted = false by simp [Task.uncounted, hOutside]] at hCounter
  simp only [Bool.false_eq_true, if_false, if_true] at hCounter
  omega

/-- A task that steps the count is told another one than before. -/
theorem told_of_counts (h : t.Sound) (hCounts : t.counts m = true) :
    ∃ (late : Nat) (x y : Task) (told : Nat), t.tasks[late]? = some x ∧ x.pending = none ∧
      (t.move m).tasks[late]? = some y ∧ y.pending = some told ∧ told ≠ t.bulkhead.inFlight ∧
      ∀ k, late ≠ k → (t.move m).tasks[k]? = t.tasks[k]? := by
  cases m with
  | countIn index =>
    obtain ⟨x, hTask, hTaken⟩ : ∃ x, t.tasks[index]? = some x ∧ x.stage = some .taken := by
      simpa [counts, Option.any_eq_true] using hCounts
    refine ⟨index, x, (x.countIn t.bulkhead).1, t.bulkhead.inFlight + 1, hTask,
      by simp [Task.pending, hTaken], ?_, ?_, Nat.succ_ne_self _, fun k hOther => ?_⟩
    · rw [move, getElem?_onTask, if_pos rfl, hTask, Option.map_some]
    · simp [Task.countIn, hTaken, Task.pending, Bulkhead.countIn]
    · rw [move, getElem?_onTask, if_neg hOther]
  | countOut index =>
    obtain ⟨x, hTask, hOutside, hHolds⟩ : ∃ x, t.tasks[index]? = some x ∧ x.stage = none ∧
        x.attempt.holds = true := by
      simpa [counts, Option.any_eq_true] using hCounts
    have hPos := inFlight_pos h hTask hOutside hHolds
    refine ⟨index, x, (x.countOut t.bulkhead).1, t.bulkhead.inFlight - 1, hTask,
      by simp [Task.pending, hOutside], ?_, ?_, by omega, fun k hOther => ?_⟩
    · rw [move, getElem?_onTask, if_pos rfl, hTask, Option.map_some]
    · rw [countOut_of_holds hOutside hHolds]
      rfl
    · rw [move, getElem?_onTask, if_neg hOther]
  | _ => cases hCounts

/-- A count that is stepped too early can be published too early as well. -/
theorem overtake (h : t.Sound) (hInOrder : t.InOrder) (hEarly : ¬ t.Waits m) :
    ∃ rest, let later := (t.move m).through rest
      later.Settled ∧ ∃ count, later.journal.slotGauge = some (.gauge count) ∧
        count ≠ later.bulkhead.inFlight := by
  obtain ⟨hCounts, hUntold⟩ := Classical.not_imp.mp hEarly
  simp only [Told, not_forall] at hUntold
  obtain ⟨z, hMem, hSome⟩ := hUntold
  obtain ⟨told, hTold⟩ := Option.ne_none_iff_exists'.mp hSome
  obtain ⟨early, hTask⟩ := List.mem_iff_getElem?.mp hMem
  obtain ⟨late, x, y, told', hLate, hNothing, hHere, hTold', hNe, hOthers⟩ :=
    told_of_counts h hCounts
  have hOther : late ≠ early := by
    rintro rfl
    obtain rfl := Option.some.inj (hLate.symm.trans hTask)
    rw [hNothing] at hTold
    cases hTold
  have hStays := (hOthers early hOther).trans hTask
  refine overtake_of_ne (sound_move h m).1 hStays hHere hTold hTold' fun hSame => hNe ?_
  exact hSame.symm.trans (hInOrder.fresh z hMem told hTold)

/-! ## One thread -/

/-- The tasks of a contention, all of them through. -/
def ofContention (c : Contention) : Threads :=
  ⟨c.now, c.directory, c.bulkhead, c.attempts.map fun a => ⟨a, none⟩, c.journal⟩

/-- A move of one thread, of which no part is left to others. -/
def unbroken : Contention.Move → List Move
  | .clock now => [.clock now]
  | .scope command => [.scope command]
  | .acquire id scope => [.acquire id scope]
  | .visit index => [.look index, .countIn index, .publish index]
  | .release index => [.countOut index, .publish index, .handBack index]
  | .abort index => [.abort index]

theorem told_ofContention (c : Contention) : (ofContention c).Told := by
  intro x hMem
  obtain ⟨a, -, rfl⟩ := List.mem_map.mp hMem
  rfl

theorem getElem?_ofContention (c : Contention) (k : Nat) :
    (ofContention c).tasks[k]? = (c.attempts[k]?).map fun a => ⟨a, none⟩ := by
  rw [ofContention, List.getElem?_map]

/-- Two steps of one task, one right after the other. -/
def inOneGo (f g : Bulkhead → Task → Task × Bulkhead × Journal) (b : Bulkhead) (x : Task) :
    Task × Bulkhead × Journal :=
  let first := f b x
  let second := g first.2.1 first.1
  (second.1, second.2.1, first.2.2 ++ second.2.2)

theorem onTask_onTask (t : Threads) (index : Nat)
    (f g : Bulkhead → Task → Task × Bulkhead × Journal) :
    (t.onTask index f).onTask index g = t.onTask index (inOneGo f g) := by
  cases hTask : t.tasks[index]? with
  | none => rw [onTask_of_none hTask, onTask_of_none hTask, onTask_of_none hTask]
  | some x =>
    have hHere : (t.onTask index f).tasks[index]? = some (f t.bulkhead x).1 := by
      rw [getElem?_onTask, if_pos rfl, hTask, Option.map_some]
    rw [onTask_eq hHere, onTask_eq hTask, onTask_eq hTask]
    simp only [List.set_set, List.append_assoc, inOneGo]

/-- A step of one task, and all that goes with it on one thread. -/
theorem ofContention_onAttempt {c : Contention}
    {f : Bulkhead → Attempt → Attempt × Bulkhead × Journal}
    {g : Bulkhead → Task → Task × Bulkhead × Journal}
    (h : ∀ a, c.attempts[index]? = some a →
      g c.bulkhead ⟨a, none⟩ = (⟨(f c.bulkhead a).1, none⟩, (f c.bulkhead a).2)) :
    (ofContention c).onTask index g = ofContention (c.onAttempt index f) := by
  cases hAttempt : c.attempts[index]? with
  | none =>
    rw [Contention.onAttempt_of_none hAttempt, onTask_of_none]
    rw [getElem?_ofContention, hAttempt, Option.map_none]
  | some a =>
    have hTask : (ofContention c).tasks[index]? = some ⟨a, none⟩ := by
      rw [getElem?_ofContention, hAttempt, Option.map_some]
    rw [Contention.onAttempt_eq hAttempt, onTask_eq hTask]
    have hSame := h a hAttempt
    simp only [ofContention] at hSame ⊢
    rw [hSame, List.map_set]

theorem look_unbroken (tokens : Tokens) (now : Nat) (b : Bulkhead) (a : Attempt) :
    inOneGo (inOneGo (Task.look tokens now) Task.countIn) Task.publish b ⟨a, none⟩ =
      (⟨(Contention.visit tokens now b a).1, none⟩, (Contention.visit tokens now b a).2) := by
  unfold inOneGo
  cases hStatus : a.status with
  | waiting =>
    cases hTake : b.take? a.ticket with
    | some taken =>
      simp [Task.look, hStatus, look_of_take hTake, Task.countIn, Task.publish, Contention.visit,
        poll_of_take hTake]
    | none =>
      simp only [Task.look, hStatus, look_of_take_none hTake, Contention.visit,
        poll_of_take_none hTake]
      by_cases hLate : a.deadline ≤ now
      · simp [hLate, Task.countIn, Task.publish]
      · simp only [hLate, if_false]
        cases a.scope.bind fun s => s.cancelled? tokens now <;> simp [Task.countIn, Task.publish]
  | held | released | aborted | refused =>
    simp [Task.look, hStatus, Task.countIn, Task.publish, Contention.visit]

theorem release_unbroken (b : Bulkhead) (a : Attempt) :
    inOneGo (inOneGo Task.countOut Task.publish) Task.handBack b ⟨a, none⟩ =
      (⟨(Contention.giveBack b a).1, none⟩, (Contention.giveBack b a).2) := by
  unfold inOneGo
  cases hStatus : a.status <;>
    simp [Task.countOut, Task.publish, Task.handBack, Contention.giveBack, release, hStatus]

theorem abort_unbroken (b : Bulkhead) (a : Attempt) :
    Task.abort b ⟨a, none⟩ =
      (⟨(Contention.giveUp b a).1, none⟩, (Contention.giveUp b a).2) := by
  cases hStatus : a.status <;> simp [Task.abort, Contention.giveUp, hStatus]

/-- What one thread does is a run of its tasks that nobody comes between. -/
theorem through_unbroken (c : Contention) (m : Contention.Move) :
    (ofContention c).through (unbroken m) = ofContention (c.move m) := by
  cases m with
  | clock now => rfl
  | scope command => rfl
  | acquire id scope =>
    simp [unbroken, through, move, ofContention, Contention.move]
  | visit index =>
    refine Eq.trans ?_ (ofContention_onAttempt fun a _ =>
      look_unbroken c.directory.tokens c.now c.bulkhead a)
    rw [← onTask_onTask, ← onTask_onTask]
    rfl
  | release index =>
    refine Eq.trans ?_ (ofContention_onAttempt fun a _ => release_unbroken c.bulkhead a)
    rw [← onTask_onTask, ← onTask_onTask]
    rfl
  | abort index => exact ofContention_onAttempt fun a _ => abort_unbroken c.bulkhead a

theorem waits_of_counts_eq_false (h : t.counts m = false) : t.Waits m := by
  intro hCounts
  rw [h] at hCounts
  cases hCounts

theorem orderly_unbroken (c : Contention) (m : Contention.Move) :
    (ofContention c).Orderly (unbroken m) := by
  have hTold := told_ofContention c
  cases m with
  | visit index =>
    refine ⟨waits_of_counts_eq_false rfl, fun _ => ?_, waits_of_counts_eq_false rfl, trivial⟩
    intro x hMem
    obtain ⟨k, hTask⟩ := List.mem_iff_getElem?.mp hMem
    rw [move, getElem?_onTask] at hTask
    split at hTask
    · obtain ⟨y, hHere, rfl⟩ := Option.map_eq_some_iff.mp hTask
      obtain ⟨a, -, rfl⟩ := List.mem_map.mp (List.mem_of_getElem? hHere)
      exact (look_fields _ _ _ fun hSome => absurd rfl hSome).2.2
    · exact hTold x (List.mem_of_getElem? hTask)
  | release index =>
    exact ⟨fun _ => hTold, waits_of_counts_eq_false rfl, waits_of_counts_eq_false rfl, trivial⟩
  | clock | scope | acquire | abort => exact ⟨waits_of_counts_eq_false rfl, trivial⟩

/-- Whatever can come of the tasks of one thread comes of an orderly run. -/
theorem orderly_of_reachable {c : Contention} (h : Contention.Reachable b c) :
    ∃ moves, (start b).Orderly moves ∧ (start b).through moves = ofContention c := by
  induction h with
  | start => exact ⟨[], trivial, rfl⟩
  | @move c _ m ih =>
    obtain ⟨moves, hOrderly, hThrough⟩ := ih
    refine ⟨moves ++ unbroken m, orderly_append hOrderly ?_, ?_⟩
    · rw [hThrough]
      exact orderly_unbroken c m
    · rw [through_append, hThrough, through_unbroken]

end Threads

/-! ## The whole run -/

open Threads in
/-- Tasks take, give back, wait for and give up the slots of a bulkhead on any number of threads. At
every moment a slot is held by one task, promised to one that waits, or free, and the count is that
of the tasks that have a slot, less those that have still to count it or count it no more. Once
nothing happens any more at an instant, the count is the number of slots that are held, the others
are free, and no task waits while one is free.

If the count is never stepped while an earlier one is still to be published, the gauge shows the
count, if it was ever set, as soon as all counts have been published. Where the count is stepped too
early, the tasks can go on so that nothing happens any more and the gauge shows another one. What
one thread does is always in order. -/
theorem slots_conserved_on_threads {capacity acquireTimeout : Nat} {b : Bulkhead}
    (hCreate : create? capacity acquireTimeout = some b) :
    (∀ moves, let t := (start b).through moves
      (t.bulkhead.inFlight + t.uncounted = t.held ∧
        t.held + t.bulkhead.reserved.length + t.bulkhead.available = capacity ∧
        (t.bulkhead.reserved ++ t.bulkhead.waiting).Perm t.waitingTickets) ∧
      (t.Settled → t.bulkhead.inFlight = t.held ∧
        t.bulkhead.inFlight + t.bulkhead.available = capacity ∧
        (0 < t.bulkhead.available → ∀ x ∈ t.tasks, x.attempt.status ≠ .waiting)) ∧
      ((start b).Orderly moves → t.Told → ∀ reading, t.journal.slotGauge = some reading →
        reading = .gauge t.bulkhead.inFlight) ∧
      ((start b).Orderly moves → ∀ m, ¬ t.Waits m →
        ∃ rest, let later := (t.move m).through rest
          later.Settled ∧ ∃ count, later.journal.slotGauge = some (.gauge count) ∧
            count ≠ later.bulkhead.inFlight)) ∧
    ∀ c, Contention.Reachable b c →
      ∃ moves, (start b).Orderly moves ∧ (start b).through moves = ofContention c := by
  have hStart := sound_start hCreate
  refine ⟨fun moves => ?_, fun c => orderly_of_reachable⟩
  intro t
  obtain ⟨hSound, hSame⟩ := sound_through hStart moves
  have hBegun : b.capacity = capacity := by rw [Contention.create_cases hCreate]
  have hCapacity : t.bulkhead.capacity = capacity := hSame.trans hBegun
  have hInOrder : (start b).Orderly moves → t.InOrder := (inOrder_start b).through hStart
  have hSlots := hSound.allotted.slots
  rw [hCapacity] at hSlots
  refine ⟨⟨hSound.counter, hSlots, hSound.allotted.tickets⟩, fun hSettled => ?_,
    fun hOrderly => (hInOrder hOrderly).shown,
    fun hOrderly m => overtake hSound (hInOrder hOrderly)⟩
  have hHeld := inFlight_eq_held hSound fun x hMem => (hSettled x hMem).1
  refine ⟨hHeld, ?_, status_ne_waiting hSound hSettled⟩
  rw [hHeld, ← hSlots, reserved_eq_nil hSound hSettled, List.length_nil, Nat.add_zero]

/-- A bulkhead with two slots. -/
def twoSlots : Bulkhead := ⟨2, 100, 2, 0, [], [], 0⟩

/-- Two tasks take a slot each, and the first begins to give its slot back. -/
def oneLeaving : List Threads.Move :=
  [.acquire "a" none, .look 0, .countIn 0, .publish 0, .acquire "b" none, .look 1, .countIn 1,
    .publish 1, .countOut 0]

/-- The second begins to give its slot back when the first has published what it was told. -/
def leavingInTurn : List Threads.Move := oneLeaving ++ [.publish 0, .countOut 1, .publish 1]

theorem slots_conserved_on_threads_leaving :
    (∃ rest,
      let later := (((Threads.start twoSlots).through oneLeaving).move (.countOut 1)).through rest
      later.Settled ∧ ∃ count, later.journal.slotGauge = some (.gauge count) ∧
        count ≠ later.bulkhead.inFlight) ∧
    ((Threads.start twoSlots).through leavingInTurn).bulkhead.inFlight = 0 ∧
    ∀ reading, ((Threads.start twoSlots).through leavingInTurn).journal.slotGauge = some reading →
      reading = .gauge 0 := by
  have hCreate : create? 2 100 = some twoSlots := by decide
  obtain ⟨hRuns, -⟩ := slots_conserved_on_threads hCreate
  obtain ⟨-, -, -, hEarly⟩ := hRuns oneLeaving
  obtain ⟨-, -, hShown, -⟩ := hRuns leavingInTurn
  have hCount : ((Threads.start twoSlots).through leavingInTurn).bulkhead.inFlight = 0 := by
    decide +kernel
  refine ⟨hEarly (by decide +kernel) (.countOut 1) (by decide +kernel), hCount, ?_⟩
  intro reading hReading
  rw [hShown (by decide +kernel) (by decide +kernel) reading hReading, hCount]

/-- Both tasks give their slots back. The second steps the count after the first, and publishes it
before. -/
def crossing : List Threads.Move :=
  oneLeaving ++ [.countOut 1, .publish 1, .publish 0, .handBack 0, .handBack 1]

/-- When nothing happens any more the gauge does not always show the count: no slot is held, and it
shows one. -/
theorem not_always_shown :
    (¬ ∀ (capacity acquireTimeout : Nat) (b : Bulkhead) (moves : List Threads.Move),
      create? capacity acquireTimeout = some b →
        let t := (Threads.start b).through moves
        t.Settled → ∀ reading, t.journal.slotGauge = some reading →
          reading = .gauge t.bulkhead.inFlight) ∧
    ((Threads.start twoSlots).through crossing).Settled ∧
    ((Threads.start twoSlots).through crossing).held = 0 ∧
    ((Threads.start twoSlots).through crossing).bulkhead.inFlight = 0 ∧
    ((Threads.start twoSlots).through crossing).bulkhead.available = 2 ∧
    ((Threads.start twoSlots).through crossing).journal.slotGauge = some (.gauge 1) := by
  have hSettled : ((Threads.start twoSlots).through crossing).Settled := by
    refine Threads.settled_of_done ?_
    simp only [Task.Done]
    decide +kernel
  have hGauge :
      ((Threads.start twoSlots).through crossing).journal.slotGauge = some (.gauge 1) := by
    decide +kernel
  refine ⟨fun hAlways => ?_, hSettled, by decide +kernel, by decide +kernel, by decide +kernel,
    hGauge⟩
  have hCreate : create? 2 100 = some twoSlots := by decide
  have hShown := hAlways 2 100 twoSlots crossing hCreate hSettled _ hGauge
  revert hShown
  decide +kernel

end Gatehouse.Bulkhead
