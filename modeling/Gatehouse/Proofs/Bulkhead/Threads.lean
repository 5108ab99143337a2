import Gatehouse.Proofs.Bulkhead.Moves

/-!
# Tasks on several threads

A task that has taken a slot steps the count and then publishes what the count has come to. A task
that gives its slot back does the same before the slot is free. No lock holds these steps together,
so on several threads other tasks come between them. That loses no slot and no count: whenever all
tasks are through, the count is the number of those that have a slot.

* `Task`, `Stage`: a task, and how far it has come that takes its slot or gives it back.
* `Threads`, `Threads.move`: a bulkhead with its tasks, and a step of one of them.
* `Threads.Sound`, `Threads.sound_move`: the invariant of all runs.
* `Threads.Settled`: nothing happens any more at this instant.
-/

namespace Gatehouse.Bulkhead

/-- How far a task has come that takes its slot or gives it back. -/
inductive Stage where
  /-- The slot is taken, and the task is not counted yet. -/
  | taken
  /-- The task is counted, and has the count to publish. -/
  | counted (count : Nat)
  /-- The task is not counted any more, and has the count to publish before it gives its slot
  back. -/
  | discounted (count : Nat)
  /-- The slot is all that is left to give back. -/
  | published
  deriving DecidableEq, Repr

/-- A task, and where it is if it is taking its slot or giving it back. -/
structure Task where
  attempt : Attempt
  stage : Option Stage

namespace Task

/-- The task has a slot and is not counted. -/
def uncounted (x : Task) : Bool :=
  match x.stage with
  | some .taken | some (.discounted _) | some .published => true
  | _ => false

def away (x : Task) : Nat := if x.uncounted then 1 else 0

/-- The count that the task has still to publish. -/
def pending (x : Task) : Option Nat :=
  match x.stage with
  | some (.counted count) | some (.discounted count) => some count
  | _ => none

/-- The task will have a slot once it is through. -/
def keeps (x : Task) : Bool :=
  match x.stage with
  | none => x.attempt.holds
  | some .taken | some (.counted _) => true
  | _ => false

/-- Only who has a slot is taking it or giving it back. -/
def Apt (x : Task) : Prop := x.stage ≠ none → x.attempt.holds = true

/-- The task is through, and does not wait for a slot. -/
def Done (x : Task) : Prop := x.stage = none ∧ x.attempt.waits = false

/-! ### What a task does -/

/-- Looks for the slot of a task that waits, which is not counted with it. -/
def look (tokens : Tokens) (now : Nat) (b : Bulkhead) (x : Task) : Task × Bulkhead × Journal :=
  let a := x.attempt
  match a.status with
  | .waiting =>
    match b.look a.ticket a.deadline now (a.scope.bind fun s => s.cancelled? tokens now) with
    | (.waits, b) => (x, b, [])
    | (.holds, b) => (⟨{ a with status := .held now }, some .taken⟩, b, [])
    | (.refused reason, b) =>
      ({ x with attempt := { a with status := .refused reason now } }, b, [])
  | _ => (x, b, [])

def countIn (b : Bulkhead) (x : Task) : Task × Bulkhead × Journal :=
  match x.stage with
  | some .taken => ({ x with stage := some (.counted b.countIn.1) }, b.countIn.2, [])
  | _ => (x, b, [])

/-- The first thing that a task does to give its slot back. -/
def countOut (b : Bulkhead) (x : Task) : Task × Bulkhead × Journal :=
  match x.stage, x.attempt.status with
  | none, .held _ => ({ x with stage := some (.discounted b.countOut.1) }, b.countOut.2, [])
  | _, _ => (x, b, [])

def publish (b : Bulkhead) (x : Task) : Task × Bulkhead × Journal :=
  match x.stage with
  | some (.counted count) => ({ x with stage := none }, b, Bulkhead.publish count)
  | some (.discounted count) => ({ x with stage := some .published }, b, Bulkhead.publish count)
  | _ => (x, b, [])

def handBack (b : Bulkhead) (x : Task) : Task × Bulkhead × Journal :=
  match x.stage with
  | some .published => (⟨{ x.attempt with status := .released }, none⟩, b.handBack, [])
  | _ => (x, b, [])

/-- The task is dropped, if it waits. -/
def abort (b : Bulkhead) (x : Task) : Task × Bulkhead × Journal :=
  match x.attempt.status with
  | .waiting =>
    ({ x with attempt := { x.attempt with status := .aborted } }, b.withdraw x.attempt.ticket, [])
  | _ => (x, b, [])

end Task

/-- A bulkhead and the tasks that compete for its slots, on any number of threads. -/
structure Threads where
  now : Nat
  directory : Scope.Directory
  bulkhead : Bulkhead
  tasks : List Task
  journal : Journal

namespace Threads

/-- One of the tasks goes on, a new one comes, or something happens to time and the scopes. -/
inductive Move where
  | clock (now : Nat)
  | scope (command : Scope.Command)
  | acquire (id : String) (scope : Option Scope)
  | look (index : Nat)
  | countIn (index : Nat)
  | countOut (index : Nat)
  | publish (index : Nat)
  | handBack (index : Nat)
  | abort (index : Nat)

def start (b : Bulkhead) : Threads := ⟨0, .empty, b, [], []⟩

/-- Does something with one of the tasks; where there is none, nothing happens. -/
def onTask (t : Threads) (index : Nat) (f : Bulkhead → Task → Task × Bulkhead × Journal) :
    Threads :=
  match t.tasks[index]? with
  | none => t
  | some x =>
    let (x, b, journal) := f t.bulkhead x
    { t with bulkhead := b, tasks := t.tasks.set index x, journal := t.journal ++ journal }

def move (t : Threads) : Move → Threads
  | .clock now => { t with now := now }
  | .scope command => { t with directory := t.directory.perform t.now command }
  | .acquire id scope =>
    let (ticket, b) := t.bulkhead.enter
    let attempt : Attempt := ⟨id, ticket, t.now + b.acquireTimeout, scope, .waiting⟩
    { t with bulkhead := b, tasks := t.tasks ++ [⟨attempt, none⟩] }
  | .look index => t.onTask index (Task.look t.directory.tokens t.now)
  | .countIn index => t.onTask index Task.countIn
  | .countOut index => t.onTask index Task.countOut
  | .publish index => t.onTask index Task.publish
  | .handBack index => t.onTask index Task.handBack
  | .abort index => t.onTask index Task.abort

def through (t : Threads) (moves : List Move) : Threads := moves.foldl move t

def held (t : Threads) : Nat := t.tasks.countP fun x => x.attempt.holds

def uncounted (t : Threads) : Nat := t.tasks.countP Task.uncounted

def waitingTickets (t : Threads) : List Nat := t.tasks.flatMap fun x => x.attempt.tickets

/-- Nothing happens any more at this instant: every task is through, and a look changes nothing. -/
def Settled (t : Threads) : Prop :=
  ∀ x ∈ t.tasks, x.stage = none ∧
    Task.look t.directory.tokens t.now t.bulkhead x = (x, t.bulkhead, [])

variable {t : Threads} {b : Bulkhead} {x : Task} {index : Nat} {m : Move}

theorem through_append (t : Threads) (moves later : List Move) :
    t.through (moves ++ later) = (t.through moves).through later := List.foldl_append

theorem onTask_eq (hTask : t.tasks[index]? = some x)
    (f : Bulkhead → Task → Task × Bulkhead × Journal) :
    t.onTask index f =
      { t with
        bulkhead := (f t.bulkhead x).2.1
        tasks := t.tasks.set index (f t.bulkhead x).1
        journal := t.journal ++ (f t.bulkhead x).2.2 } := by
  simp only [onTask, hTask]

theorem onTask_of_none (hTask : t.tasks[index]? = none)
    (f : Bulkhead → Task → Task × Bulkhead × Journal) : t.onTask index f = t := by
  simp only [onTask, hTask]

/-- What comes to nothing for one task comes to nothing for all. -/
theorem onTask_of_same {f : Bulkhead → Task → Task × Bulkhead × Journal}
    (h : ∀ x, t.tasks[index]? = some x → f t.bulkhead x = (x, t.bulkhead, [])) :
    t.onTask index f = t := by
  cases hTask : t.tasks[index]? with
  | none => exact onTask_of_none hTask f
  | some x =>
    obtain ⟨hLess, hGet⟩ := List.getElem?_eq_some_iff.mp hTask
    rw [onTask_eq hTask, h x hTask, ← hGet, List.set_getElem_self, List.append_nil]

/-! ## Every run -/

/-- What one task may do with the bulkhead: it hands over what it holds or waits for, and steps the
count as it comes to be counted or not. -/
structure Trades (b : Bulkhead) (x : Task) (after : Task × Bulkhead × Journal) : Prop where
  apt : after.1.Apt
  capacity : after.2.1.capacity = b.capacity
  allotted : ∀ {held : Nat} {tickets : List Nat},
    b.Allotted (held + x.attempt.slots) (x.attempt.tickets ++ tickets) →
      after.2.1.Allotted (held + after.1.attempt.slots) (after.1.attempt.tickets ++ tickets)
  counter : ∀ {held away : Nat}, away ≤ held →
    b.inFlight + (away + x.away) = held + x.attempt.slots →
      after.2.1.inFlight + (away + after.1.away) = held + after.1.attempt.slots
  packed : b.Packed → after.2.1.Packed

theorem Trades.nothing (b : Bulkhead) (h : x.Apt) : Trades b x (x, b, []) :=
  ⟨h, rfl, id, fun _ => id, id⟩

theorem stage_of_waiting (h : x.Apt) (hWaiting : x.attempt.status = .waiting) : x.stage = none := by
  by_contra hSome
  have hHolds := h hSome
  rw [Attempt.holds, hWaiting] at hHolds
  cases hHolds

/-- Who waits and goes without a slot gives its ticket up. -/
theorem trades_leave {status : Status} (h : x.Apt) (hWaiting : x.attempt.status = .waiting)
    (hLeft : ∀ a : Attempt, a.status = status → a.slots = 0 ∧ a.tickets = []) :
    Trades b x ({ x with attempt := { x.attempt with status := status } },
      b.withdraw x.attempt.ticket, []) := by
  have hStage := stage_of_waiting h hWaiting
  have hSlots : x.attempt.slots = 0 := by simp [Attempt.slots, Attempt.holds, hWaiting]
  have hTickets : x.attempt.tickets = [x.attempt.ticket] := by
    simp [Attempt.tickets, Attempt.waits, hWaiting]
  obtain ⟨hNoSlot, hNoTicket⟩ := hLeft { x.attempt with status := status } rfl
  refine ⟨fun hSome => absurd hStage hSome, withdraw_capacity b _, fun hAllotted => ?_,
    fun hLe hCount => ?_, fun hPacked => packed_withdraw hPacked _⟩
  · rw [hSlots, hTickets] at hAllotted
    rw [hNoSlot, hNoTicket]
    exact allotted_withdraw hAllotted
  · rw [hSlots] at hCount
    rw [hNoSlot, (withdraw_fields b x.attempt.ticket).1]
    exact hCount

theorem trades_look (tokens : Tokens) (now : Nat) (b : Bulkhead) (h : x.Apt) :
    Trades b x (Task.look tokens now b x) := by
  unfold Task.look
  dsimp only
  split
  · next hWaiting =>
    have hStage := stage_of_waiting h hWaiting
    cases hTake : b.take? x.attempt.ticket with
    | some taken =>
      simp only [look_of_take hTake]
      refine ⟨fun _ => rfl, take_capacity hTake, fun hAllotted => ?_, fun hLe hCount => ?_,
        fun hPacked => packed_take hPacked hTake⟩
      · rw [show x.attempt.slots = 0 by simp [Attempt.slots, Attempt.holds, hWaiting],
          show x.attempt.tickets = [x.attempt.ticket] by
            simp [Attempt.tickets, Attempt.waits, hWaiting]] at hAllotted
        exact allotted_take hAllotted hTake
      · rw [show x.attempt.slots = 0 by simp [Attempt.slots, Attempt.holds, hWaiting],
          show x.away = 0 by simp [Task.away, Task.uncounted, hStage]] at hCount
        obtain ⟨-, rfl⟩ := take_eq_some_iff.mp hTake
        exact congrArg (· + 1) hCount
    | none =>
      simp only [look_of_take_none hTake]
      have hRefused : ∀ (a : Attempt) (reason : Refusal), a.status = .refused reason now →
          a.slots = 0 ∧ a.tickets = [] := by
        intro a reason hStatus
        simp [Attempt.slots, Attempt.holds, Attempt.tickets, Attempt.waits, hStatus]
      by_cases hLate : x.attempt.deadline ≤ now
      · simp only [hLate, if_true]
        exact trades_leave h hWaiting fun a => hRefused a _
      · simp only [hLate, if_false]
        cases x.attempt.scope.bind fun s => s.cancelled? tokens now with
        | some cause => exact trades_leave h hWaiting fun a => hRefused a _
        | none => exact .nothing b h
  · exact .nothing b h

theorem trades_abort (b : Bulkhead) (h : x.Apt) : Trades b x (x.abort b) := by
  unfold Task.abort
  split
  · next hWaiting =>
    refine trades_leave h hWaiting fun a hStatus => ?_
    simp [Attempt.slots, Attempt.holds, Attempt.tickets, Attempt.waits, hStatus]
  · exact .nothing b h

theorem slots_of_holds {a : Attempt} (h : a.holds = true) : a.slots = 1 ∧ a.tickets = [] := by
  refine ⟨by simp [Attempt.slots, h], ?_⟩
  unfold Attempt.holds at h
  split at h
  · next hHeld => simp [Attempt.tickets, Attempt.waits, hHeld]
  · cases h

theorem trades_countIn (b : Bulkhead) (h : x.Apt) : Trades b x (x.countIn b) := by
  unfold Task.countIn
  split
  · next hTaken =>
    refine ⟨fun _ => h (by simp [hTaken]), rfl,
      fun hAllotted => ⟨hAllotted.slots, hAllotted.tickets⟩, fun hLe hCount => ?_, id⟩
    simp only [Task.away, Task.uncounted, hTaken, Bulkhead.countIn, if_true, Bool.false_eq_true,
      if_false] at hCount ⊢
    omega
  · exact .nothing b h

theorem trades_countOut (b : Bulkhead) (h : x.Apt) : Trades b x (x.countOut b) := by
  unfold Task.countOut
  split
  · next since hOutside hHeld =>
    have hHolds : x.attempt.holds = true := by rw [Attempt.holds, hHeld]
    refine ⟨fun _ => hHolds, rfl, fun hAllotted => ⟨hAllotted.slots, hAllotted.tickets⟩,
      fun hLe hCount => ?_, id⟩
    simp only [Task.away, Task.uncounted, hOutside, (slots_of_holds hHolds).1, Bulkhead.countOut,
      if_true, Bool.false_eq_true, if_false] at hCount ⊢
    omega
  · exact .nothing b h

theorem trades_publish (b : Bulkhead) (h : x.Apt) : Trades b x (x.publish b) := by
  unfold Task.publish
  split
  · next count hCounted =>
    refine ⟨fun hSome => absurd rfl hSome, rfl, id, fun _ hCount => ?_, id⟩
    simpa [Task.away, Task.uncounted, hCounted] using hCount
  · next count hDiscounted =>
    refine ⟨fun _ => h (by simp [hDiscounted]), rfl, id, fun _ hCount => ?_, id⟩
    simpa [Task.away, Task.uncounted, hDiscounted] using hCount
  · exact .nothing b h

theorem trades_handBack (b : Bulkhead) (h : x.Apt) : Trades b x (x.handBack b) := by
  unfold Task.handBack
  split
  · next hPublished =>
    obtain ⟨hSlots, hTickets⟩ := slots_of_holds (h (by simp [hPublished]))
    refine ⟨fun hSome => absurd rfl hSome, (handBack_fields b).1, fun hAllotted => ?_,
      fun _ hCount => ?_, packed_handBack⟩
    · rw [hSlots, hTickets] at hAllotted
      exact allotted_handBack hAllotted
    · rw [hSlots, show x.away = 1 by simp [Task.away, Task.uncounted, hPublished]] at hCount
      rw [(handBack_fields b).2.1]
      exact Nat.succ.inj hCount
  · exact .nothing b h

/-- What holds whatever the tasks do. -/
structure Sound (t : Threads) : Prop where
  allotted : t.bulkhead.Allotted t.held t.waitingTickets
  counter : t.bulkhead.inFlight + t.uncounted = t.held
  packed : t.bulkhead.Packed
  apt : ∀ x ∈ t.tasks, x.Apt

theorem sound_start {capacity acquireTimeout : Nat}
    (hCreate : create? capacity acquireTimeout = some b) : (start b).Sound := by
  obtain rfl := Contention.create_cases hCreate
  exact ⟨⟨Nat.zero_add _, .nil⟩, rfl, fun hLine => absurd rfl hLine, nofun⟩

/-- Tasks of which nobody is counted without a slot. -/
theorem uncounted_le_held {tasks : List Task} (h : ∀ x ∈ tasks, x.Apt) :
    tasks.countP Task.uncounted ≤ tasks.countP fun x => x.attempt.holds := by
  refine List.countP_mono_left fun x hMem hUncounted => h x hMem ?_
  intro hNone
  simp [Task.uncounted, hNone] at hUncounted

/-- What one task may do keeps the books of all. -/
theorem sound_onTask (h : t.Sound) (index : Nat) {f : Bulkhead → Task → Task × Bulkhead × Journal}
    (hf : ∀ b x, x.Apt → Trades b x (f b x)) :
    (t.onTask index f).Sound ∧ (t.onTask index f).bulkhead.capacity = t.bulkhead.capacity := by
  cases hTask : t.tasks[index]? with
  | none =>
    rw [onTask_of_none hTask]
    exact ⟨h, rfl⟩
  | some x =>
    rw [onTask_eq hTask]
    obtain ⟨hIndex, hGet⟩ := List.getElem?_eq_some_iff.mp hTask
    have hTrades := hf t.bulkhead x (h.apt x (List.mem_of_getElem? hTask))
    have hBefore : (x :: t.tasks.eraseIdx index).Perm t.tasks :=
      hGet ▸ List.getElem_cons_eraseIdx_perm hIndex
    have hAfter : (t.tasks.set index (f t.bulkhead x).1).Perm
        ((f t.bulkhead x).1 :: t.tasks.eraseIdx index) := List.set_perm_cons_eraseIdx hIndex _
    have hOthers : ∀ y ∈ t.tasks.eraseIdx index, y.Apt := fun y hMem =>
      h.apt y (List.mem_of_mem_eraseIdx hMem)
    have hAllotted := h.allotted
    have hCounter := h.counter
    unfold held waitingTickets at hAllotted
    unfold held uncounted at hCounter
    rw [← hBefore.countP_eq, List.countP_cons] at hAllotted hCounter
    rw [← hBefore.countP_eq, List.countP_cons] at hCounter
    refine ⟨⟨?_, ?_, hTrades.packed h.packed, fun y hMem => ?_⟩, hTrades.capacity⟩
    · unfold held waitingTickets
      rw [hAfter.countP_eq, List.countP_cons]
      have hTickets := hAfter.flatMap_right fun y => y.attempt.tickets
      exact (hTrades.allotted (hAllotted.congr (hBefore.flatMap_right _).symm)).congr hTickets.symm
    · unfold held uncounted
      rw [hAfter.countP_eq, hAfter.countP_eq, List.countP_cons, List.countP_cons]
      exact hTrades.counter (uncounted_le_held hOthers) hCounter
    · rcases List.mem_cons.mp (hAfter.subset hMem) with rfl | hOther
      · exact hTrades.apt
      · exact hOthers y hOther

theorem sound_acquire (h : t.Sound) (id : String) (scope : Option Scope) :
    (t.move (.acquire id scope)).Sound := by
  obtain ⟨-, -, hInFlight, -⟩ := enter_fields t.bulkhead
  refine ⟨?_, ?_, packed_enter h.packed, fun x hMem => ?_⟩
  · have hHeld : (t.move (.acquire id scope)).held = t.held := by
      simp [move, held, Attempt.holds]
    have hTickets : (t.move (.acquire id scope)).waitingTickets =
        t.waitingTickets ++ [t.bulkhead.enter.1] := by
      simp [move, waitingTickets, Attempt.tickets, Attempt.waits]
    rw [hHeld, hTickets]
    exact (allotted_enter h.allotted).congr (List.perm_append_singleton _ _).symm
  · have hCounter := h.counter
    simp only [held, uncounted] at hCounter
    simp [move, held, uncounted, hInFlight, hCounter, Task.uncounted, Attempt.holds]
  · rcases List.mem_append.mp hMem with hOld | hNew
    · exact h.apt x hOld
    · obtain rfl := List.mem_singleton.mp hNew
      exact fun hSome => absurd rfl hSome

/-- The step lemma of all runs. -/
theorem sound_move (h : t.Sound) (m : Move) :
    (t.move m).Sound ∧ (t.move m).bulkhead.capacity = t.bulkhead.capacity := by
  cases m with
  | clock now => exact ⟨⟨h.allotted, h.counter, h.packed, h.apt⟩, rfl⟩
  | scope command => exact ⟨⟨h.allotted, h.counter, h.packed, h.apt⟩, rfl⟩
  | acquire id scope => exact ⟨sound_acquire h id scope, enter_capacity t.bulkhead⟩
  | look index => exact sound_onTask h index fun b _ => trades_look _ _ b
  | countIn index => exact sound_onTask h index fun b _ => trades_countIn b
  | countOut index => exact sound_onTask h index fun b _ => trades_countOut b
  | publish index => exact sound_onTask h index fun b _ => trades_publish b
  | handBack index => exact sound_onTask h index fun b _ => trades_handBack b
  | abort index => exact sound_onTask h index fun b _ => trades_abort b

theorem sound_through (h : t.Sound) (moves : List Move) :
    (t.through moves).Sound ∧ (t.through moves).bulkhead.capacity = t.bulkhead.capacity := by
  induction moves generalizing t with
  | nil => exact ⟨h, rfl⟩
  | cons m rest ih =>
    obtain ⟨hMoved, hCapacity⟩ := sound_move h m
    obtain ⟨hRest, hSame⟩ := ih hMoved
    exact ⟨hRest, hSame.trans hCapacity⟩

/-! ## When nothing happens any more -/

/-- Once every task is through, exactly those that have a slot are counted. -/
theorem inFlight_eq_held (h : t.Sound) (hThrough : ∀ x ∈ t.tasks, x.stage = none) :
    t.bulkhead.inFlight = t.held := by
  have hNobody : t.uncounted = 0 := by
    refine List.countP_eq_zero.mpr fun x hMem => ?_
    simp [Task.uncounted, hThrough x hMem]
  have hCounter := h.counter
  rwa [hNobody, Nat.add_zero] at hCounter

/-- No slot stays promised: the task that it is promised to takes it. -/
theorem reserved_eq_nil (h : t.Sound) (hSettled : t.Settled) : t.bulkhead.reserved = [] := by
  rw [List.eq_nil_iff_forall_not_mem]
  intro ticket hReserved
  have hTicket : ticket ∈ t.waitingTickets :=
    h.allotted.tickets.subset (List.mem_append_left _ hReserved)
  obtain ⟨x, hMem, hOwn⟩ := List.mem_flatMap.mp hTicket
  unfold Attempt.tickets at hOwn
  split at hOwn
  · next hWaits =>
    obtain rfl := List.mem_singleton.mp hOwn
    have hLook := (hSettled x hMem).2
    have hTake := take_eq_some_iff.mpr ⟨hReserved, rfl⟩
    simp only [Task.look, Attempt.waits_iff.mp hWaits, look_of_take hTake] at hLook
    have hStage := congrArg (fun after => after.1.stage) hLook
    rw [(hSettled x hMem).1] at hStage
    cases hStage
  · cases hOwn

/-- Nobody waits for a slot that is free. -/
theorem status_ne_waiting (h : t.Sound) (hSettled : t.Settled) (hFree : 0 < t.bulkhead.available) :
    ∀ x ∈ t.tasks, x.attempt.status ≠ .waiting := by
  have hLine : t.bulkhead.waiting = [] := by
    by_contra hSomebody
    have hNone : t.bulkhead.available = 0 := h.packed hSomebody
    omega
  have hTickets := h.allotted.tickets
  rw [reserved_eq_nil h hSettled, hLine] at hTickets
  intro x hMem hWaiting
  have hNone := List.flatMap_eq_nil_iff.mp hTickets.nil_eq.symm x hMem
  simp [Attempt.tickets, Attempt.waits, hWaiting] at hNone

end Threads

end Gatehouse.Bulkhead
