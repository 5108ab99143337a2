import Gatehouse.Bulkhead.Contention
import Gatehouse.Proofs.Bulkhead.Slots
import Gatehouse.Proofs.Clock
import Gatehouse.Proofs.Telemetry.Readings
import Mathlib.Data.List.Perm.Basic

/-!
# Contention for a bulkhead, one move at a time

A step of the contention settles: the waiting tasks are looked at until no wait ends any more. A
move concerns the clock, a scope, or one task only: it is looked at, it gives its slot back, it is
dropped while it waits. Made in any order, moves give every interleaving, also those in which a
task dies, or its time is up, between the moment at which a slot is promised to it and the moment
at which it would have taken it.

* `Contention.move`, `Reachable`: a single move, and what comes of moves in any order.
* `Sound`: the bulkhead is told of what all tasks hold and wait for; `sound_reachable`.
* `Settled`: nothing happens any more at this instant; `settled_perform`.
* `effect`: the inversion of a step; `Reachable.perform`: a whole step is a sequence of moves.
-/

namespace Gatehouse.Bulkhead

def Attempt.waits (a : Attempt) : Bool := a.status == .waiting

def Attempt.holds (a : Attempt) : Bool :=
  match a.status with
  | .held _ => true
  | _ => false

/-- The ticket of a task that waits, be a slot promised to it or not. -/
def Attempt.tickets (a : Attempt) : List Nat := if a.waits then [a.ticket] else []

def Attempt.slots (a : Attempt) : Nat := if a.holds then 1 else 0

theorem Attempt.waits_iff {a : Attempt} : a.waits = true ↔ a.status = .waiting := by
  simp [waits]

namespace Contention

/-- A single thing that happens around a bulkhead. Tasks are counted in the order in which they
came. -/
inductive Move where
  | clock (now : Nat)
  | scope (command : Scope.Command)
  | acquire (id : String) (scope : Option Scope)
  | visit (index : Nat)
  | release (index : Nat)
  | abort (index : Nat)

/-- Does something with one of the tasks; where there is none, nothing happens. -/
def onAttempt (c : Contention) (index : Nat)
    (f : Bulkhead → Attempt → Attempt × Bulkhead × Journal) : Contention :=
  match c.attempts[index]? with
  | none => c
  | some a =>
    let (a, b, journal) := f c.bulkhead a
    { c with bulkhead := b, attempts := c.attempts.set index a, journal := c.journal ++ journal }

/-- A task gives its slot back, if it has one. -/
def giveBack (b : Bulkhead) (a : Attempt) : Attempt × Bulkhead × Journal :=
  match a.status with
  | .held _ => ({ a with status := .released }, b.release)
  | _ => (a, b, [])

/-- A task is dropped, if it waits. -/
def giveUp (b : Bulkhead) (a : Attempt) : Attempt × Bulkhead × Journal :=
  match a.status with
  | .waiting => ({ a with status := .aborted }, b.withdraw a.ticket, [])
  | _ => (a, b, [])

def move (c : Contention) : Move → Contention
  | .clock now => { c with now := now }
  | .scope command => { c with directory := c.directory.perform c.now command }
  | .acquire id scope =>
    { c with
      bulkhead := c.bulkhead.enter.2
      attempts := c.attempts ++
        [⟨id, c.bulkhead.enter.1, c.now + c.bulkhead.enter.2.acquireTimeout, scope, .waiting⟩] }
  | .visit index => c.onAttempt index (visit c.directory.tokens c.now)
  | .release index => c.onAttempt index giveBack
  | .abort index => c.onAttempt index giveUp

/-- What contention can come to by moves in any order. -/
inductive Reachable (b : Bulkhead) : Contention → Prop where
  | start : Reachable b (.start b)
  | move {c : Contention} (h : Reachable b c) (m : Move) : Reachable b (c.move m)

def held (c : Contention) : Nat := c.attempts.countP Attempt.holds

def waitingTickets (c : Contention) : List Nat := c.attempts.flatMap Attempt.tickets

theorem waitingTickets_eq_nil {c : Contention} :
    c.waitingTickets = [] ↔ ∀ a ∈ c.attempts, a.status ≠ .waiting := by
  simp only [waitingTickets, List.flatMap_eq_nil_iff, Attempt.tickets, ite_eq_right_iff,
    List.cons_ne_self, imp_false, Attempt.waits_iff, ne_eq]

/-! ## One task and the bulkhead -/

/-- What one task may do with the bulkhead: it hands over what it holds or waits for, and tells of
a change in the slots in use. -/
structure Deals (b : Bulkhead) (a : Attempt) (after : Attempt × Bulkhead × Journal) : Prop where
  ticket : after.1.ticket = a.ticket
  issued : after.2.1.issued = b.issued
  capacity : after.2.1.capacity = b.capacity
  acquireTimeout : after.2.1.acquireTimeout = b.acquireTimeout
  balanced : ∀ {held : Nat} {tickets : List Nat},
    b.Balanced (held + a.slots) (a.tickets ++ tickets) →
      after.2.1.Balanced (held + after.1.slots) (after.1.tickets ++ tickets)
  packed : b.Packed → after.2.1.Packed
  line : after.2.1.waiting.Sublist b.waiting
  told : (after.2.2 = [] ∧ after.2.1.inFlight = b.inFlight) ∨
    after.2.2 = publish after.2.1.inFlight

variable {b : Bulkhead} {a : Attempt} {c : Contention}

theorem Deals.nothing (b : Bulkhead) (a : Attempt) : Deals b a (a, b, []) :=
  ⟨rfl, rfl, rfl, rfl, id, id, .refl _, .inl ⟨rfl, rfl⟩⟩

end Contention

theorem enter_fields (b : Bulkhead) :
    b.enter.1 = b.issued ∧ b.enter.2.issued = b.issued + 1 ∧ b.enter.2.inFlight = b.inFlight ∧
      b.enter.2.acquireTimeout = b.acquireTimeout := by
  unfold enter
  split <;> exact ⟨rfl, rfl, rfl, rfl⟩

/-- A new ticket goes to the end of the line. -/
theorem enter_line {b : Bulkhead} (h : b.waiting.Sublist (List.range b.issued)) :
    b.enter.2.waiting.Sublist (List.range b.enter.2.issued) := by
  rw [(enter_fields b).2.1, List.range_succ]
  unfold enter
  split
  · exact h.trans (List.sublist_append_left _ _)
  · exact h.append (.refl _)

theorem handBack_line (b : Bulkhead) : b.handBack.waiting.Sublist b.waiting := by
  unfold handBack
  split
  · exact .refl _
  · next ticket rest hWaiting =>
    rw [hWaiting]
    exact List.sublist_cons_self ticket rest

theorem withdraw_line (b : Bulkhead) (ticket : Nat) :
    (b.withdraw ticket).waiting.Sublist b.waiting := by
  unfold withdraw
  split
  · exact handBack_line _
  · exact List.erase_sublist

namespace Contention

variable {b : Bulkhead} {a : Attempt} {c : Contention}

theorem deals_giveBack (b : Bulkhead) (a : Attempt) : Deals b a (giveBack b a) := by
  unfold giveBack
  split
  · next since hHeld =>
    obtain ⟨-, hInFlight, hIssued, hTimeout⟩ := handBack_fields b.countOut.2
    refine ⟨rfl, hIssued, release_capacity b, hTimeout, fun h => ?_, packed_release,
      handBack_line _, .inr ?_⟩
    · have hSlots : a.slots = 1 := by simp [Attempt.slots, Attempt.holds, hHeld]
      have hTickets : a.tickets = [] := by simp [Attempt.tickets, Attempt.waits, hHeld]
      rw [hSlots, hTickets] at h
      exact balanced_release h
    · exact congrArg publish hInFlight.symm
  · exact .nothing b a

theorem deals_giveUp (b : Bulkhead) (a : Attempt) : Deals b a (giveUp b a) := by
  unfold giveUp
  split
  · next hWaiting =>
    obtain ⟨hInFlight, hIssued, hTimeout⟩ := withdraw_fields b a.ticket
    refine ⟨rfl, hIssued, withdraw_capacity b a.ticket, hTimeout, fun h => ?_,
      fun h => packed_withdraw h a.ticket, withdraw_line b a.ticket, .inl ⟨rfl, hInFlight⟩⟩
    have hSlots : a.slots = 0 := by simp [Attempt.slots, Attempt.holds, hWaiting]
    have hTickets : a.tickets = [a.ticket] := by simp [Attempt.tickets, Attempt.waits, hWaiting]
    rw [hSlots, hTickets] at h
    exact balanced_withdraw h
  · exact .nothing b a

theorem deals_visit (tokens : Tokens) (now : Nat) (b : Bulkhead) (a : Attempt) :
    Deals b a (visit tokens now b a) := by
  unfold visit
  split
  · next hWaiting =>
    have hSlots : a.slots = 0 := by simp [Attempt.slots, Attempt.holds, hWaiting]
    have hTickets : a.tickets = [a.ticket] := by simp [Attempt.tickets, Attempt.waits, hWaiting]
    cases hTake : b.take? a.ticket with
    | some taken =>
      simp only [poll_of_take hTake]
      obtain ⟨-, rfl⟩ := take_eq_some_iff.mp hTake
      refine ⟨rfl, rfl, rfl, rfl, fun h => ?_, fun h => (packed_take h hTake :), .refl _, .inr rfl⟩
      rw [hSlots, hTickets] at h
      exact balanced_take h hTake
    | none =>
      simp only [poll_of_take_none hTake]
      have hLeaves : ∀ reason, Deals b a
          ({ a with status := .refused reason now }, b.withdraw a.ticket, []) := by
        intro reason
        obtain ⟨hInFlight, hIssued, hTimeout⟩ := withdraw_fields b a.ticket
        refine ⟨rfl, hIssued, withdraw_capacity b a.ticket, hTimeout, fun h => ?_,
          fun h => packed_withdraw h a.ticket, withdraw_line b a.ticket, .inl ⟨rfl, hInFlight⟩⟩
        rw [hSlots, hTickets] at h
        exact balanced_withdraw h
      by_cases hLate : a.deadline ≤ now
      · simp only [hLate, if_true]
        exact hLeaves _
      · simp only [hLate, if_false]
        cases a.scope.bind fun s => s.cancelled? tokens now with
        | some cause => exact hLeaves _
        | none => exact .nothing b a
  · exact .nothing b a

/-! ## All tasks and the bulkhead -/

/-- The bulkhead is told of what all tasks hold and wait for, tasks have their tickets in the order
in which they came and stand in line in this order, and the gauge shows the slots in use as soon as
it shows anything. -/
structure Sound (c : Contention) : Prop where
  balanced : c.bulkhead.Balanced c.held c.waitingTickets
  packed : c.bulkhead.Packed
  numbered : c.attempts.map Attempt.ticket = List.range c.bulkhead.issued
  inTurn : c.bulkhead.waiting.Sublist (List.range c.bulkhead.issued)
  shown : ∀ reading, c.journal.slotGauge = some reading → reading = .gauge c.bulkhead.inFlight

theorem length_attempts (h : c.Sound) : c.attempts.length = c.bulkhead.issued := by
  simpa using congrArg List.length h.numbered

/-- Tasks are numbered by their tickets. -/
theorem ticket_eq (h : c.Sound) {index : Nat} (hAttempt : c.attempts[index]? = some a) :
    a.ticket = index := by
  have hTicket : (c.attempts.map Attempt.ticket)[index]? = some a.ticket := by simp [hAttempt]
  rw [h.numbered, List.getElem?_eq_some_iff] at hTicket
  obtain ⟨hIndex, hTicket⟩ := hTicket
  rw [← hTicket, List.getElem_range]

theorem waitingTickets_sublist (h : c.Sound) :
    c.waitingTickets.Sublist (List.range c.bulkhead.issued) := by
  rw [← h.numbered, waitingTickets]
  induction c.attempts with
  | nil => exact .slnil
  | cons a rest ih =>
    rw [List.flatMap_cons, List.map_cons]
    unfold Attempt.tickets
    split
    · exact ih.cons_cons _
    · exact ih.cons _

theorem nodup_waitingTickets (h : c.Sound) : c.waitingTickets.Nodup :=
  (waitingTickets_sublist h).nodup List.nodup_range

theorem create_cases {capacity acquireTimeout : Nat}
    (hCreate : create? capacity acquireTimeout = some b) :
    b = ⟨capacity, acquireTimeout, capacity, 0, [], [], 0⟩ := by
  unfold create? at hCreate
  split at hCreate
  · cases hCreate
    rfl
  · cases hCreate

theorem sound_start {capacity acquireTimeout : Nat}
    (hCreate : create? capacity acquireTimeout = some b) : (start b).Sound := by
  obtain rfl := create_cases hCreate
  exact ⟨⟨⟨Nat.zero_add _, .nil⟩, rfl⟩, fun hLine => absurd rfl hLine, rfl, .slnil, nofun⟩

theorem onAttempt_eq {index : Nat} (hAttempt : c.attempts[index]? = some a)
    (f : Bulkhead → Attempt → Attempt × Bulkhead × Journal) :
    c.onAttempt index f =
      { c with
        bulkhead := (f c.bulkhead a).2.1
        attempts := c.attempts.set index (f c.bulkhead a).1
        journal := c.journal ++ (f c.bulkhead a).2.2 } := by
  simp only [onAttempt, hAttempt]

theorem onAttempt_of_none {index : Nat} (hAttempt : c.attempts[index]? = none)
    (f : Bulkhead → Attempt → Attempt × Bulkhead × Journal) : c.onAttempt index f = c := by
  simp only [onAttempt, hAttempt]

/-- What one task may do keeps the books of all. -/
theorem sound_onAttempt (h : c.Sound) (index : Nat)
    {f : Bulkhead → Attempt → Attempt × Bulkhead × Journal}
    (hf : ∀ b a, Deals b a (f b a)) : (c.onAttempt index f).Sound := by
  cases hAttempt : c.attempts[index]? with
  | none =>
    rw [onAttempt_of_none hAttempt]
    exact h
  | some a =>
    rw [onAttempt_eq hAttempt]
    obtain ⟨hIndex, hGet⟩ := List.getElem?_eq_some_iff.mp hAttempt
    have hDeals := hf c.bulkhead a
    have hBefore : (a :: c.attempts.eraseIdx index).Perm c.attempts :=
      hGet ▸ List.getElem_cons_eraseIdx_perm hIndex
    have hAfter : (c.attempts.set index (f c.bulkhead a).1).Perm
        ((f c.bulkhead a).1 :: c.attempts.eraseIdx index) := List.set_perm_cons_eraseIdx hIndex _
    refine ⟨?_, hDeals.packed h.packed, ?_, hDeals.issued ▸ hDeals.line.trans h.inTurn, ?_⟩
    · have hBalanced := h.balanced
      unfold held waitingTickets at hBalanced ⊢
      rw [← hBefore.countP_eq, List.countP_cons] at hBalanced
      rw [hAfter.countP_eq, List.countP_cons]
      exact (hDeals.balanced (hBalanced.congr (hBefore.flatMap_right _).symm)).congr
        (hAfter.flatMap_right _).symm
    · have hMapped : index < (c.attempts.map Attempt.ticket).length := by simpa using hIndex
      have hTicket : (c.attempts.map Attempt.ticket)[index] = a.ticket := by
        rw [List.getElem_map, hGet]
      have hSame : (c.attempts.map Attempt.ticket).set index a.ticket =
          c.attempts.map Attempt.ticket := by
        rw [← hTicket, List.set_getElem_self]
      rw [List.map_set, hDeals.ticket, hSame, hDeals.issued]
      exact h.numbered
    · intro reading hShown
      rcases hDeals.told with ⟨hNothing, hInFlight⟩ | hGauge
      · rw [hNothing, List.append_nil] at hShown
        rw [hInFlight]
        exact h.shown reading hShown
      · rw [hGauge, publish, Journal.slotGauge_append_measure] at hShown
        cases hShown
        rfl

theorem sound_acquire (h : c.Sound) (id : String) (scope : Option Scope) :
    (c.move (.acquire id scope)).Sound := by
  obtain ⟨hTicket, hNext, hInFlight, -⟩ := enter_fields c.bulkhead
  refine ⟨?_, packed_enter h.packed, ?_, enter_line h.inTurn, ?_⟩
  · have hHeld : (c.move (.acquire id scope)).held = c.held := by
      simp [move, held, Attempt.holds]
    have hTickets : (c.move (.acquire id scope)).waitingTickets =
        c.waitingTickets ++ [c.bulkhead.enter.1] := by
      simp [move, waitingTickets, Attempt.tickets, Attempt.waits]
    rw [hHeld, hTickets]
    exact (balanced_enter h.balanced).congr (List.perm_append_singleton _ _).symm
  · simp only [move, List.map_append, List.map_cons, List.map_nil, h.numbered, hTicket, hNext,
      List.range_succ]
  · intro reading hShown
    simp only [move, hInFlight]
    exact h.shown reading hShown

/-- The step lemma: every move keeps the books. -/
theorem sound_move (h : c.Sound) (m : Move) : (c.move m).Sound := by
  cases m with
  | clock now => exact ⟨h.balanced, h.packed, h.numbered, h.inTurn, h.shown⟩
  | scope command => exact ⟨h.balanced, h.packed, h.numbered, h.inTurn, h.shown⟩
  | acquire id scope => exact sound_acquire h id scope
  | visit index => exact sound_onAttempt h index (deals_visit _ _)
  | release index => exact sound_onAttempt h index deals_giveBack
  | abort index => exact sound_onAttempt h index deals_giveUp

theorem settings_onAttempt (index : Nat) {f : Bulkhead → Attempt → Attempt × Bulkhead × Journal}
    (hf : ∀ b a, Deals b a (f b a)) :
    (c.onAttempt index f).bulkhead.capacity = c.bulkhead.capacity ∧
      (c.onAttempt index f).bulkhead.acquireTimeout = c.bulkhead.acquireTimeout := by
  cases hAttempt : c.attempts[index]? with
  | none =>
    rw [onAttempt_of_none hAttempt]
    exact ⟨rfl, rfl⟩
  | some a =>
    rw [onAttempt_eq hAttempt]
    exact ⟨(hf c.bulkhead a).capacity, (hf c.bulkhead a).acquireTimeout⟩

/-- No move changes the capacity or the acquire timeout. -/
theorem settings_move (c : Contention) (m : Move) :
    (c.move m).bulkhead.capacity = c.bulkhead.capacity ∧
      (c.move m).bulkhead.acquireTimeout = c.bulkhead.acquireTimeout := by
  cases m with
  | clock now => exact ⟨rfl, rfl⟩
  | scope command => exact ⟨rfl, rfl⟩
  | acquire id scope => exact ⟨enter_capacity c.bulkhead, (enter_fields c.bulkhead).2.2.2⟩
  | visit index => exact settings_onAttempt index (deals_visit _ _)
  | release index => exact settings_onAttempt index deals_giveBack
  | abort index => exact settings_onAttempt index deals_giveUp

theorem settings_reachable {begun : Bulkhead} (h : Reachable begun c) :
    c.bulkhead.capacity = begun.capacity ∧
      c.bulkhead.acquireTimeout = begun.acquireTimeout := by
  induction h with
  | start => exact ⟨rfl, rfl⟩
  | @move c _ m ih =>
    obtain ⟨hCapacity, hTimeout⟩ := settings_move c m
    exact ⟨hCapacity.trans ih.1, hTimeout.trans ih.2⟩

theorem sound_reachable {start : Bulkhead} (hStart : (Contention.start start).Sound)
    (h : Reachable start c) : c.Sound := by
  induction h with
  | start => exact hStart
  | move _ m ih => exact sound_move ih m

/-! ## Settling -/

/-- Nothing happens any more at this instant, whichever task is looked at. -/
def Settled (c : Contention) : Prop :=
  ∀ a ∈ c.attempts, visit c.directory.tokens c.now c.bulkhead a = (a, c.bulkhead, [])

/-- A look at a task changes nothing, or it ends a wait. -/
theorem visit_cases (tokens : Tokens) (now : Nat) (b : Bulkhead) (a : Attempt) :
    visit tokens now b a = (a, b, []) ∨
      a.waits = true ∧ (visit tokens now b a).1.waits = false := by
  unfold visit
  split
  · next hWaiting =>
    have hWaits : a.waits = true := Attempt.waits_iff.mpr hWaiting
    cases hTake : b.take? a.ticket with
    | some taken =>
      simp only [poll_of_take hTake]
      exact .inr ⟨hWaits, rfl⟩
    | none =>
      simp only [poll_of_take_none hTake]
      by_cases hLate : a.deadline ≤ now
      · simp only [hLate, if_true]
        exact .inr ⟨hWaits, rfl⟩
      · simp only [hLate, if_false]
        cases a.scope.bind fun s => s.cancelled? tokens now with
        | some cause => exact .inr ⟨hWaits, rfl⟩
        | none => exact .inl rfl
  · exact .inl rfl

theorem settled_of_waitingTickets (h : c.waitingTickets = []) : c.Settled := by
  intro a hMem
  rcases visit_cases c.directory.tokens c.now c.bulkhead a with hSame | ⟨hWaits, -⟩
  · exact hSame
  · exact absurd (Attempt.waits_iff.mp hWaits) (waitingTickets_eq_nil.mp h a hMem)

theorem waitingCount_cons (a : Attempt) (rest : List Attempt) :
    waitingCount (a :: rest) = (if a.waits then 1 else 0) + waitingCount rest := by
  cases hWaits : a.waits
  · simp only [Attempt.waits] at hWaits
    simp [waitingCount, hWaits]
  · simp only [Attempt.waits] at hWaits
    simp [waitingCount, hWaits, Nat.add_comm]

theorem visitAll_cons (tokens : Tokens) (now : Nat) (b : Bulkhead) (a : Attempt)
    (rest : List Attempt) :
    visitAll tokens now b (a :: rest) =
      ((visit tokens now b a).1 :: (visitAll tokens now (visit tokens now b a).2.1 rest).1,
        (visitAll tokens now (visit tokens now b a).2.1 rest).2.1,
        (visit tokens now b a).2.2 ++
          (visitAll tokens now (visit tokens now b a).2.1 rest).2.2) := rfl

theorem waitingCount_visitAll_le (tokens : Tokens) (now : Nat) (b : Bulkhead)
    (attempts : List Attempt) :
    waitingCount (visitAll tokens now b attempts).1 ≤ waitingCount attempts := by
  induction attempts generalizing b with
  | nil => exact Nat.le_refl _
  | cons a rest ih =>
    have hRest := ih (visit tokens now b a).2.1
    rw [visitAll_cons, waitingCount_cons, waitingCount_cons]
    rcases visit_cases tokens now b a with hSame | ⟨-, hLeft⟩
    · rw [hSame] at hRest ⊢
      exact Nat.add_le_add_left hRest _
    · simp only [hLeft, Bool.false_eq_true, if_false]
      omega

/-- Where no wait ends, nothing has changed. -/
theorem visitAll_of_count {tokens : Tokens} {now : Nat} {b : Bulkhead} {attempts : List Attempt}
    (h : ¬ waitingCount (visitAll tokens now b attempts).1 < waitingCount attempts) :
    visitAll tokens now b attempts = (attempts, b, []) ∧
      ∀ a ∈ attempts, visit tokens now b a = (a, b, []) := by
  induction attempts with
  | nil => exact ⟨rfl, nofun⟩
  | cons a rest ih =>
    have hLess := waitingCount_visitAll_le tokens now (visit tokens now b a).2.1 rest
    rw [visitAll_cons, waitingCount_cons, waitingCount_cons] at h
    rcases visit_cases tokens now b a with hSame | ⟨hWaits, hLeft⟩
    · rw [hSame] at h
      dsimp only at h
      obtain ⟨hAll, hEach⟩ := ih (by omega)
      refine ⟨by simp only [visitAll_cons, hSame, hAll, List.append_nil], ?_⟩
      simp only [List.forall_mem_cons]
      exact ⟨hSame, hEach⟩
    · simp only [hLeft, hWaits, Bool.false_eq_true, if_false, if_true] at h
      omega

theorem settled_settle (c : Contention) : c.settle.Settled := by
  induction c using settle.induct with
  | case1 c attempts b journal hVisit c' hLess ih =>
    rw [settle]
    simp only [hVisit, hLess, if_true]
    exact ih
  | case2 c attempts b journal hVisit hLess =>
    rw [settle]
    simp only [hVisit, hLess, if_false]
    have hCount : ¬ waitingCount (visitAll c.directory.tokens c.now c.bulkhead c.attempts).1 <
        waitingCount c.attempts := by
      rw [hVisit]
      exact hLess
    obtain ⟨hAll, hEach⟩ := visitAll_of_count hCount
    rw [hVisit] at hAll
    cases hAll
    exact hEach

theorem settled_runUntil (c : Contention) (now target : Nat) :
    (Clock.runUntil due fire now target c).Settled := by
  obtain ⟨c', hLast⟩ := Clock.runUntil_ends due fire now target c
  rw [hLast]
  exact settled_settle _

/-- Everything that follows from a step has happened when the step is done. -/
theorem settled_perform (c : Contention) (step : Step) : (c.perform step).Settled := by
  cases step with
  | scope command => exact settled_settle _
  | acquire id scope => exact settled_settle _
  | release id =>
    simp only [perform]
    split
    · split <;> exact settled_settle _
    · exact settled_settle _
  | abort id =>
    simp only [perform]
    split
    · split <;> exact settled_settle _
    · exact settled_settle _
  | advance d => exact settled_runUntil c c.now (c.now + d)

/-- No slot stays promised: the task that it is promised to takes it. -/
theorem reserved_eq_nil (h : c.Sound) (hSettled : c.Settled) : c.bulkhead.reserved = [] := by
  rw [List.eq_nil_iff_forall_not_mem]
  intro ticket hReserved
  have hTicket : ticket ∈ c.waitingTickets :=
    h.balanced.tickets.subset (List.mem_append_left _ hReserved)
  obtain ⟨a, hMem, hOwn⟩ := List.mem_flatMap.mp hTicket
  unfold Attempt.tickets at hOwn
  split at hOwn
  · next hWaits =>
    obtain rfl := List.mem_singleton.mp hOwn
    have hVisit := hSettled a hMem
    have hTake := take_eq_some_iff.mpr ⟨hReserved, rfl⟩
    simp only [visit, Attempt.waits_iff.mp hWaits, poll_of_take hTake] at hVisit
    have hStatus := congrArg (fun after => after.1.status) hVisit
    rw [Attempt.waits_iff.mp hWaits] at hStatus
    cases hStatus
  · cases hOwn

/-- Nobody waits for a slot that is free, once everything has happened. -/
theorem status_ne_waiting (h : c.Sound) (hSettled : c.Settled) (hFree : 0 < c.bulkhead.available) :
    ∀ a ∈ c.attempts, a.status ≠ .waiting := by
  have hLine : c.bulkhead.waiting = [] := by
    by_contra hSomebody
    have hNone : c.bulkhead.available = 0 := h.packed hSomebody
    omega
  have hTickets := h.balanced.tickets
  rw [reserved_eq_nil h hSettled, hLine] at hTickets
  exact waitingTickets_eq_nil.mp hTickets.nil_eq.symm

/-! ## Whole steps -/

/-- A mark on the ticket of a task concerns this task alone. -/
theorem mark_eq_set (h : c.Sound) {index : Nat} (hAttempt : c.attempts[index]? = some a)
    (status : Status) :
    (c.attempts.map fun a' => if a'.ticket = a.ticket then { a' with status := status } else a') =
      c.attempts.set index { a with status := status } := by
  refine List.ext_getElem? fun i => ?_
  rw [List.getElem?_map, List.getElem?_set]
  by_cases hSame : index = i
  · subst hSame
    obtain ⟨hIndex, rfl⟩ := List.getElem?_eq_some_iff.mp hAttempt
    simp [hIndex]
  · cases hOther : c.attempts[i]? with
    | none => simp [hSame]
    | some a' =>
      have hTickets : a'.ticket ≠ a.ticket := by
        rw [ticket_eq h hOther, ticket_eq h hAttempt]
        exact fun hEq => hSame hEq.symm
      simp [hSame, hTickets]

theorem getElem?_of_find? {id : String} (h : c.find? id = some a) :
    ∃ index : Nat, c.attempts[index]? = some a :=
  List.mem_iff_getElem?.mp (List.mem_reverse.mp (List.mem_of_find?_eq_some h))

namespace Reachable

variable {begun : Bulkhead}

theorem visitAll (before : List Attempt) {rest : List Attempt}
    (h : Reachable begun { c with attempts := before ++ rest }) :
    Reachable begun
      { c with
        bulkhead := (Contention.visitAll c.directory.tokens c.now c.bulkhead rest).2.1
        attempts :=
          before ++ (Contention.visitAll c.directory.tokens c.now c.bulkhead rest).1
        journal :=
          c.journal ++ (Contention.visitAll c.directory.tokens c.now c.bulkhead rest).2.2 } := by
  induction rest generalizing c before with
  | nil => simpa only [Contention.visitAll, List.append_nil] using h
  | cons a rest ih =>
    have hHere : (before ++ a :: rest)[before.length]? = some a := by simp
    have hVisit := h.move (.visit before.length)
    simp only [Contention.move, onAttempt, hHere, List.set_append_right _ _ (Nat.le_refl _),
      Nat.sub_self, List.set_cons_zero] at hVisit
    rw [List.append_cons] at hVisit
    have hRest := ih
      (c := { c with
        bulkhead := (visit c.directory.tokens c.now c.bulkhead a).2.1
        journal := c.journal ++ (visit c.directory.tokens c.now c.bulkhead a).2.2 })
      (before ++ [(visit c.directory.tokens c.now c.bulkhead a).1]) hVisit
    simp only [List.append_assoc, List.singleton_append] at hRest
    exact hRest

theorem settle (h : Reachable begun c) : Reachable begun c.settle := by
  induction c using Contention.settle.induct with
  | case1 c attempts b journal hVisit c' hLess ih =>
    have hVisited : Reachable begun c' := by
      have hAll := visitAll [] h
      simpa [hVisit] using hAll
    rw [Contention.settle]
    simp only [hVisit, hLess, if_true]
    exact ih hVisited
  | case2 c attempts b journal hVisit hLess =>
    rw [Contention.settle]
    simp only [hVisit, hLess, if_false]
    have hAll := visitAll [] h
    simpa [hVisit] using hAll

theorem runUntil (h : Reachable begun c) (now target : Nat) :
    Reachable begun (Clock.runUntil Contention.due Contention.fire now target c) :=
  Clock.runUntil_keeps (fun now _ h => (h.move (.clock now)).settle) h now target

end Reachable

/-- A step that gives back the slot of a task is a move of this task. -/
theorem perform_release (h : c.Sound) {id : String} {index since : Nat}
    (hFind : c.find? id = some a) (hHeld : a.status = .held since)
    (hAttempt : c.attempts[index]? = some a) :
    c.perform (.release id) = (c.move (.release index)).settle := by
  simp only [perform, hFind, hHeld, move, onAttempt_eq hAttempt, giveBack, mark,
    mark_eq_set h hAttempt]

theorem perform_abort (h : c.Sound) {id : String} {index : Nat}
    (hFind : c.find? id = some a) (hWaiting : a.status = .waiting)
    (hAttempt : c.attempts[index]? = some a) :
    c.perform (.abort id) = (c.move (.abort index)).settle := by
  simp only [perform, hFind, hWaiting, move, onAttempt_eq hAttempt, giveUp, mark,
    mark_eq_set h hAttempt, List.append_nil]

/-- What a step comes to before everything that follows from it: a move of one task, of a scope or
of the clock, or nothing where the task that is named has no slot or does not wait. -/
inductive Effect (c : Contention) : Step → Contention → Prop where
  | scope (command : Scope.Command) : Effect c (.scope command) (c.move (.scope command)).settle
  | acquire (id : String) (name : Option String) :
    Effect c (.acquire id name) (c.move (.acquire id (name.bind c.directory.find?))).settle
  | release {id : String} {a : Attempt} {index : Nat} (hFind : c.find? id = some a)
    (hAttempt : c.attempts[index]? = some a) (hHolds : a.holds = true) :
    Effect c (.release id) (c.move (.release index)).settle
  | keep {id : String} (hNone : (c.find? id).any Attempt.holds = false) :
    Effect c (.release id) c.settle
  | abort {id : String} {a : Attempt} {index : Nat} (hFind : c.find? id = some a)
    (hAttempt : c.attempts[index]? = some a) (hWaits : a.waits = true) :
    Effect c (.abort id) (c.move (.abort index)).settle
  | spare {id : String} (hNone : (c.find? id).any Attempt.waits = false) :
    Effect c (.abort id) c.settle
  | advance (d : Nat) : Effect c (.advance d) (Clock.runUntil due fire c.now (c.now + d) c)

/-- The inversion of a step. -/
theorem effect (h : c.Sound) (step : Step) : c.Effect step (c.perform step) := by
  cases step with
  | scope command => exact .scope command
  | acquire id name => exact .acquire id name
  | release id =>
    cases hFind : c.find? id with
    | none =>
      simp only [perform, hFind]
      exact .keep (by simp [hFind])
    | some a =>
      obtain ⟨index, hAttempt⟩ := getElem?_of_find? hFind
      cases hStatus : a.status with
      | held since =>
        rw [perform_release h hFind hStatus hAttempt]
        exact .release hFind hAttempt (by simp [Attempt.holds, hStatus])
      | waiting | released | aborted | refused =>
        simp only [perform, hFind, hStatus]
        exact .keep (by simp [hFind, Attempt.holds, hStatus])
  | abort id =>
    cases hFind : c.find? id with
    | none =>
      simp only [perform, hFind]
      exact .spare (by simp [hFind])
    | some a =>
      obtain ⟨index, hAttempt⟩ := getElem?_of_find? hFind
      cases hStatus : a.status with
      | waiting =>
        rw [perform_abort h hFind hStatus hAttempt]
        exact .abort hFind hAttempt (by simp [Attempt.waits, hStatus])
      | held | released | aborted | refused =>
        simp only [perform, hFind, hStatus]
        exact .spare (by simp [hFind, Attempt.waits, hStatus])
  | advance d => exact .advance d

/-- A whole step, with everything that follows from it, is a sequence of moves. -/
theorem Reachable.perform {begun : Bulkhead} (hBegun : (Contention.start begun).Sound)
    (h : Reachable begun c) (step : Step) : Reachable begun (c.perform step) := by
  have hEffect := effect (sound_reachable hBegun h) step
  generalize c.perform step = c' at hEffect ⊢
  cases hEffect with
  | scope command => exact (h.move (.scope command)).settle
  | acquire id name => exact (h.move (.acquire id (name.bind c.directory.find?))).settle
  | @release id a index => exact (h.move (.release index)).settle
  | @abort id a index => exact (h.move (.abort index)).settle
  | keep | spare => exact h.settle
  | advance d => exact h.runUntil c.now (c.now + d)

end Contention

end Gatehouse.Bulkhead
