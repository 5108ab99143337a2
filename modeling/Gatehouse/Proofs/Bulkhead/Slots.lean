import Gatehouse.Bulkhead.Basic

/-!
# The slots and tickets of a bulkhead

A bulkhead is told of its callers one operation at a time. Each of its slots is held by a caller,
promised to one that waits, or free, and its two lists are the tickets of those that wait
(`Allotted`). Its count of the calls in flight is kept apart from that; where it is the number of
the callers that hold a slot, the books are balanced (`Balanced`). Every operation keeps that,
whoever else waits.

* `allotted_enter`, `allotted_take`, `allotted_handBack`, `allotted_withdraw`: the life of a slot.
* `balanced_poll`, `balanced_release`: the same with the count, of what nobody comes between.
* `Packed`: nobody stands in line while a slot is free.
-/

namespace Gatehouse.Bulkhead

/-- The slots of a bulkhead of which some callers hold `held`, while `tickets` wait for one. -/
structure Allotted (b : Bulkhead) (held : Nat) (tickets : List Nat) : Prop where
  slots : held + b.reserved.length + b.available = b.capacity
  tickets : (b.reserved ++ b.waiting).Perm tickets

/-- The bulkhead of some callers: `held` of them hold a slot, and `tickets` wait for one. -/
structure Balanced (b : Bulkhead) (held : Nat) (tickets : List Nat) : Prop
    extends Allotted b held tickets where
  inFlight : b.inFlight = held

variable {b b' : Bulkhead} {held ticket : Nat} {tickets : List Nat}

theorem Allotted.congr {tickets' : List Nat} (h : b.Allotted held tickets)
    (hPerm : tickets.Perm tickets') : b.Allotted held tickets' :=
  ⟨h.slots, h.tickets.trans hPerm⟩

theorem Balanced.congr {tickets' : List Nat} (h : b.Balanced held tickets)
    (hPerm : tickets.Perm tickets') : b.Balanced held tickets' :=
  ⟨h.toAllotted.congr hPerm, h.inFlight⟩

/-- Once nobody holds a slot or waits, all of them are free. -/
theorem Balanced.available_eq (h : b.Balanced 0 []) : b.available = b.capacity := by
  have hReserved : b.reserved = [] := (List.append_eq_nil_iff.mp h.tickets.eq_nil).1
  simpa [hReserved] using h.slots

/-! ## A ticket is taken -/

theorem enter_of_available (h : 0 < b.available) :
    b.enter = (b.issued, { b with
      issued := b.issued + 1
      available := b.available - 1
      reserved := b.reserved ++ [b.issued] }) := by
  simp [enter, h]

theorem enter_of_full (h : b.available = 0) :
    b.enter = (b.issued, { b with
      issued := b.issued + 1
      waiting := b.waiting ++ [b.issued] }) := by
  simp [enter, h]

theorem enter_capacity (b : Bulkhead) : b.enter.2.capacity = b.capacity := by
  unfold enter
  split <;> rfl

theorem allotted_enter (h : b.Allotted held tickets) :
    b.enter.2.Allotted held (b.enter.1 :: tickets) := by
  have hSlots := h.slots
  have hTickets := h.tickets
  rcases Nat.eq_zero_or_pos b.available with hFull | hFree
  · rw [enter_of_full hFull]
    refine ⟨hSlots, ?_⟩
    rw [← List.append_assoc]
    exact List.perm_append_comm.trans (hTickets.cons _)
  · rw [enter_of_available hFree]
    refine ⟨?_, ?_⟩
    · simp only [List.length_append, List.length_singleton]
      omega
    · simp only [List.append_assoc, List.singleton_append]
      exact List.perm_middle.trans (hTickets.cons _)

theorem balanced_enter (h : b.Balanced held tickets) :
    b.enter.2.Balanced held (b.enter.1 :: tickets) := by
  refine ⟨allotted_enter h.toAllotted, ?_⟩
  unfold enter
  split <;> exact h.inFlight

/-! ## A slot is given back -/

theorem handBack_of_nobody (h : b.waiting = []) :
    b.handBack = { b with available := b.available + 1 } := by
  simp [handBack, h]

theorem handBack_of_line {first : Nat} {rest : List Nat} (h : b.waiting = first :: rest) :
    b.handBack = { b with waiting := rest, reserved := b.reserved ++ [first] } := by
  simp [handBack, h]

theorem handBack_fields (b : Bulkhead) :
    b.handBack.capacity = b.capacity ∧ b.handBack.inFlight = b.inFlight ∧
      b.handBack.issued = b.issued ∧ b.handBack.acquireTimeout = b.acquireTimeout := by
  unfold handBack
  split <;> exact ⟨rfl, rfl, rfl, rfl⟩

theorem allotted_handBack (h : b.Allotted (held + 1) tickets) :
    b.handBack.Allotted held tickets := by
  have hSlots := h.slots
  have hTickets := h.tickets
  cases hWaiting : b.waiting with
  | nil =>
    rw [handBack_of_nobody hWaiting]
    exact ⟨by simp only; omega, hTickets⟩
  | cons first rest =>
    rw [hWaiting] at hTickets
    rw [handBack_of_line hWaiting]
    refine ⟨?_, ?_⟩
    · simp only [List.length_append, List.length_singleton]
      omega
    · simpa only [List.append_assoc, List.singleton_append] using hTickets

theorem release_capacity (b : Bulkhead) : b.release.1.capacity = b.capacity :=
  (handBack_fields _).1

theorem balanced_release (h : b.Balanced (held + 1) tickets) :
    b.release.1.Balanced held tickets := by
  have hLowered : Allotted b.countOut.2 (held + 1) tickets := ⟨h.slots, h.tickets⟩
  refine ⟨allotted_handBack hLowered, ?_⟩
  rw [release, (handBack_fields _).2.1, countOut, h.inFlight]
  rfl

/-! ## A ticket comes to its end -/

theorem take_eq_some_iff :
    b.take? ticket = some b' ↔
      ticket ∈ b.reserved ∧ b' = { b with reserved := b.reserved.erase ticket } := by
  simp [take?, eq_comm]

theorem take_eq_none_iff : b.take? ticket = none ↔ ticket ∉ b.reserved := by
  simp [take?]

theorem allotted_take (h : b.Allotted held (ticket :: tickets)) (hTake : b.take? ticket = some b') :
    b'.Allotted (held + 1) tickets := by
  obtain ⟨hMem, rfl⟩ := take_eq_some_iff.mp hTake
  have hSlots := h.slots
  have hErased := h.tickets.erase ticket
  rw [List.erase_cons_head, List.erase_append_left _ hMem] at hErased
  have hLength := List.length_erase_of_mem hMem
  have hPos := List.length_pos_of_mem hMem
  exact ⟨by simp only [hLength]; omega, hErased⟩

theorem withdraw_capacity (b : Bulkhead) (ticket : Nat) :
    (b.withdraw ticket).capacity = b.capacity := by
  unfold withdraw
  split
  · rw [(handBack_fields _).1]
  · rfl

/-- Who gives up a slot that was promised takes it and gives it back. -/
theorem withdraw_of_take (h : b.take? ticket = some b') : b.withdraw ticket = b'.handBack := by
  obtain ⟨hMem, rfl⟩ := take_eq_some_iff.mp h
  simp [withdraw, hMem]

theorem allotted_withdraw (h : b.Allotted held (ticket :: tickets)) :
    (b.withdraw ticket).Allotted held tickets := by
  cases hTake : b.take? ticket with
  | some b' =>
    rw [withdraw_of_take hTake]
    exact allotted_handBack (allotted_take h hTake)
  | none =>
    have hNot := take_eq_none_iff.mp hTake
    have hErased := h.tickets.erase ticket
    rw [List.erase_cons_head, List.erase_append_right _ hNot] at hErased
    have hSame : b.withdraw ticket = { b with waiting := b.waiting.erase ticket } := by
      simp [withdraw, hNot]
    rw [hSame]
    exact ⟨h.slots, hErased⟩

theorem withdraw_fields (b : Bulkhead) (ticket : Nat) :
    (b.withdraw ticket).inFlight = b.inFlight ∧ (b.withdraw ticket).issued = b.issued ∧
      (b.withdraw ticket).acquireTimeout = b.acquireTimeout := by
  unfold withdraw
  split
  · exact (handBack_fields _).2
  · exact ⟨rfl, rfl, rfl⟩

theorem balanced_withdraw (h : b.Balanced held (ticket :: tickets)) :
    (b.withdraw ticket).Balanced held tickets :=
  ⟨allotted_withdraw h.toAllotted, (withdraw_fields b ticket).1.trans h.inFlight⟩

theorem look_of_take (h : b.take? ticket = some b') (deadline now : Nat) (cause : Option Cause) :
    b.look ticket deadline now cause = (.holds, b') := by
  simp [look, h]

theorem look_of_take_none (h : b.take? ticket = none) (deadline now : Nat) (cause : Option Cause) :
    b.look ticket deadline now cause =
      if deadline ≤ now then (.refused (.full b.capacity), b.withdraw ticket)
      else match cause with
        | some cause => (.refused (.ended cause), b.withdraw ticket)
        | none => (.waits, b) := by
  cases cause <;> simp [look, h]

theorem poll_of_take (h : b.take? ticket = some b') (deadline now : Nat) (cause : Option Cause) :
    b.poll ticket deadline now cause = (.holds, b'.countIn.2, publish b'.countIn.1) := by
  simp [poll, look_of_take h]

/-- A look at a ticket without a slot tells nothing of the count. -/
theorem poll_of_take_none (h : b.take? ticket = none) (deadline now : Nat) (cause : Option Cause) :
    b.poll ticket deadline now cause =
      if deadline ≤ now then (.refused (.full b.capacity), b.withdraw ticket, [])
      else match cause with
        | some cause => (.refused (.ended cause), b.withdraw ticket, [])
        | none => (.waits, b, []) := by
  rw [poll, look_of_take_none h]
  by_cases hLate : deadline ≤ now
  · simp [hLate]
  · cases cause <;> simp [hLate]

/-- What is left of a ticket once its holder has looked at it: it still waits, it has become a
slot, or it is gone. -/
def Progress.Settles (p : Progress) (b : Bulkhead) (held ticket : Nat) (tickets : List Nat) :
    Prop :=
  match p with
  | .waits => b.Balanced held (ticket :: tickets)
  | .holds => b.Balanced (held + 1) tickets
  | .refused _ => b.Balanced held tickets

theorem balanced_take (h : b.Balanced held (ticket :: tickets)) (hTake : b.take? ticket = some b') :
    b'.countIn.2.Balanced (held + 1) tickets := by
  obtain ⟨hSlots, hTickets⟩ := allotted_take h.toAllotted hTake
  refine ⟨⟨hSlots, hTickets⟩, ?_⟩
  obtain ⟨-, rfl⟩ := take_eq_some_iff.mp hTake
  exact congrArg (· + 1) h.inFlight

theorem take_capacity (h : b.take? ticket = some b') : b'.capacity = b.capacity := by
  obtain ⟨-, rfl⟩ := take_eq_some_iff.mp h
  rfl

theorem balanced_poll (h : b.Balanced held (ticket :: tickets)) (deadline now : Nat)
    (cause : Option Cause) :
    (b.poll ticket deadline now cause).1.Settles (b.poll ticket deadline now cause).2.1 held ticket
        tickets ∧
      (b.poll ticket deadline now cause).2.1.capacity = b.capacity := by
  cases hTake : b.take? ticket with
  | some taken =>
    rw [poll_of_take hTake]
    exact ⟨balanced_take h hTake, (take_capacity hTake :)⟩
  | none =>
    rw [poll_of_take_none hTake]
    by_cases hLate : deadline ≤ now
    · simp only [hLate, if_true]
      exact ⟨balanced_withdraw h, withdraw_capacity b ticket⟩
    · simp only [hLate, if_false]
      cases cause with
      | some cause => exact ⟨balanced_withdraw h, withdraw_capacity b ticket⟩
      | none => exact ⟨h, rfl⟩

/-! ## The line -/

/-- Tickets stand in line only where no slot is free. -/
def Packed (b : Bulkhead) : Prop := b.waiting ≠ [] → b.available = 0

theorem packed_enter (h : b.Packed) : b.enter.2.Packed := by
  rcases Nat.eq_zero_or_pos b.available with hFull | hFree
  · rw [enter_of_full hFull]
    exact fun _ => hFull
  · rw [enter_of_available hFree]
    intro hLine
    have hNone : b.available = 0 := h hLine
    omega

theorem packed_handBack (h : b.Packed) : b.handBack.Packed := by
  cases hWaiting : b.waiting with
  | nil =>
    rw [handBack_of_nobody hWaiting]
    exact fun hLine => absurd hWaiting hLine
  | cons first rest =>
    rw [handBack_of_line hWaiting]
    exact fun _ => h (by simp [hWaiting])

theorem packed_release (h : b.Packed) : b.release.1.Packed := packed_handBack (b := b.countOut.2) h

theorem packed_take (h : b.Packed) (hTake : b.take? ticket = some b') : b'.Packed := by
  obtain ⟨-, rfl⟩ := take_eq_some_iff.mp hTake
  exact h

theorem packed_withdraw (h : b.Packed) (ticket : Nat) : (b.withdraw ticket).Packed := by
  unfold withdraw
  split
  · exact packed_handBack (b := { b with reserved := b.reserved.erase ticket }) h
  · intro hLine
    refine h fun hNobody => hLine ?_
    simp [hNobody]

end Gatehouse.Bulkhead
