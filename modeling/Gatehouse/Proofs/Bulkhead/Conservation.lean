import Gatehouse.Proofs.Bulkhead.Moves

/-!
# No slot is lost

The slots of a bulkhead are counted in two places: by those that the tasks hold, and by those that
are free or promised. Whatever the tasks do, and in whatever order a slot that is given back, the
end of a wait and the death of a task that waits follow each other, the two agree.

The tasks share one thread here: whoever takes a slot or gives it back has published the count
before another task goes on. On several threads the slots are conserved too, but the gauge may lag
behind for good.

* `slots_conserved`: at every moment each slot is held, promised or free; at every settled one it
  is held or free, and nobody waits while one is free.
-/

namespace Gatehouse.Bulkhead

open Contention

/-- Tasks take, give back, wait for and give up the slots of a bulkhead in any interleaving. At
every moment a slot is held by one task, promised to one that waits, or free; every task that waits
has one ticket, either promised a slot or in line; and the gauge, if it was ever set, shows the
slots that are held. Once nothing happens any more at an instant, each slot is held or free, and no
task waits while one is free. Every step ends so. -/
theorem slots_conserved {capacity acquireTimeout : Nat} {b : Bulkhead}
    (hCreate : create? capacity acquireTimeout = some b) {c : Contention} (h : Reachable b c) :
    (c.bulkhead.inFlight = c.held ∧
      c.bulkhead.inFlight + c.bulkhead.reserved.length + c.bulkhead.available = capacity ∧
      (c.bulkhead.reserved ++ c.bulkhead.waiting).Perm c.waitingTickets ∧
      c.waitingTickets.Nodup ∧
      ∀ reading, c.journal.slotGauge = some reading → reading = .gauge c.bulkhead.inFlight) ∧
    (c.Settled →
      c.bulkhead.inFlight + c.bulkhead.available = capacity ∧
      (0 < c.bulkhead.available → ∀ a ∈ c.attempts, a.status ≠ .waiting)) ∧
    ∀ step, Reachable b (c.perform step) ∧ (c.perform step).Settled := by
  have hStart := sound_start hCreate
  have hSound := sound_reachable hStart h
  have hCapacity : c.bulkhead.capacity = capacity := by
    rw [(settings_reachable h).1, create_cases hCreate]
  have hEach : c.bulkhead.inFlight + c.bulkhead.reserved.length + c.bulkhead.available =
      capacity := by
    rw [hSound.balanced.inFlight, hSound.balanced.slots, hCapacity]
  refine ⟨⟨hSound.balanced.inFlight, hEach, hSound.balanced.tickets, nodup_waitingTickets hSound,
    hSound.shown⟩, fun hSettled => ?_, fun step => ⟨h.perform hStart step, settled_perform c step⟩⟩
  have hReserved := reserved_eq_nil hSound hSettled
  exact ⟨by simpa [hReserved] using hEach, status_ne_waiting hSound hSettled⟩

/-- One slot goes from hand to hand: it is given back while two tasks are in line, the first of
them dies before it takes it, and the second has it in the end. -/
def handedOn : Contention :=
  [Move.acquire "a" none, .visit 0, .acquire "b" none, .visit 1, .acquire "c" none, .visit 2,
    .clock 3, .release 0, .abort 1, .visit 2].foldl Contention.move
      (.start ⟨1, 10, 1, 0, [], [], 0⟩)

theorem reachable_handedOn : Reachable ⟨1, 10, 1, 0, [], [], 0⟩ handedOn :=
  (((((((((Reachable.start.move (.acquire "a" none)).move (.visit 0)).move
    (.acquire "b" none)).move (.visit 1)).move (.acquire "c" none)).move (.visit 2)).move
    (.clock 3)).move (.release 0)).move (.abort 1)).move (.visit 2)

theorem slots_conserved_handed_on :
    handedOn.attempts.map (·.status) = [.released, .aborted, .held 3] ∧
    handedOn.bulkhead.inFlight = handedOn.held ∧ handedOn.held = 1 ∧
    handedOn.bulkhead.inFlight + handedOn.bulkhead.available = 1 ∧
    handedOn.journal.slotGauge = some (.gauge 1) := by
  have hCreate : create? 1 10 = some ⟨1, 10, 1, 0, [], [], 0⟩ := by decide
  have hSettled : handedOn.Settled := settled_of_waitingTickets (by decide)
  obtain ⟨⟨hInFlight, -⟩, hQuiet, -⟩ := slots_conserved hCreate reachable_handedOn
  exact ⟨by decide, hInFlight, by decide, (hQuiet hSettled).1, by decide +kernel⟩

end Gatehouse.Bulkhead
