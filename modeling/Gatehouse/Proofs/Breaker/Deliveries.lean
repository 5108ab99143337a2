import Gatehouse.Breaker.Feed
import Mathlib.Data.List.Basic

/-!
# What the subscribers of a feed are told

A subscriber may take its messages one at a time or all at once, and others may publish, subscribe
and take theirs in between. What it has been handed accounts for all that was published since it
subscribed, up to its place: each event was told once and in order, and a lag stands for exactly
the events that the feed could not keep.

* `Tells`: the messages that account for some events.
* `Feed.read_receive`: to read is to receive until there is nothing left.
* `Feed.Follows`: the invariant of one subscriber; `Follows.receive`, `Follows.read`,
  `Follows.aside`.
-/

namespace Gatehouse.Breaker

variable {α : Type}

/-- How many events a message accounts for. -/
def Received.span : Received α → Nat
  | .event _ => 1
  | .lagged lost => lost

/-- How many events some messages account for. -/
def passed : List (Received α) → Nat
  | [] => 0
  | message :: later => message.span + passed later

/-- Messages account for events, the oldest first. -/
inductive Tells : List (Received α) → List α → Prop where
  | nothing : Tells [] []
  | event {messages : List (Received α)} {events : List α} (h : Tells messages events) (e : α) :
    Tells (messages ++ [.event e]) (events ++ [e])
  | lagged {messages : List (Received α)} {events : List α} (h : Tells messages events)
    (lost : List α) : Tells (messages ++ [.lagged lost.length]) (events ++ lost)

theorem passed_append (messages later : List (Received α)) :
    passed (messages ++ later) = passed messages + passed later := by
  induction messages with
  | nil => simp [passed]
  | cons message rest ih => rw [List.cons_append, passed, passed, ih, Nat.add_assoc]

namespace Tells

variable {messages later : List (Received α)} {events more : List α}

theorem passed_eq (h : Tells messages events) : passed messages = events.length := by
  induction h with
  | nothing => rfl
  | event _ e ih =>
    rw [passed_append, ih, List.length_append]
    rfl
  | lagged _ lost ih =>
    rw [passed_append, ih, List.length_append]
    simp [passed, Received.span]

theorem append (h : Tells messages events) (hLater : Tells later more) :
    Tells (messages ++ later) (events ++ more) := by
  induction hLater with
  | nothing => simpa using h
  | event _ e ih =>
    rw [← List.append_assoc, ← List.append_assoc]
    exact ih.event e
  | lagged _ lost ih =>
    rw [← List.append_assoc, ← List.append_assoc]
    exact ih.lagged lost

/-- The first message accounts for the first events. -/
theorem head {message : Received α} (h : Tells (message :: later) events) :
    ∃ told, told <+: events ∧ Tells [message] told := by
  generalize hAll : message :: later = all at h
  induction h generalizing later with
  | nothing => cases hAll
  | @event messages events hInit e ih =>
    cases messages with
    | nil =>
      obtain ⟨rfl, -⟩ := List.cons.inj hAll
      exact ⟨events ++ [e], List.prefix_rfl, hInit.event e⟩
    | cons first rest =>
      obtain ⟨rfl, -⟩ := List.cons.inj hAll
      obtain ⟨told, hTold, hFirst⟩ := ih rfl
      exact ⟨told, hTold.trans (List.prefix_append _ _), hFirst⟩
  | @lagged messages events hInit lost ih =>
    cases messages with
    | nil =>
      obtain ⟨rfl, -⟩ := List.cons.inj hAll
      exact ⟨events ++ lost, List.prefix_rfl, hInit.lagged lost⟩
    | cons first rest =>
      obtain ⟨rfl, -⟩ := List.cons.inj hAll
      obtain ⟨told, hTold, hFirst⟩ := ih rfl
      exact ⟨told, hTold.trans (List.prefix_append _ _), hFirst⟩

theorem map_event (events : List α) : Tells (events.map .event) events := by
  induction events with
  | nil => exact .nothing
  | cons e rest ih => exact (Tells.nothing.event e).append ih

end Tells

namespace Feed

variable {f : Feed α} {subscriber : Nat}

/-- The part of the feed that a subscriber at a place has not been told. -/
def unread (f : Feed α) (position : Nat) : List α := f.published.drop position

theorem deliver_of_le {unread : List α} (h : unread.length ≤ capacity) :
    deliver unread = unread.map .event := if_neg (Nat.not_lt.mpr h)

theorem deliver_of_lt {unread : List α} (h : capacity < unread.length) :
    deliver unread = .lagged (unread.length - capacity) ::
      (unread.drop (unread.length - capacity)).map .event := if_pos h

theorem tells_deliver (unread : List α) : Tells (deliver unread) unread := by
  by_cases h : capacity < unread.length
  · rw [deliver_of_lt h]
    have hTaken : (unread.take (unread.length - capacity)).length = unread.length - capacity := by
      rw [List.length_take]
      omega
    have hLost := Tells.nothing.lagged (unread.take (unread.length - capacity))
    have hAll := hLost.append (Tells.map_event (unread.drop (unread.length - capacity)))
    simp only [hTaken, List.nil_append, List.take_append_drop] at hAll
    exact hAll
  · rw [deliver_of_le (Nat.not_lt.mp h)]
    exact Tells.map_event unread

/-! ## Taking messages -/

theorem read_eq {position : Nat} (h : f.positions[subscriber]? = some position) :
    f.read subscriber = (deliver (f.unread position),
      { f with positions := f.positions.set subscriber f.published.length }) := by
  simp [read, h, unread]

theorem deliver_eq_nil {unread : List α} : deliver unread = [] ↔ unread = [] := by
  constructor
  · intro h
    have hTells := tells_deliver unread
    rw [h] at hTells
    exact List.length_eq_zero_iff.mp hTells.passed_eq.symm
  · rintro rfl
    rfl

theorem receive_of_nil {position : Nat} (h : f.positions[subscriber]? = some position)
    (hNone : deliver (f.unread position) = []) : f.receive subscriber = (none, f) := by
  have hUnread : f.published.drop position = [] := deliver_eq_nil.mp hNone
  simp [receive, h, hUnread]

theorem receive_of_cons {position : Nat} (h : f.positions[subscriber]? = some position)
    {message : Received α} {rest : List (Received α)}
    (hSome : deliver (f.unread position) = message :: rest) :
    f.receive subscriber = (some message,
      { f with positions := f.positions.set subscriber (position + message.span) }) := by
  have hLength : (f.unread position).length = f.published.length - position := List.length_drop
  simp only [receive, h]
  by_cases hLag : capacity < (f.unread position).length
  · rw [deliver_of_lt hLag] at hSome
    obtain ⟨rfl, rfl⟩ := List.cons.inj hSome
    have hDrop : capacity < (f.published.drop position).length := hLag
    have hPlace : f.published.length - capacity =
        position + ((f.unread position).length - capacity) := by omega
    rw [if_pos hDrop, hPlace]
    rfl
  · rw [deliver_of_le (Nat.not_lt.mp hLag)] at hSome
    have hDrop : ¬ capacity < (f.published.drop position).length := hLag
    rw [if_neg hDrop]
    cases hUnread : f.published.drop position with
    | nil =>
      rw [unread, hUnread] at hSome
      cases hSome
    | cons e events =>
      rw [unread, hUnread] at hSome
      obtain ⟨rfl, rfl⟩ := List.cons.inj hSome
      rfl

/-- A subscriber that has been handed `messages` since it subscribed, when the feed held `since`
events. -/
structure Follows (f : Feed α) (subscriber since : Nat) (messages : List (Received α)) : Prop where
  position : f.positions[subscriber]? = some (since + passed messages)
  le : since + passed messages ≤ f.published.length
  tells : Tells messages ((f.published.drop since).take (passed messages))

namespace Follows

variable {since : Nat} {messages : List (Received α)}

theorem subscribe (f : Feed α) : f.subscribe.2.Follows f.subscribe.1 f.published.length [] := by
  refine ⟨?_, Nat.le_refl _, .nothing⟩
  simp [Feed.subscribe, passed]

/-- Others come and go, and more is published. -/
theorem aside (h : f.Follows subscriber since messages) {f' : Feed α}
    (hPosition : f'.positions[subscriber]? = f.positions[subscriber]?)
    (hPublished : f.published <+: f'.published) : f'.Follows subscriber since messages := by
  obtain ⟨later, hLater⟩ := hPublished
  have hLe := h.le
  refine ⟨hPosition.trans h.position, ?_, ?_⟩
  · rw [← hLater, List.length_append]
    omega
  · rw [← hLater, List.drop_append_of_le_length (by omega), List.take_append_of_le_length]
    · exact h.tells
    · rw [List.length_drop]
      omega

/-- Another subscriber takes messages. -/
theorem other (h : f.Follows subscriber since messages) {other : Nat} (hOther : other ≠ subscriber)
    (place : Nat) :
    ({ f with positions := f.positions.set other place } : Feed α).Follows subscriber since
      messages :=
  h.aside (List.getElem?_set_ne hOther) List.prefix_rfl

/-- The first of the messages that are ready are handed over. -/
theorem hand (h : f.Follows subscriber since messages) {handed : List (Received α)}
    {told : List α} (hTold : told <+: f.unread (since + passed messages))
    (hHanded : Tells handed told) {g : Feed α} (hPublished : g.published = f.published)
    (hPosition : g.positions[subscriber]? = some (since + passed messages + told.length)) :
    g.Follows subscriber since (messages ++ handed) := by
  have hLe := h.le
  have hSpan := hHanded.passed_eq
  have hLength := hTold.length_le
  rw [unread, List.length_drop] at hLength
  obtain ⟨later, hLater⟩ := hTold
  have hSplit : (f.published.drop since).drop (passed messages) = told ++ later := by
    rw [List.drop_drop]
    exact hLater.symm
  refine ⟨?_, ?_, ?_⟩
  · rw [hPosition, passed_append, hSpan, Nat.add_assoc]
  · rw [passed_append, hSpan, hPublished]
    omega
  · rw [hPublished, passed_append, hSpan, List.take_add, hSplit, List.take_left]
    exact h.tells.append hHanded

theorem read (h : f.Follows subscriber since messages) :
    (f.read subscriber).2.Follows subscriber since (messages ++ (f.read subscriber).1) := by
  have hLe := h.le
  have hKnown : subscriber < f.positions.length := (List.getElem?_eq_some_iff.mp h.position).1
  rw [read_eq h.position]
  refine h.hand (g := { f with positions := f.positions.set subscriber f.published.length })
    List.prefix_rfl (tells_deliver _) rfl ?_
  rw [List.getElem?_set_self hKnown, unread, List.length_drop]
  congr 1
  omega

theorem receive (h : f.Follows subscriber since messages) :
    (f.receive subscriber).2.Follows subscriber since
      (messages ++ (f.receive subscriber).1.toList) := by
  have hKnown : subscriber < f.positions.length := (List.getElem?_eq_some_iff.mp h.position).1
  cases hAll : deliver (f.unread (since + passed messages)) with
  | nil =>
    rw [receive_of_nil h.position hAll]
    simpa using h
  | cons message rest =>
    have hTells := tells_deliver (f.unread (since + passed messages))
    rw [hAll] at hTells
    obtain ⟨told, hTold, hHanded⟩ := hTells.head
    have hSpan : message.span = told.length := by simpa [passed] using hHanded.passed_eq
    rw [receive_of_cons h.position hAll]
    refine h.hand (g := { f with positions := f.positions.set subscriber _ }) hTold hHanded rfl ?_
    rw [List.getElem?_set_self hKnown, hSpan]

end Follows

end Feed

end Gatehouse.Breaker
