import Gatehouse.Proofs.Breaker.Coverage
import Gatehouse.Proofs.Bulkhead.Slots
import Gatehouse.Proofs.Pipeline.Passage

/-!
# What requests hold

A request holds a slot of the bulkhead or a call of the breaker exactly as long as the frame of
the stage is among its frames, and a ticket as long as it waits in line. Everything that is held
can be read off the frames and tickets of all requests (`Site.Balanced`). Each operation on one
request keeps that, whatever the others hold: the frames and tickets of the others stand beside
its own in every statement.

* `balanced_rise`, `balanced_discard`: a frame gives back what it holds, once.
* `accounted_enter`, `accounted_poll`, `accounted_abort`: the operations on a request.
-/

namespace Gatehouse.Pipeline

def Frame.isSlot : Frame → Bool
  | .slot => true
  | _ => false

def Frame.admission? : Frame → Option Breaker.Admission
  | .call admission _ => some admission
  | _ => none

namespace Site

/-- The gates of a site give and have promised what is held by some frames and tickets. The
bulkhead, if there is one, keeps its capacity. -/
structure Balanced (capacity? : Option Nat) (s : Site) (frames : List Frame) (tickets : List Nat) :
    Prop where
  capacity : s.gates.bulkhead.map (·.capacity) = capacity?
  bulkhead : ∀ b, s.gates.bulkhead = some b → b.Balanced (frames.countP Frame.isSlot) tickets
  breaker : ∀ c, s.gates.breaker = some c → c.machine.Covered (frames.filterMap Frame.admission?)

variable {capacity? : Option Nat} {s s' : Site} {frames frames' : List Frame}
  {tickets tickets' : List Nat}

/-- Only the gates matter. -/
theorem Balanced.of_gates (h : s.Balanced capacity? frames tickets)
    (hBulkhead : s'.gates.bulkhead = s.gates.bulkhead)
    (hBreaker : s'.gates.breaker = s.gates.breaker) : s'.Balanced capacity? frames tickets := by
  refine ⟨?_, ?_, ?_⟩
  · rw [hBulkhead]
    exact h.capacity
  · rw [hBulkhead]
    exact h.bulkhead
  · rw [hBreaker]
    exact h.breaker

/-- The order of frames and tickets does not matter. -/
theorem Balanced.perm (h : s.Balanced capacity? frames tickets) (hFrames : frames.Perm frames')
    (hTickets : tickets.Perm tickets') : s.Balanced capacity? frames' tickets' := by
  refine ⟨h.capacity, ?_, ?_⟩
  · intro b hb
    rw [← hFrames.countP_eq]
    exact (h.bulkhead b hb).congr hTickets
  · intro c hc
    exact (h.breaker c hc).congr (hFrames.filterMap _)

theorem Balanced.note (h : s.Balanced capacity? frames tickets) (entries : Journal) :
    (s.note entries).Balanced capacity? frames tickets := h.of_gates rfl rfl

theorem gates_scopeOf (s : Site) (r : Http.Request) : (s.scopeOf r).2.gates = s.gates := by
  unfold scopeOf
  split <;> rfl

theorem Balanced.scopeOf (h : s.Balanced capacity? frames tickets) (r : Http.Request) :
    (s.scopeOf r).2.Balanced capacity? frames tickets :=
  h.of_gates (by rw [gates_scopeOf]) (by rw [gates_scopeOf])

/-- A frame without a slot or a call counts for nothing. -/
theorem balanced_cons_iff {frame : Frame} (hSlot : frame.isSlot = false)
    (hAdmission : frame.admission? = none) :
    s.Balanced capacity? (frame :: frames) tickets ↔ s.Balanced capacity? frames tickets := by
  have hCount : (frame :: frames).countP Frame.isSlot = frames.countP Frame.isSlot := by
    simp [hSlot]
  have hCalls : (frame :: frames).filterMap Frame.admission? =
      frames.filterMap Frame.admission? := by
    simp [hAdmission]
  constructor
  · rintro ⟨hCapacity, hBulkhead, hBreaker⟩
    rw [hCount] at hBulkhead
    rw [hCalls] at hBreaker
    exact ⟨hCapacity, hBulkhead, hBreaker⟩
  · rintro ⟨hCapacity, hBulkhead, hBreaker⟩
    rw [← hCount] at hBulkhead
    rw [← hCalls] at hBreaker
    exact ⟨hCapacity, hBulkhead, hBreaker⟩

/-- An operation on the breaker that closes a call. -/
theorem balanced_onBreaker {admission : Breaker.Admission} {scope : Scope}
    (h : s.Balanced capacity? (.call admission scope :: frames) tickets)
    {f : Breaker.CircuitBreaker → Breaker.CircuitBreaker × Journal}
    (hf : ∀ c calls, c.machine.Covered (admission :: calls) → (f c).1.machine.Covered calls) :
    (s.onBreaker f).Balanced capacity? frames tickets := by
  unfold onBreaker
  cases hBreaker : s.gates.breaker with
  | none =>
    refine ⟨h.capacity, h.bulkhead, ?_⟩
    intro c hc
    rw [hBreaker] at hc
    cases hc
  | some c =>
    refine ⟨h.capacity, h.bulkhead, ?_⟩
    intro c' hc
    cases hc
    exact hf c _ (h.breaker c hBreaker)

/-- An operation on the bulkhead that keeps its capacity and the calls of the breaker. -/
theorem balanced_onBulkhead (h : s.Balanced capacity? frames tickets)
    (hCalls : frames.filterMap Frame.admission? = frames'.filterMap Frame.admission?)
    {f : Bulkhead → Bulkhead × Journal}
    (hf : ∀ b : Bulkhead, b.Balanced (frames.countP Frame.isSlot) tickets →
      (f b).1.Balanced (frames'.countP Frame.isSlot) tickets' ∧ (f b).1.capacity = b.capacity) :
    (s.onBulkhead f).Balanced capacity? frames' tickets' := by
  have hCapacity := h.capacity
  have hBreaker := h.breaker
  rw [hCalls] at hBreaker
  unfold onBulkhead
  cases hBulkhead : s.gates.bulkhead with
  | none =>
    refine ⟨hCapacity, ?_, hBreaker⟩
    intro b hb
    rw [hBulkhead] at hb
    cases hb
  | some b =>
    obtain ⟨hBalanced, hSame⟩ := hf b (h.bulkhead b hBulkhead)
    refine ⟨?_, ?_, hBreaker⟩
    · rw [hBulkhead] at hCapacity
      rw [← hCapacity]
      exact congrArg some hSame
    · intro b' hb
      cases hb
      exact hBalanced

theorem balanced_release (h : s.Balanced capacity? (.slot :: frames) tickets) :
    (s.onBulkhead Bulkhead.release).Balanced capacity? frames tickets := by
  have hCalls : (Frame.slot :: frames).filterMap Frame.admission? =
      frames.filterMap Frame.admission? := rfl
  refine balanced_onBulkhead h hCalls ?_
  intro b hb
  have hHeld : (Frame.slot :: frames).countP Frame.isSlot = frames.countP Frame.isSlot + 1 :=
    List.countP_cons_of_pos rfl
  rw [hHeld] at hb
  exact ⟨Bulkhead.balanced_release hb, Bulkhead.release_capacity b⟩

theorem balanced_withdraw {ticket : Nat} (h : s.Balanced capacity? frames (ticket :: tickets)) :
    (s.onBulkhead fun b => (b.withdraw ticket, [])).Balanced capacity? frames tickets := by
  refine balanced_onBulkhead h rfl ?_
  intro b hb
  exact ⟨Bulkhead.balanced_withdraw hb, Bulkhead.withdraw_capacity b ticket⟩

end Site

/-! ## Frames -/

section Frames

variable {capacity? : Option Nat} {s : Site} {frames : List Frame} {tickets : List Nat}

/-- However a completion passes through a frame, the frame gives back what it holds. -/
theorem balanced_rise {frame : Frame} (h : s.Balanced capacity? (frame :: frames) tickets)
    (c : Completion) : (frame.rise s c).1.Balanced capacity? frames tickets := by
  cases frame with
  | slot => exact Site.balanced_release h
  | call admission scope =>
    cases c with
    | outcome o =>
      refine Site.balanced_onBreaker h ?_
      intro b calls hb
      exact Breaker.CircuitBreaker.covered_record hb _ _
    | panic payload =>
      refine Site.balanced_onBreaker h ?_
      intro b calls hb
      exact Breaker.CircuitBreaker.covered_record hb _ _
  | recovery method path =>
    have hRest := (Site.balanced_cons_iff rfl rfl).mp h
    cases c with
    | outcome o => exact hRest
    | panic payload => exact hRest.note _
  | timeout limit scope => exact (Site.balanced_cons_iff rfl rfl).mp h
  | logging id method path started =>
    have hRest := (Site.balanced_cons_iff rfl rfl).mp h
    cases c with
    | outcome o => exact hRest.note _
    | panic payload => exact hRest
  | translation translate =>
    have hRest := (Site.balanced_cons_iff rfl rfl).mp h
    rcases c with (response | failure) | payload <;> exact hRest

theorem balanced_discard {frame : Frame} (h : s.Balanced capacity? (frame :: frames) tickets) :
    (frame.discard s).Balanced capacity? frames tickets := by
  cases frame with
  | slot => exact Site.balanced_release h
  | call admission scope =>
    refine Site.balanced_onBreaker h ?_
    intro b calls hb
    exact Breaker.CircuitBreaker.covered_drop hb
  | recovery | timeout | logging | translation => exact (Site.balanced_cons_iff rfl rfl).mp h

theorem balanced_ascend {own : List Frame} (h : s.Balanced capacity? (own ++ frames) tickets)
    (c : Completion) : (ascend s c own).1.Balanced capacity? frames tickets := by
  induction own generalizing s c with
  | nil => exact h
  | cons frame own ih => exact ih (balanced_rise h c) _

theorem balanced_discardAll {own : List Frame} (h : s.Balanced capacity? (own ++ frames) tickets) :
    (discardAll s own).Balanced capacity? frames tickets := by
  induction own generalizing s with
  | nil => exact h
  | cons frame own ih => exact ih (balanced_discard h)

/-- A panic that is not caught leaves no slot or call behind. -/
theorem balanced_pastUnarmed {own : List Frame} (h : s.Balanced capacity? (own ++ frames) tickets) :
    s.Balanced capacity? (pastUnarmed own ++ frames) tickets := by
  unfold pastUnarmed
  split
  · exact (Site.balanced_cons_iff rfl rfl).mp h
  · exact h

end Frames

/-- What is inside of the innermost expired timeout, and what is outside of it. -/
theorem expired?_split {site : Site} {frames : List Frame} {e : Expired}
    (h : expired? site frames = some e) :
    frames = e.inner ++ .timeout e.limit e.scope :: e.outer := by
  induction frames generalizing e with
  | nil => cases h
  | cons frame outer ih =>
    have hFurther : ∀ {e}, (expired? site outer).map
        (fun e => { e with inner := frame :: e.inner }) = some e →
        frame :: outer = e.inner ++ .timeout e.limit e.scope :: e.outer := by
      intro e hMap
      obtain ⟨e', hExpired, hEq⟩ := Option.map_eq_some_iff.mp hMap
      rw [← hEq, ih hExpired]
      rfl
    unfold expired? at h
    cases frame with
    | timeout limit scope =>
      cases hCause : site.cancelled? scope with
      | none =>
        simp only [hCause] at h
        exact hFurther h
      | some cause =>
        simp only [hCause] at h
        cases h
        rfl
    | recovery | call | slot | logging | translation => exact hFurther h

end Gatehouse.Pipeline
