import Gatehouse.Proofs.Pipeline.Service

/-!
# Where a request holds its slot

How many slots a request is to hold in its handler is known when it is sent: one for each bulkhead
stage of its pipeline, and none at all if it goes to a probe path (`slotsAhead`). On its way
inwards the slots that it holds and those that are still ahead of it make up that number, and once
it has ended it holds nothing (`Flight.Placed`).

* `accounted_enter`, `accounted_poll`, `accounted_abort`: whatever is done with a request, it is
  where it should be and the gates are told of what it holds.
-/

namespace Gatehouse.Pipeline

def Interceptor.isBulkhead : Interceptor → Bool
  | .bulkhead => true
  | _ => false

/-- The slots that a request takes on its way through some stages, where there is a bulkhead. -/
def slotsAhead (gated : Bool) (r : Http.Request) (stages : List Interceptor) : Nat :=
  if gated && !Http.isProbePath r.path then stages.countP Interceptor.isBulkhead else 0

theorem slotsAhead_cons_of_false {stage : Interceptor} (h : stage.isBulkhead = false)
    (gated : Bool) (r : Http.Request) (rest : List Interceptor) :
    slotsAhead gated r (stage :: rest) = slotsAhead gated r rest := by
  simp [slotsAhead, h]

theorem slotsAhead_eq_zero {gated : Bool} {r : Http.Request}
    (h : (gated && !Http.isProbePath r.path) = false) (stages : List Interceptor) :
    slotsAhead gated r stages = 0 := by
  simp [slotsAhead, h]

theorem slotsAhead_bulkhead {r : Http.Request} (h : Http.isProbePath r.path = false)
    (rest : List Interceptor) :
    slotsAhead true r (.bulkhead :: rest) = slotsAhead true r rest + 1 := by
  unfold slotsAhead
  rw [h, List.countP_cons_of_pos rfl]
  rfl

namespace Flight

/-- The slots that a request holds. -/
def slots (f : Flight) : Nat := f.frames.countP Frame.isSlot

/-- The ticket that a request in line holds. -/
def tickets (f : Flight) : List Nat :=
  match f.activity with
  | .queued ticket _ _ _ _ => [ticket]
  | _ => []

/-- A request that is to hold `whole` slots in its handler holds what belongs to the place that it
has come to. -/
def Placed (gated : Bool) (whole : Nat) (f : Flight) : Prop :=
  match f.activity with
  | .queued _ _ _ rest r => f.slots + 1 + slotsAhead gated r rest = whole
  | .awaitingEnd _ => f.slots = whole
  | .working _ _ => f.slots = whole
  | .ended _ _ => f.frames = []
  | .aborted => f.frames = []

end Flight

/-- A request is in its place, and the gates are told of what it and the others hold. -/
structure Accounted (capacity? : Option Nat) (whole : Nat) (frames : List Frame)
    (tickets : List Nat) (now : Site × Flight) : Prop where
  balanced : now.1.Balanced capacity? (now.2.frames ++ frames) (now.2.tickets ++ tickets)
  placed : now.2.Placed capacity?.isSome whole

/-- A request is on its way inwards, with some stages ahead. -/
structure OnTheWay (capacity? : Option Nat) (whole : Nat) (frames : List Frame)
    (tickets : List Nat) (f : Flight) (s : Site) (r : Http.Request) (rest : List Interceptor) :
    Prop where
  balanced : s.Balanced capacity? (f.frames ++ frames) tickets
  placed : f.slots + slotsAhead capacity?.isSome r rest = whole

namespace Flight

variable {capacity? : Option Nat} {whole : Nat} {frames : List Frame} {tickets : List Nat}
  {f : Flight} {s : Site}

/-! ## In the handler, and on the way out -/

theorem accounted_complete (h : s.Balanced capacity? (f.frames ++ frames) tickets)
    (c : Completion) : Accounted capacity? whole frames tickets (f.complete s c) :=
  ⟨balanced_ascend h c, rfl⟩

theorem accounted_reject (h : s.Balanced capacity? (f.frames ++ frames) tickets)
    (failure : Failure) (event : Entry) :
    Accounted capacity? whole frames tickets (f.reject s failure event) :=
  accounted_complete (h.note _) _

/-- In its handler a request has all the slots that it is to hold, and no ticket. -/
theorem serves_accounted :
    Serves (fun s inner => s.Balanced capacity? (inner ++ frames) tickets ∧
        inner.countP Frame.isSlot = whole)
      (Accounted capacity? whole frames tickets) where
  ends := fun c h => accounted_complete h.1 c
  waits := by
    intro s f hIn h
    cases hActivity : f.activity with
    | awaitingEnd | working =>
      have hTickets : f.tickets = [] := by simp [Flight.tickets, hActivity]
      refine ⟨?_, ?_⟩
      · simpa [hTickets] using h.1
      · simp only [Placed, hActivity]
        exact h.2
    | queued | ended | aborted =>
      rw [hActivity] at hIn
      cases hIn
  aside := fun hGates _ h => ⟨h.1.of_gates (by rw [hGates]) (by rw [hGates]), h.2⟩

/-! ## On the way inwards -/

theorem onTheWay_push (h : s.Balanced capacity? (f.frames ++ frames) tickets) {frame : Frame}
    (hSlot : frame.isSlot = false) (hAdmission : frame.admission? = none) {r : Http.Request}
    {rest : List Interceptor} (hPlaced : f.slots + slotsAhead capacity?.isSome r rest = whole) :
    OnTheWay capacity? whole frames tickets (f.push frame) s r rest := by
  refine ⟨(Site.balanced_cons_iff hSlot hAdmission).mpr h, ?_⟩
  have hSlots : (f.push frame).slots = f.slots := by
    simp [slots, push, hSlot]
  rw [hSlots]
  exact hPlaced

/-- A look at a ticket that the request holds. -/
theorem keeps_look {b : Bulkhead} {ticket : Nat} {r : Http.Request} {rest : List Interceptor}
    (hBulkhead : b.Balanced ((f.frames ++ frames).countP Frame.isSlot) (ticket :: tickets))
    (hBreaker : ∀ c, s.gates.breaker = some c →
      c.machine.Covered ((f.frames ++ frames).filterMap Frame.admission?))
    (hPlaced : f.slots + 1 + slotsAhead true r rest = whole) (deadline : Nat) (scope : Scope) :
    (f.look s b ticket deadline scope rest r).Keeps
      (OnTheWay (some b.capacity) whole frames tickets)
      (Accounted (some b.capacity) whole frames tickets) rest := by
  have hPoll := Bulkhead.balanced_poll hBulkhead deadline s.now (s.cancelled? scope)
  unfold look
  revert hPoll
  generalize b.poll ticket deadline s.now (s.cancelled? scope) = polled
  obtain ⟨progress, b', journal⟩ := polled
  rintro ⟨hSettles, hCapacity⟩
  have hAfter : ∀ {own tickets'}, b'.Balanced ((own ++ frames).countP Frame.isSlot) tickets' →
      (own ++ frames).filterMap Frame.admission? =
        (f.frames ++ frames).filterMap Frame.admission? →
      ((s.setBulkhead b').note journal).Balanced (some b.capacity) (own ++ frames) tickets' := by
    intro own tickets' hb hCalls
    rw [← hCalls] at hBreaker
    refine ⟨congrArg some hCapacity, ?_, hBreaker⟩
    intro b'' hEq
    cases hEq
    exact hb
  cases progress with
  | waits => exact ⟨hAfter hSettles rfl, hPlaced⟩
  | holds =>
    have hSlots : (f.push .slot).slots = f.slots + 1 := List.countP_cons_of_pos rfl
    have hHeld : ((f.push .slot).frames ++ frames).countP Frame.isSlot =
        (f.frames ++ frames).countP Frame.isSlot + 1 := List.countP_cons_of_pos rfl
    refine ⟨hAfter ?_ rfl, ?_⟩
    · rw [hHeld]
      exact hSettles
    · rw [hSlots]
      exact hPlaced
  | refused reason =>
    cases reason with
    | full capacity => exact accounted_reject (hAfter hSettles rfl) _ _
    | ended cause => exact accounted_complete (hAfter hSettles rfl) _

/-- A stage other than the bulkhead leaves the slots ahead as they are. -/
theorem onTheWay_of_rest {stage : Interceptor} {r : Http.Request} {rest : List Interceptor}
    (h : OnTheWay capacity? whole frames tickets f s r (stage :: rest))
    (hStage : stage.isBulkhead = false) : OnTheWay capacity? whole frames tickets f s r rest := by
  have hPlaced := h.placed
  rw [slotsAhead_cons_of_false hStage] at hPlaced
  exact ⟨h.balanced, hPlaced⟩

theorem keeps_rateLimit {r : Http.Request} {rest : List Interceptor}
    (h : OnTheWay capacity? whole frames tickets f s r rest) :
    (f.meetGate s r rest .rateLimit).Keeps (OnTheWay capacity? whole frames tickets)
      (Accounted capacity? whole frames tickets) rest := by
  simp only [meetGate]
  cases s.gates.limiter with
  | none => exact h
  | some l =>
    simp only
    split
    · exact ⟨h.balanced.of_gates rfl rfl, h.placed⟩
    · refine accounted_reject ?_ _ _
      exact h.balanced.of_gates rfl rfl

theorem keeps_circuitBreaker {r : Http.Request} {rest : List Interceptor}
    (h : OnTheWay capacity? whole frames tickets f s r rest) :
    (f.meetGate s r rest .circuitBreaker).Keeps (OnTheWay capacity? whole frames tickets)
      (Accounted capacity? whole frames tickets) rest := by
  obtain ⟨hBalanced, hPlaced⟩ := h
  simp only [meetGate]
  cases hGate : s.gates.breaker with
  | none => exact ⟨hBalanced, hPlaced⟩
  | some b =>
    have hScope := hBalanced.scopeOf r
    have hCovered := Breaker.CircuitBreaker.covered_tryAcquire (hBalanced.breaker b hGate)
      (s.scopeOf r).2.now
    revert hCovered
    simp only
    generalize b.tryAcquire (s.scopeOf r).2.now = tried
    obtain ⟨answer, b', journal⟩ := tried
    intro hCovered
    have hAfter : ∀ {own}, b'.machine.Covered ((own ++ frames).filterMap Frame.admission?) →
        (own ++ frames).countP Frame.isSlot = (f.frames ++ frames).countP Frame.isSlot →
        (((s.scopeOf r).2.setBreaker b').note journal).Balanced capacity? (own ++ frames)
          tickets := by
      intro own hb hSlots
      have hBulkhead := hScope.bulkhead
      rw [← hSlots] at hBulkhead
      refine ⟨hScope.capacity, hBulkhead, ?_⟩
      intro c hc
      cases hc
      exact hb
    cases answer with
    | ok admission => exact ⟨hAfter hCovered rfl, hPlaced⟩
    | error state => exact accounted_reject (hAfter hCovered rfl) _ _

theorem keeps_bulkhead {r : Http.Request} {rest : List Interceptor}
    (h : OnTheWay capacity? whole frames tickets f s r (.bulkhead :: rest))
    (hProbe : Http.isProbePath r.path = false) :
    (f.meetGate s r rest .bulkhead).Keeps (OnTheWay capacity? whole frames tickets)
      (Accounted capacity? whole frames tickets) rest := by
  obtain ⟨hBalanced, hPlaced⟩ := h
  have hCapacity := hBalanced.capacity
  simp only [meetGate]
  cases hGate : s.gates.bulkhead with
  | none =>
    rw [hGate] at hCapacity
    rw [← hCapacity] at hBalanced hPlaced ⊢
    exact ⟨hBalanced, by simpa [slotsAhead] using hPlaced⟩
  | some b =>
    have hSame : some b.enter.2.capacity = capacity? := by
      rw [Bulkhead.enter_capacity, ← hCapacity, hGate]
      rfl
    rw [← hSame] at hPlaced ⊢
    rw [Option.isSome_some, slotsAhead_bulkhead hProbe] at hPlaced
    have hEnter := Bulkhead.balanced_enter (hBalanced.bulkhead b hGate)
    have hScope := hBalanced.scopeOf r
    exact keeps_look hEnter hScope.breaker (by omega) _ _

theorem keeps_pass (f : Flight) (s : Site) (r : Http.Request) (stage : Interceptor)
    (rest : List Interceptor) (h : OnTheWay capacity? whole frames tickets f s r (stage :: rest)) :
    (f.pass s r stage rest).Keeps (OnTheWay capacity? whole frames tickets)
      (Accounted capacity? whole frames tickets) rest := by
  unfold pass
  split
  · rename_i hBypass
    have hZero : (capacity?.isSome && !Http.isProbePath r.path) = false := by
      simp [(Bool.and_eq_true_iff.mp hBypass).1]
    have hPlaced := h.placed
    rw [slotsAhead_eq_zero hZero] at hPlaced
    refine ⟨h.balanced, ?_⟩
    rw [slotsAhead_eq_zero hZero]
    exact hPlaced
  · rename_i hBypass
    cases stage with
    | panicRecovery =>
      have hRest := onTheWay_of_rest h rfl
      exact onTheWay_push hRest.balanced rfl rfl hRest.placed
    | timeout limit =>
      have hRest := onTheWay_of_rest h rfl
      have hScope := hRest.balanced.scopeOf r
      refine onTheWay_push ?_ rfl rfl hRest.placed
      exact hScope.of_gates rfl rfl
    | rateLimit => exact keeps_rateLimit (onTheWay_of_rest h rfl)
    | circuitBreaker => exact keeps_circuitBreaker (onTheWay_of_rest h rfl)
    | bulkhead =>
      have hProbe : Http.isProbePath r.path = false := by
        simpa [Interceptor.bypassesProbes] using hBypass
      exact keeps_bulkhead h hProbe
    | requestLogging =>
      have hRest := onTheWay_of_rest h rfl
      refine onTheWay_push ?_ rfl rfl hRest.placed
      exact hRest.balanced.of_gates rfl rfl
    | schemaValidation v =>
      have hRest := onTheWay_of_rest h rfl
      simp only [meet]
      cases v.check r with
      | accepted => exact ⟨hRest.balanced, hRest.placed⟩
      | rejected failure =>
        refine accounted_complete ?_ _
        exact hRest.balanced.note _
      | panicked payload =>
        refine accounted_complete ?_ _
        exact balanced_pastUnarmed hRest.balanced
    | errorTranslation translate =>
      have hRest := onTheWay_of_rest h rfl
      exact onTheWay_push hRest.balanced rfl rfl hRest.placed
    | mark label bypasses rejection =>
      have hRest := onTheWay_of_rest h rfl
      simp only [meet]
      cases rejection with
      | none => exact ⟨hRest.balanced, hRest.placed⟩
      | some failure =>
        refine accounted_complete ?_ _
        exact hRest.balanced

theorem accounted_enter {r : Http.Request} {stages : List Interceptor}
    (h : OnTheWay capacity? whole frames tickets f s r stages) :
    Accounted capacity? whole frames tickets (f.enter s r stages) := by
  refine enter_keeps keeps_pass ?_ f s r stages h
  intro f s r hDoor
  refine serves_accounted.arrive ⟨hDoor.balanced, ?_⟩ r
  have hPlaced := hDoor.placed
  simpa [slots, slotsAhead] using hPlaced

/-! ## At an instant -/

theorem accounted_pollActivity (h : Accounted capacity? whole frames tickets (s, f)) :
    Accounted capacity? whole frames tickets (f.pollActivity s) := by
  obtain ⟨hBalanced, hPlaced⟩ := h
  unfold Placed at hPlaced
  cases hActivity : f.activity with
  | queued ticket deadline scope rest r =>
    rw [pollActivity_queued hActivity]
    cases hGate : s.gates.bulkhead with
    | none => exact ⟨hBalanced, by simpa [Placed, hActivity] using hPlaced⟩
    | some b =>
      have hCapacity := hBalanced.capacity
      rw [hGate] at hCapacity
      rw [← hCapacity] at hPlaced ⊢
      simp only [hActivity] at hPlaced
      have hTickets : f.tickets = [ticket] := by
        simp [Flight.tickets, hActivity]
      have hBulkhead := hBalanced.bulkhead b hGate
      simp only [hTickets, List.singleton_append] at hBulkhead
      refine follow_keeps (fun f s r => accounted_enter) ?_
      exact keeps_look hBulkhead hBalanced.breaker hPlaced deadline scope
  | awaitingEnd | working =>
    refine serves_accounted.pollActivity ⟨?_, ?_⟩ (by rw [hActivity]; rfl)
    · simpa [Flight.tickets, hActivity] using hBalanced
    · simp only [hActivity] at hPlaced
      exact hPlaced
  | ended at_ completion =>
    simp only [pollActivity, hActivity]
    exact ⟨hBalanced, by simpa [Placed, hActivity] using hPlaced⟩
  | aborted =>
    simp only [pollActivity, hActivity]
    exact ⟨hBalanced, by simpa [Placed, hActivity] using hPlaced⟩

/-- What is given up with the wait of a request is its ticket. -/
theorem balanced_discardActivity
    (h : s.Balanced capacity? (f.frames ++ frames) (f.tickets ++ tickets)) :
    (f.discardActivity s).Balanced capacity? (f.frames ++ frames) tickets := by
  unfold Flight.tickets at h
  unfold discardActivity
  cases hActivity : f.activity with
  | queued ticket deadline scope rest r =>
    simp only [hActivity] at h
    exact Site.balanced_withdraw h
  | awaitingEnd | working | ended | aborted =>
    simp only [hActivity] at h
    exact h

theorem accounted_pollTimeouts (h : Accounted capacity? whole frames tickets (s, f)) :
    Accounted capacity? whole frames tickets (f.pollTimeouts s) := by
  unfold pollTimeouts
  cases hExpired : expired? s f.frames with
  | none => exact h
  | some e =>
    have hBalanced := balanced_discardActivity h.balanced
    simp only [expired?_split hExpired, List.append_assoc, List.cons_append] at hBalanced
    have hOuter := (Site.balanced_cons_iff rfl rfl).mp (balanced_discardAll hBalanced)
    refine accounted_reject ?_ _ _
    exact hOuter.of_gates rfl rfl

theorem accounted_poll (h : Accounted capacity? whole frames tickets (s, f)) :
    Accounted capacity? whole frames tickets (f.poll s) := by
  have hActivity := accounted_pollActivity h
  unfold poll
  simp only
  split
  · exact accounted_pollTimeouts hActivity
  · exact hActivity

theorem accounted_abort (h : Accounted capacity? whole frames tickets (s, f)) :
    Accounted capacity? whole frames tickets (f.abort s) := by
  unfold abort
  split
  · exact ⟨balanced_discardAll (balanced_discardActivity h.balanced), rfl⟩
  · exact h

end Flight

end Gatehouse.Pipeline
