import Gatehouse.Proofs.Pipeline.Agreement

/-!
# A request inside of further stages

The stages that a request is inside of have no part in its way further in. A request goes its way
as it would alone, with the same effects on what all requests share; only what it comes to in the
end is handed on to the stages outside, instead of to its caller. A timeout that is outside has a
look once the request has had its own.

* `Enclosed`: a request alone, and the same one inside of further stages.
* `enclosed_enter`, `enclosed_pollActivity`: they stay together.
* `expired?_append`: the innermost timeout that has ended, inside or else outside.
* `Flight.poll_within`: what a look at a request inside of further stages comes to.
-/

namespace Gatehouse.Pipeline

/-- A request inside of further stages. -/
def Flight.within (f : Flight) (outer : List Frame) : Flight :=
  { f with frames := f.frames ++ outer }

/-- What a request alone has come to, and the same request inside of further stages: both wait for
the same, or it has ended and the stages outside are told so. -/
inductive Enclosed (outer : List Frame) : Site × Flight → Site × Flight → Prop
  | waits {s : Site} {g : Flight} (hPending : g.isPending = true) :
      Enclosed outer (s, g) (s, g.within outer)
  | ends (s : Site) (g : Flight) (c : Completion) :
      Enclosed outer (Flight.complete { g with frames := [] } s c)
        (Flight.complete { g with frames := outer } s c)

theorem ascend_append (s : Site) (c : Completion) (inner outer : List Frame) :
    ascend s c (inner ++ outer) = ascend (ascend s c inner).1 (ascend s c inner).2 outer := by
  induction inner generalizing s c with
  | nil => rfl
  | cons frame inner ih => exact ih _ _

/-- The stages outside are not the innermost recovery, which does not see a panic on the way in. -/
def Armed : List Frame → Prop
  | .recovery _ _ :: _ => False
  | _ => True

theorem pastUnarmed_append {outer : List Frame} (h : Armed outer) (inner : List Frame) :
    pastUnarmed (inner ++ outer) = pastUnarmed inner ++ outer := by
  cases inner with
  | nil =>
    cases outer with
    | nil => rfl
    | cons frame outer =>
      cases frame with
      | recovery => cases h
      | timeout | call | slot | logging | translation => rfl
  | cons frame inner => cases frame <;> rfl

namespace Flight

variable {outer : List Frame} {s : Site} {g : Flight} {r : Http.Request} {rest : List Interceptor}

theorem enclosed_complete (g : Flight) (s : Site) (c : Completion) :
    Enclosed outer (g.complete s c) ((g.within outer).complete s c) := by
  have hEnds : Enclosed outer
      (Flight.complete { g with frames := [] } (ascend s c g.frames).1 (ascend s c g.frames).2)
      (Flight.complete { g with frames := outer } (ascend s c g.frames).1
        (ascend s c g.frames).2) := .ends _ _ _
  simpa only [complete, within, ascend_append, ascend] using hEnds

theorem enclosed_reject (g : Flight) (s : Site) (failure : Failure) (event : Entry) :
    Enclosed outer (g.reject s failure event) ((g.within outer).reject s failure event) :=
  enclosed_complete g _ _

/-! ## In its handler -/

theorem enclosed_finishWork (g : Flight) (s : Site) (scope : Scope) :
    Enclosed outer (g.finishWork s scope) ((g.within outer).finishWork s scope) :=
  enclosed_complete g _ _

theorem enclosed_beginWork (g : Flight) (s : Site) (scope : Scope) :
    Enclosed outer (g.beginWork s scope) ((g.within outer).beginWork s scope) := by
  by_cases hDone : g.plan.duration = 0
  · simp only [beginWork, within, hDone, if_true]
    exact enclosed_finishWork g s scope
  · simp only [beginWork, within, hDone, if_false]
    exact Enclosed.waits (g := { g with activity := .working _ scope }) rfl

theorem enclosed_awaitEnd (g : Flight) (s : Site) (scope : Scope) :
    Enclosed outer (g.awaitEnd s scope) ((g.within outer).awaitEnd s scope) := by
  unfold awaitEnd
  cases s.cancelled? scope with
  | none => exact Enclosed.waits (g := { g with activity := .awaitingEnd scope }) rfl
  | some cause =>
    by_cases hFails : g.plan.failsWithCause = true
    · simp only [within, hFails, if_true]
      exact enclosed_complete g s _
    · simp only [within, hFails, if_false, Bool.false_eq_true]
      exact enclosed_beginWork g s scope

theorem enclosed_handle (g : Flight) (s : Site) (r : Http.Request) :
    Enclosed outer (g.handle s r) ((g.within outer).handle s r) := by
  by_cases hWaits : g.plan.awaitsEnd = true
  · simp only [handle, marked, within, hWaits, if_true]
    exact enclosed_awaitEnd _ _ _
  · simp only [handle, marked, within, hWaits, if_false, Bool.false_eq_true]
    exact enclosed_beginWork _ _ _

theorem enclosed_arrive (g : Flight) (s : Site) (r : Http.Request) :
    Enclosed outer (g.arrive s r) ((g.within outer).arrive s r) := by
  have hEdge : (g.within outer).edge = g.edge := rfl
  unfold arrive
  rw [hEdge]
  split
  · split
    · exact enclosed_handle g s r
    · exact enclosed_complete g s _
    · exact enclosed_complete g _ _
    · exact enclosed_complete g s _
    · exact enclosed_complete g s _
  · exact enclosed_handle g s r

end Flight

/-! ## On its way in -/

/-- The same for a request inside of further stages. -/
def Passage.within (outer : List Frame) : Passage → Passage
  | .inwards f s r => .inwards (f.within outer) s r
  | .waits f s => .waits (f.within outer) s
  | .rejected f s failure event => .rejected (f.within outer) s failure event
  | .ends f s c => .ends (f.within outer) s c
  | .lost f s cause => .lost (f.within outer) s cause

namespace Flight

variable {outer : List Frame}

theorem look_within (g : Flight) (s : Site) (b : Bulkhead) (ticket deadline : Nat) (scope : Scope)
    (rest : List Interceptor) (r : Http.Request) :
    (g.within outer).look s b ticket deadline scope rest r =
      (g.look s b ticket deadline scope rest r).within outer := by
  unfold look
  dsimp only
  split <;> rfl

theorem meetGate_within (g : Flight) (s : Site) (r : Http.Request) (rest : List Interceptor)
    (gate : Interceptor) :
    (g.within outer).meetGate s r rest gate = (g.meetGate s r rest gate).within outer := by
  unfold meetGate
  split
  · split
    · rfl
    · dsimp only
      split <;> rfl
  · split
    · rfl
    · dsimp only
      split <;> rfl
  · split
    · rfl
    · exact look_within ..
  · rfl

theorem pass_within (hArmed : Armed outer) (g : Flight) (s : Site) (r : Http.Request)
    (stage : Interceptor) (rest : List Interceptor) :
    (g.within outer).pass s r stage rest = (g.pass s r stage rest).within outer := by
  unfold pass
  split
  · rfl
  · cases stage with
    | panicRecovery | timeout | requestLogging | errorTranslation => rfl
    | rateLimit => exact meetGate_within g s r rest .rateLimit
    | circuitBreaker => exact meetGate_within g s r rest .circuitBreaker
    | bulkhead => exact meetGate_within g s r rest .bulkhead
    | schemaValidation v =>
      simp only [meet]
      cases v.check r with
      | accepted | rejected => rfl
      | panicked payload =>
        simp only [within, marked, pastUnarmed_append hArmed]
        rfl
    | mark label bypasses rejection => cases rejection <;> rfl

/-- Who waits on the way in is in line for a slot. -/
theorem pending_of_waits {g f : Flight} {s s' : Site} {r : Http.Request} {stage : Interceptor}
    {rest : List Interceptor} (h : g.pass s r stage rest = .waits f s') : f.isPending = true := by
  unfold pass at h
  split at h
  · cases h
  · cases stage with
    | panicRecovery | timeout | requestLogging | errorTranslation => cases h
    | schemaValidation v =>
      simp only [meet] at h
      split at h <;> cases h
    | mark label bypasses rejection => cases rejection <;> cases h
    | rateLimit =>
      simp only [meet, meetGate] at h
      split at h
      · cases h
      · split at h <;> cases h
    | circuitBreaker =>
      simp only [meet, meetGate] at h
      split at h
      · cases h
      · split at h <;> cases h
    | bulkhead =>
      simp only [meet, meetGate, look] at h
      split at h
      · cases h
      · split at h <;> cases h
        rfl

theorem enclosed_follow {passage : Passage} {rest : List Interceptor}
    (hWaits : ∀ f s, passage = .waits f s → f.isPending = true)
    (hEnter : ∀ (f : Flight) s r,
      Enclosed outer (f.enter s r rest) ((f.within outer).enter s r rest)) :
    Enclosed outer (passage.follow rest) ((passage.within outer).follow rest) := by
  cases passage with
  | inwards f s r => exact hEnter f s r
  | waits f s => exact .waits (hWaits f s rfl)
  | rejected f s failure event => exact enclosed_reject f s failure event
  | ends f s c => exact enclosed_complete f s c
  | lost f s cause => exact enclosed_complete f s _

theorem enclosed_enter (hArmed : Armed outer) (g : Flight) (s : Site) (r : Http.Request)
    (stages : List Interceptor) :
    Enclosed outer (g.enter s r stages) ((g.within outer).enter s r stages) := by
  induction stages generalizing g s r with
  | nil =>
    rw [enter_nil, enter_nil]
    exact enclosed_arrive g s r
  | cons stage rest ih =>
    rw [enter_cons, enter_cons, pass_within hArmed]
    exact enclosed_follow (fun f s h => pending_of_waits h) ih

/-! ## Looked at -/

theorem enclosed_pollActivity (hArmed : Armed outer) {g : Flight} (hPending : g.isPending = true)
    (s : Site) : Enclosed outer (g.pollActivity s) ((g.within outer).pollActivity s) := by
  have hActivity : (g.within outer).activity = g.activity := rfl
  cases hNow : g.activity with
  | queued ticket deadline scope rest r =>
    rw [pollActivity_queued hNow, pollActivity_queued (hActivity.trans hNow)]
    cases s.gates.bulkhead with
    | none => exact .waits hPending
    | some b =>
      dsimp only
      rw [look_within]
      refine enclosed_follow ?_ fun f s r => enclosed_enter hArmed f s r rest
      intro f s' hWaits
      unfold look at hWaits
      dsimp only at hWaits
      split at hWaits <;> cases hWaits
      rfl
  | awaitingEnd scope =>
    simp only [pollActivity, hActivity, hNow]
    exact enclosed_awaitEnd g s scope
  | working done scope =>
    simp only [pollActivity, hActivity, hNow]
    split
    · exact enclosed_finishWork g s scope
    · exact .waits hPending
  | ended | aborted =>
    simp [isPending, hNow] at hPending

/-! ### Timeouts -/

/-- A timeout ends the request: what is inside of it is dropped, its scope is cancelled, and the
stages outside are told the cause. -/
def expire (f : Flight) (s : Site) (e : Expired) : Site × Flight :=
  { f with frames := e.outer }.reject
    ((discardAll (f.discardActivity s) e.inner).cancel e.scope) (.ofCause e.cause)
    (.debug "Request ended before handler finished"
      [("timeout_ms", .number (Duration.toMillis e.limit)), ("cause", .text e.cause.message)])

theorem pollTimeouts_eq (f : Flight) (s : Site) :
    f.pollTimeouts s =
      match expired? s f.frames with
      | none => (s, f)
      | some e => f.expire s e := rfl

end Flight

/-- A timeout that has ended itself, with the frames outside. -/
def Frame.ended? (s : Site) (outer : List Frame) : Frame → Option Expired
  | .timeout limit scope => (s.cause? scope).map fun cause => ⟨[], limit, scope, cause, outer⟩
  | _ => none

def Expired.inward (inner : List Frame) (e : Expired) : Expired :=
  { e with inner := inner ++ e.inner }

def Expired.outward (outer : List Frame) (e : Expired) : Expired :=
  { e with outer := e.outer ++ outer }

theorem expired?_cons (s : Site) (frame : Frame) (outer : List Frame) :
    expired? s (frame :: outer) =
      (frame.ended? s outer).or ((expired? s outer).map (.inward [frame])) := by
  cases frame with
  | timeout limit scope =>
    simp only [expired?, Frame.ended?, Site.cancelled?_eq_cause?]
    cases s.cause? scope <;> rfl
  | recovery | call | slot | logging | translation => rfl

/-- The innermost timeout that has ended is inside, or else it is outside. -/
theorem expired?_append (s : Site) (inner outer : List Frame) :
    expired? s (inner ++ outer) =
      ((expired? s inner).map (.outward outer)).or ((expired? s outer).map (.inward inner)) := by
  induction inner with
  | nil =>
    rw [List.nil_append]
    cases hOuter : expired? s outer <;> rfl
  | cons frame inner ih =>
    have hHere : frame.ended? s (inner ++ outer) = (frame.ended? s inner).map (.outward outer) := by
      cases frame with
      | timeout limit scope =>
        simp only [Frame.ended?]
        cases s.cause? scope <;> rfl
      | recovery | call | slot | logging | translation => rfl
    rw [List.cons_append, expired?_cons, expired?_cons, ih, hHere]
    cases frame.ended? s inner <;> cases expired? s inner <;> cases expired? s outer <;> rfl

namespace Flight

variable {outer : List Frame} {g : Flight}

/-- A look at a request inside of further stages: if the request alone has ended, the stages
outside are told so, and if it waits, it is the turn of the timeouts outside. -/
theorem poll_within (hArmed : Armed outer) (hPending : g.isPending = true) (s : Site) :
    ((g.poll s).2.isPending = false → Enclosed outer (g.poll s) ((g.within outer).poll s)) ∧
    ((g.poll s).2.isPending = true → (g.within outer).poll s =
      match expired? (g.poll s).1 outer with
      | none => ((g.poll s).1, (g.poll s).2.within outer)
      | some e => ((g.poll s).2.within outer).expire (g.poll s).1
          (e.inward (g.poll s).2.frames)) := by
  have hActivity := enclosed_pollActivity hArmed hPending s
  unfold poll
  dsimp only
  generalize g.pollActivity s = alone at hActivity
  generalize (g.within outer).pollActivity s = whole at hActivity
  cases hActivity with
  | ends s' g' c =>
    exact ⟨fun _ => .ends s' g' c, nofun⟩
  | @waits s' g' hStill =>
    have hFrames : (g'.within outer).frames = g'.frames ++ outer := rfl
    have hWithin : (g'.within outer).isPending = true := hStill
    simp only [hStill, hWithin, if_true, pollTimeouts_eq, hFrames, expired?_append]
    cases expired? s' g'.frames with
    | none =>
      refine ⟨fun hEnded => ?_, fun _ => ?_⟩
      · rw [hStill] at hEnded
        cases hEnded
      · cases expired? s' outer <;> rfl
    | some e =>
      refine ⟨fun _ => ?_, nofun⟩
      exact enclosed_reject { g' with frames := e.outer } _ _ _

end Flight

end Gatehouse.Pipeline
