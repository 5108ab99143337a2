import Gatehouse.Proofs.Breaker.Reading
import Gatehouse.Proofs.Pipeline.Assembly
import Gatehouse.Proofs.Pipeline.Custody
import Gatehouse.Proofs.Pipeline.Moves
import Gatehouse.Proofs.Pipeline.Service
import Mathlib.Algebra.BigOperators.Group.Multiset.Basic
import Mathlib.Logic.Relation

/-!
# How the calls of the breaker end

A request leaves its call of the breaker in one of three ways (`Departure`): the rest of the chain
has returned, a panic unwinds it, or the request is dropped. A call that is dropped is forgotten.
A call whose scope has ended is forgotten as well when the rest of the chain returns, whatever it
returns. A panic does not ask for the scope: it is a failure of the service in any case.

* `Use`: the ways in which requests use the breaker, and `uses_reachable`: there are no others.
* `breakerSeen_leave`: what the departure from a call with an ended scope lets others read.
* `ended_call_forgotten`: such a call is forgotten unless a panic unwinds it while its generation
  lasts.
-/

namespace Gatehouse.Pipeline

open Breaker (Admission CircuitBreaker Machine)

/-! ## Departures -/

/-- A call of the breaker that a request is in, and the scope of the request. -/
structure Call where
  admission : Admission
  scope : Scope
  deriving DecidableEq

def Call.frame (call : Call) : Frame := .call call.admission call.scope

/-- How the chain behind the breaker ends. -/
inductive Departure where
  | returned (outcome : Http.Outcome)
  | unwound (payload : Panic)
  | dropped

namespace Departure

/-- What is left of a site when a call ends. -/
def leave (s : Site) (call : Call) : Departure → Site
  | .returned o => (call.frame.rise s (.outcome o)).1
  | .unwound payload => (call.frame.rise s (.panic payload)).1
  | .dropped => call.frame.discard s

def isUnwound : Departure → Bool
  | .unwound _ => true
  | _ => false

end Departure

/-- What is seen of the breaker at an instant: its state and its counts. -/
def breakerSeen (s : Site) : Option (Breaker.State × Breaker.Counts) :=
  (Traffic.observe s).1.breaker

theorem breakerSeen_eq (s : Site) :
    breakerSeen s = s.gates.breaker.map fun b => b.reading s.now := by
  unfold breakerSeen Traffic.observe
  cases s.gates.breaker with
  | none => rfl
  | some b =>
    have hAgain := congrArg Prod.snd
      ((b.reading_after (b.machine.refresh s.now) s.now).trans
        (Machine.reading_refresh b.machine s.now))
    simp only [CircuitBreaker.state_eq, CircuitBreaker.counts_eq, Option.map_some]
    exact congrArg some (Prod.ext rfl hAgain)

theorem breakerSeen_onBreaker {s : Site} {b : CircuitBreaker} (hBreaker : s.gates.breaker = some b)
    (f : CircuitBreaker → CircuitBreaker × Journal) :
    breakerSeen (s.onBreaker f) = some ((f b).1.reading s.now) := by
  rw [breakerSeen_eq]
  unfold Site.onBreaker
  rw [hBreaker]
  rfl

/-- To drop a call does not show. -/
theorem breakerSeen_dropped (s : Site) (call : Call) :
    breakerSeen (Departure.dropped.leave s call) = breakerSeen s := by
  cases hBreaker : s.gates.breaker with
  | none =>
    simp [Departure.leave, Call.frame, Frame.discard, Site.onBreaker, hBreaker]
  | some b =>
    simp only [Departure.leave, Call.frame, Frame.discard]
    rw [breakerSeen_onBreaker hBreaker, CircuitBreaker.drop_eq, CircuitBreaker.reading_after,
      Machine.reading_abandon, breakerSeen_eq, hBreaker]
    rfl

/-- What is seen after the departure from a call whose scope has ended: nothing new, unless a panic
makes it a failure of the present generation. -/
theorem breakerSeen_leave {s : Site} {b : CircuitBreaker} (hBreaker : s.gates.breaker = some b)
    {call : Call} (hEnded : (s.cause? call.scope).isSome = true) (d : Departure) :
    breakerSeen (d.leave s call) =
      some (if d.isUnwound = true ∧
          call.admission.generation = (b.machine.refresh s.now).generation then
        (b.machine.record call.admission .failure s.now).reading s.now
      else b.reading s.now) := by
  cases d with
  | dropped =>
    rw [breakerSeen_dropped, breakerSeen_eq, hBreaker]
    rfl
  | returned o =>
    have hIgnored : Frame.verdict s b call.scope o = .ignored := if_pos hEnded
    simp only [Departure.leave, Call.frame, Frame.rise]
    rw [breakerSeen_onBreaker hBreaker, CircuitBreaker.record_eq, CircuitBreaker.reading_after,
      hIgnored, Machine.reading_record_ignored]
    rfl
  | unwound payload =>
    simp only [Departure.leave, Call.frame, Frame.rise, CircuitBreaker.dropPanicking]
    rw [breakerSeen_onBreaker hBreaker, CircuitBreaker.record_eq, CircuitBreaker.reading_after]
    by_cases hGeneration : call.admission.generation = (b.machine.refresh s.now).generation
    · rw [if_pos ⟨rfl, hGeneration⟩]
    · rw [if_neg fun h => hGeneration h.2, Machine.reading_record_of_ne hGeneration]
      rfl

/-! ## Uses -/

/-- The calls that some frames stand for. -/
def Frame.call? : Frame → Option Call
  | .call admission scope => some ⟨admission, scope⟩
  | _ => none

def callsOf (frames : List Frame) : Multiset Call := frames.filterMap Frame.call?

/-- The calls of a site after an answer of the breaker to a request with a certain scope. -/
def callsAfter (calls : Multiset Call) (scope : Scope) :
    Except Breaker.State Admission → Multiset Call
  | .ok admission => ⟨admission, scope⟩ ::ₘ calls
  | .error _ => calls

/-- One use of the breaker, together with the calls that requests are in. -/
inductive Use : Site × Multiset Call → Site × Multiset Call → Prop
  /-- Something else happens. -/
  | aside {s s' : Site} {calls : Multiset Call} (same : s'.gates.breaker = s.gates.breaker) :
      Use (s, calls) (s', calls)
  | observed (s : Site) (calls : Multiset Call) : Use (s, calls) ((Traffic.observe s).2, calls)
  /-- A request asks for a call. -/
  | asked {s : Site} {b : CircuitBreaker} (h : s.gates.breaker = some b) (scope : Scope)
      (calls : Multiset Call) :
      Use (s, calls)
        ((s.setBreaker (b.tryAcquire s.now).2.1).note (b.tryAcquire s.now).2.2,
          callsAfter calls scope (b.tryAcquire s.now).1)
  /-- A call ends. -/
  | left (s : Site) (call : Call) (d : Departure) (calls : Multiset Call) :
      Use (s, call ::ₘ calls) (d.leave s call, calls)

abbrev Uses : Site × Multiset Call → Site × Multiset Call → Prop := Relation.ReflTransGen Use

section Uses

variable {start : Site × Multiset Call} {s s' : Site} {calls : Multiset Call}

theorem Uses.aside (h : Uses start (s, calls)) (same : s'.gates.breaker = s.gates.breaker) :
    Uses start (s', calls) := h.tail (.aside same)

theorem Uses.left {call : Call} (h : Uses start (s, call ::ₘ calls)) (d : Departure) :
    Uses start (d.leave s call, calls) := h.tail (.left s call d calls)

theorem callsOf_cons_none {frame : Frame} (h : frame.call? = none) (frames : List Frame) :
    callsOf (frame :: frames) = callsOf frames := by
  simp [callsOf, h]

theorem callsOf_cons_call (admission : Admission) (scope : Scope) (frames : List Frame) :
    callsOf (.call admission scope :: frames) = ⟨admission, scope⟩ ::ₘ callsOf frames := rfl

theorem breaker_onBulkhead (s : Site) (f : Bulkhead → Bulkhead × Journal) :
    (s.onBulkhead f).gates.breaker = s.gates.breaker := by
  unfold Site.onBulkhead
  cases s.gates.bulkhead <;> rfl

/-! ### Frames -/

/-- Of the frames only calls have to do with the breaker. -/
theorem breaker_rise {frame : Frame} (h : frame.call? = none) (s : Site) (c : Completion) :
    (frame.rise s c).1.gates.breaker = s.gates.breaker := by
  cases frame with
  | call admission scope => cases h
  | slot => exact breaker_onBulkhead s _
  | recovery | timeout | logging => cases c <;> rfl
  | translation translate => rcases c with (response | failure) | payload <;> rfl

theorem breaker_discard {frame : Frame} (h : frame.call? = none) (s : Site) :
    (frame.discard s).gates.breaker = s.gates.breaker := by
  cases frame with
  | call admission scope => cases h
  | slot => exact breaker_onBulkhead s _
  | recovery | timeout | logging | translation => rfl

theorem frame_cases (frame : Frame) :
    frame.call? = none ∨ ∃ admission scope, frame = .call admission scope := by
  cases frame with
  | call admission scope => exact .inr ⟨admission, scope, rfl⟩
  | recovery | timeout | slot | logging | translation => exact .inl rfl

theorem uses_rise {frame : Frame} {frames : List Frame}
    (h : Uses start (s, callsOf (frame :: frames) + calls)) (c : Completion) :
    Uses start ((frame.rise s c).1, callsOf frames + calls) := by
  rcases frame_cases frame with hNone | ⟨admission, scope, rfl⟩
  · rw [callsOf_cons_none hNone] at h
    exact h.aside (breaker_rise hNone s c)
  · rw [callsOf_cons_call, Multiset.cons_add] at h
    cases c with
    | outcome o => exact h.left (.returned o)
    | panic payload => exact h.left (.unwound payload)

theorem uses_discard {frame : Frame} {frames : List Frame}
    (h : Uses start (s, callsOf (frame :: frames) + calls)) :
    Uses start (frame.discard s, callsOf frames + calls) := by
  rcases frame_cases frame with hNone | ⟨admission, scope, rfl⟩
  · rw [callsOf_cons_none hNone] at h
    exact h.aside (breaker_discard hNone s)
  · rw [callsOf_cons_call, Multiset.cons_add] at h
    exact h.left .dropped

theorem uses_ascend {frames : List Frame} (h : Uses start (s, callsOf frames + calls))
    (c : Completion) : Uses start ((ascend s c frames).1, calls) := by
  induction frames generalizing s c with
  | nil => simpa [callsOf, ascend] using h
  | cons frame frames ih => exact ih (uses_rise h c) _

theorem uses_discardAll {inner outer : List Frame}
    (h : Uses start (s, callsOf (inner ++ outer) + calls)) :
    Uses start (discardAll s inner, callsOf outer + calls) := by
  induction inner generalizing s with
  | nil => exact h
  | cons frame inner ih => exact ih (uses_discard h)

end Uses

namespace Flight

def calls (f : Flight) : Multiset Call := callsOf f.frames

/-- A request and the site that it leaves behind come from `start` by uses of the breaker, where
the others are in `calls`. -/
def Used (start : Site × Multiset Call) (calls : Multiset Call) (now : Site × Flight) : Prop :=
  Uses start (now.1, now.2.calls + calls)

variable {start : Site × Multiset Call} {calls : Multiset Call} {f : Flight} {s s' : Site}

theorem Used.aside (h : Used start calls (s, f)) (same : s'.gates.breaker = s.gates.breaker) :
    Used start calls (s', f) := Uses.aside h same

theorem used_complete (h : Used start calls (s, f)) (c : Completion) :
    Used start calls (f.complete s c) := by
  have hEnd := uses_ascend h c
  simpa [Used, complete, Flight.calls, callsOf] using hEnd

theorem used_reject (h : Used start calls (s, f)) (failure : Failure) (event : Entry) :
    Used start calls (f.reject s failure event) := by
  refine used_complete ?_ _
  exact h.aside rfl

theorem serves_used :
    Serves (fun s inner => Uses start (s, callsOf inner + calls)) (Used start calls) where
  ends := fun c h => used_complete h c
  waits := fun _ h => h
  aside := fun hGates _ h => h.aside (by rw [hGates])

theorem used_push (h : Used start calls (s, f)) {frame : Frame} (hNone : frame.call? = none) :
    Used start calls (s, f.push frame) := by
  unfold Used at h ⊢
  simpa only [Flight.calls, push, callsOf_cons_none hNone] using h

/-- A panic that is not caught does not come from a call of the breaker. -/
theorem used_pastUnarmed (h : Used start calls (s, f)) :
    Used start calls (s, { f with frames := pastUnarmed f.frames }) := by
  have hCalls : callsOf (pastUnarmed f.frames) = callsOf f.frames := by
    generalize f.frames = frames
    unfold pastUnarmed
    split
    · exact (callsOf_cons_none (by rfl) _).symm
    · rfl
  unfold Used Flight.calls at h ⊢
  rwa [hCalls]

/-! ## On the way inwards -/

/-- A request with some stages ahead of it. -/
def Inbound (start : Site × Multiset Call) (calls : Multiset Call) (f : Flight) (s : Site)
    (_ : Http.Request) (_ : List Interceptor) : Prop := Used start calls (s, f)

theorem used_look (h : Used start calls (s, f)) (b : Bulkhead) (ticket deadline : Nat)
    (scope : Scope) (rest : List Interceptor) (r : Http.Request) :
    (f.look s b ticket deadline scope rest r).Keeps (Inbound start calls) (Used start calls)
      rest := by
  unfold look
  generalize b.poll ticket deadline s.now (s.cancelled? scope) = polled
  obtain ⟨progress, b', journal⟩ := polled
  have hAfter : Used start calls ((s.setBulkhead b').note journal, f) := h.aside rfl
  cases progress with
  | waits => exact hAfter
  | holds => exact used_push hAfter rfl
  | refused reason =>
    cases reason with
    | full capacity => exact used_reject hAfter _ _
    | ended cause => exact used_complete hAfter _

/-- The breaker is asked at its stage, and a call that it grants is one more frame. -/
theorem used_circuitBreaker (h : Used start calls (s, f)) (r : Http.Request)
    (rest : List Interceptor) :
    (f.meetGate s r rest .circuitBreaker).Keeps (Inbound start calls) (Used start calls) rest := by
  simp only [meetGate]
  cases hBreaker : s.gates.breaker with
  | none => exact h
  | some b =>
    have hGates : (s.scopeOf r).2.gates.breaker = some b := by rw [Site.gates_scopeOf, hBreaker]
    have hScope : Used start calls ((s.scopeOf r).2, f) := h.aside (hGates.trans hBreaker.symm)
    have hAsked := Relation.ReflTransGen.tail hScope (.asked hGates (s.scopeOf r).1 _)
    revert hAsked
    simp only
    generalize b.tryAcquire (s.scopeOf r).2.now = tried
    obtain ⟨answer, b', journal⟩ := tried
    intro hAsked
    cases answer with
    | ok admission =>
      simp only [callsAfter] at hAsked
      rw [← Multiset.cons_add] at hAsked
      exact hAsked
    | error state => exact used_reject hAsked _ _

theorem used_pass (f : Flight) (s : Site) (r : Http.Request) (stage : Interceptor)
    (rest : List Interceptor) (h : Inbound start calls f s r (stage :: rest)) :
    (f.pass s r stage rest).Keeps (Inbound start calls) (Used start calls) rest := by
  have hScope : Used start calls ((s.scopeOf r).2, f) := Used.aside h (by rw [Site.gates_scopeOf])
  unfold pass
  split
  · exact h
  · cases stage with
    | panicRecovery => exact used_push h rfl
    | timeout limit =>
      refine used_push ?_ rfl
      exact hScope.aside rfl
    | rateLimit =>
      simp only [meet, meetGate]
      cases s.gates.limiter with
      | none => exact h
      | some l =>
        simp only
        split
        · exact Used.aside h rfl
        · refine used_reject ?_ _ _
          exact Used.aside h rfl
    | circuitBreaker => exact used_circuitBreaker h r rest
    | bulkhead =>
      simp only [meet, meetGate]
      cases s.gates.bulkhead with
      | none => exact h
      | some b => exact used_look hScope _ _ _ _ rest r
    | requestLogging =>
      refine used_push ?_ rfl
      exact Used.aside h rfl
    | schemaValidation v =>
      simp only [meet]
      cases v.check r with
      | accepted => exact h
      | rejected failure =>
        refine used_complete ?_ _
        exact Used.aside h rfl
      | panicked payload =>
        refine used_complete ?_ _
        exact used_pastUnarmed h
    | errorTranslation translate => exact used_push h rfl
    | mark label bypasses rejection =>
      simp only [meet]
      cases rejection with
      | none => exact h
      | some failure => exact used_complete h _

theorem used_enter (h : Used start calls (s, f)) (r : Http.Request) (stages : List Interceptor) :
    Used start calls (f.enter s r stages) :=
  enter_keeps used_pass (fun _ _ r hDoor => serves_used.arrive hDoor r) f s r stages h

/-! ## At an instant -/

theorem used_pollActivity (h : Used start calls (s, f)) : Used start calls (f.pollActivity s) := by
  cases hActivity : f.activity with
  | queued ticket deadline scope rest r =>
    rw [pollActivity_queued hActivity]
    cases s.gates.bulkhead with
    | none => exact h
    | some b =>
      have hEnter : ∀ f s r, Inbound start calls f s r rest → Used start calls (f.enter s r rest) :=
        fun _ _ r hInbound => used_enter hInbound r rest
      exact follow_keeps hEnter (used_look h b ticket deadline scope rest r)
  | awaitingEnd | working => exact serves_used.pollActivity h (by rw [hActivity]; rfl)
  | ended | aborted =>
    simp only [pollActivity, hActivity]
    exact h

theorem breaker_discardActivity (f : Flight) (s : Site) :
    (f.discardActivity s).gates.breaker = s.gates.breaker := by
  unfold discardActivity
  split
  · exact breaker_onBulkhead s _
  · rfl

/-- A timeout drops what is inside of it. -/
theorem used_pollTimeouts (h : Used start calls (s, f)) : Used start calls (f.pollTimeouts s) := by
  unfold pollTimeouts
  cases hExpired : expired? s f.frames with
  | none => exact h
  | some e =>
    have hDropped : Used start calls (f.discardActivity s, f) :=
      h.aside (breaker_discardActivity f s)
    unfold Used Flight.calls at hDropped
    rw [expired?_split hExpired] at hDropped
    have hOuter := uses_discardAll hDropped
    rw [callsOf_cons_none rfl] at hOuter
    refine used_reject ?_ _ _
    exact hOuter.aside rfl

theorem used_poll (h : Used start calls (s, f)) : Used start calls (f.poll s) := by
  have hActivity := used_pollActivity h
  unfold poll
  simp only
  split
  · exact used_pollTimeouts hActivity
  · exact hActivity

theorem used_abort (h : Used start calls (s, f)) : Used start calls (f.abort s) := by
  unfold abort
  split
  · have hDropped : Used start calls (f.discardActivity s, f) :=
      h.aside (breaker_discardActivity f s)
    unfold Used Flight.calls at hDropped
    rw [← List.append_nil f.frames] at hDropped
    exact uses_discardAll hDropped
  · exact h

end Flight

/-! ## Traffic -/

namespace Traffic

/-- The calls that all requests are in. -/
def calls (t : Traffic) : Multiset Call := (t.flights.map Flight.calls).sum

variable {start : Site × Multiset Call} {t : Traffic}

/-- One request beside the others. -/
theorem exists_others {flights : List Flight} {i : Nat} {f : Flight} (hf : flights[i]? = some f) :
    ∃ others : Multiset Call, ∀ f' : Flight,
      ((flights.set i f').map Flight.calls).sum = f'.calls + others := by
  obtain ⟨hLt, -⟩ := List.getElem?_eq_some_iff.mp hf
  refine ⟨((flights.take i).map Flight.calls).sum + ((flights.drop (i + 1)).map Flight.calls).sum,
    fun f' => ?_⟩
  rw [List.set_eq_take_append_cons_drop, if_pos hLt, List.map_append, List.map_cons,
    List.sum_append, List.sum_cons]
  exact add_left_comm _ _ _

theorem uses_onFlight (h : Uses start (t.site, t.calls)) {op : Flight → Site → Site × Flight}
    (hOp : ∀ {calls : Multiset Call} {f : Flight} {s : Site}, Flight.Used start calls (s, f) →
      Flight.Used start calls (op f s)) (i : Nat) :
    Uses start ((t.onFlight i op).site, (t.onFlight i op).calls) := by
  unfold onFlight
  cases hFlight : t.flights[i]? with
  | none => exact h
  | some f =>
    obtain ⟨others, hOthers⟩ := exists_others hFlight
    have hSame : t.flights.set i f = t.flights := by
      obtain ⟨hLt, hGet⟩ := List.getElem?_eq_some_iff.mp hFlight
      rw [← hGet, List.set_getElem_self]
    have hBefore : Flight.Used start others (t.site, f) := by
      have hSum := hOthers f
      rw [hSame] at hSum
      unfold Flight.Used
      rw [← hSum]
      exact h
    have hAfter := hOp hBefore
    unfold Flight.Used at hAfter
    rw [← hOthers] at hAfter
    exact hAfter

/-- The step lemma: a move uses the breaker in no other way. -/
theorem uses_move (h : Uses start (t.site, t.calls)) (m : Move) :
    Uses start ((t.move m).site, (t.move m).calls) := by
  cases m with
  | clock now => exact h.aside rfl
  | calendar moment => exact h.aside rfl
  | scope command => exact h.aside rfl
  | readiness command => exact h.aside rfl
  | observe => exact h.tail (.observed t.site t.calls)
  | send id r plan =>
    have hNew : Flight.Used start t.calls
        (t.site, ⟨id, t.edge, r.method, plan, [], none, [], .aborted⟩) := by
      simpa [Flight.Used, Flight.calls, callsOf] using h
    have hEnter := Flight.used_enter hNew r t.interceptors
    unfold Flight.Used at hEnter
    simp only [move, send, calls, List.map_append, List.map_cons, List.map_nil, List.sum_append,
      List.sum_singleton]
    rw [add_comm]
    exact hEnter
  | poll i => exact uses_onFlight h Flight.used_poll i
  | abort i => exact uses_onFlight h Flight.used_abort i

end Traffic

/-- The run lemma. -/
theorem uses_reachable {start t : Traffic} {sent : List Http.Request}
    (h : Reachable start sent t) : Uses (start.site, start.calls) (t.site, t.calls) := by
  induction h with
  | start => exact .refl
  | move h m ih => exact Traffic.uses_move ih m

/-- Requests use the breaker of their pipeline in no other ways than by asking for calls and by
leaving them. Whoever leaves a call while its scope has ended leaves the state and the counts as
if the call had been dropped, unless a panic unwinds the call while its generation lasts. That
panic is counted: where the breaker is closed and the window of the call has not ended, it shows. -/
theorem ended_call_forgotten {p : Pipeline} {edge : Edge} {site : Site} {sent : List Http.Request}
    {t : Traffic} (h : Reachable (.create p edge site) sent t) :
    Uses (site, 0) (t.site, t.calls) ∧
    ∀ (s : Site) (b : CircuitBreaker) (call : Call) (d : Departure),
      s.gates.breaker = some b → (s.cause? call.scope).isSome = true →
      let m := b.machine
      let counted := d.isUnwound = true ∧
        call.admission.generation = (m.refresh s.now).generation
      (¬ counted → breakerSeen (d.leave s call) = breakerSeen (Departure.dropped.leave s call)) ∧
      (counted → m.state = .closed → m.expired s.now = false →
        breakerSeen (d.leave s call) ≠ breakerSeen (Departure.dropped.leave s call)) := by
  refine ⟨uses_reachable h, ?_⟩
  intro s b call d hBreaker hEnded m counted
  have hDropped : breakerSeen (Departure.dropped.leave s call) = some (b.reading s.now) := by
    rw [breakerSeen_dropped, breakerSeen_eq, hBreaker]
    rfl
  have hLeft := breakerSeen_leave hBreaker hEnded d
  rw [hDropped, hLeft]
  constructor
  · intro hNot
    rw [if_neg hNot]
  · intro hCounted hClosed hWindow hSame
    rw [if_pos hCounted] at hSame
    have hGeneration := hCounted.2
    rw [Machine.refresh_of_not_expired hWindow] at hGeneration
    exact Machine.reading_record_failure_ne hClosed hWindow hGeneration (Option.some.inj hSame)

/-- A breaker that opens at the first failure. -/
def brittle : Site :=
  .create ⟨none, some (.create "orders" ⟨1, 1000, 1, none⟩ 0), none⟩ .standalone

def brittleStages : List Interceptor := [.panicRecovery, .circuitBreaker]

/-- A request whose scope is cancelled while its handler, which is about to panic, is at work. -/
def lostCause : Traffic :=
  [Move.scope (.create "s"),
    .send "a" ⟨"GET", "/orders", [], some ⟨⟨0, []⟩, none⟩, none⟩
      ⟨false, false, 3, false, .panic .other⟩,
    .clock 3, .scope (.cancel "s")].foldl Traffic.move ⟨brittleStages, .direct, brittle, []⟩

/-- The call that it is in. -/
def lostCall : Call := ⟨⟨1, false⟩, ⟨⟨0, []⟩, none⟩⟩

theorem reachable_lostCause :
    Reachable (.create (.build (brittleStages.map brittle.gates.register)) .direct brittle)
      [⟨"GET", "/orders", [], some ⟨⟨0, []⟩, none⟩, none⟩] lostCause := by
  have hStages : (Pipeline.build (brittleStages.map brittle.gates.register)).interceptors =
      brittleStages := interceptors_build_of_pairwise brittle.gates (by decide)
  unfold Traffic.create
  rw [hStages]
  exact (((Reachable.start.move (.scope (.create "s"))).move (.send "a" _ _)).move (.clock 3)).move
    (.scope (.cancel "s"))

/-- The breaker of the run, closed and with one request under way. -/
theorem machine_lostCause :
    lostCause.site.gates.breaker.map (·.machine) =
      some ⟨⟨1, 1000, 1, none⟩, .closed, 1, ⟨1, 0, 0, 0, 0⟩, none, 0, []⟩ := by
  decide +kernel

theorem ended_call_forgotten_lost_cause :
    (∀ o, breakerSeen ((Departure.returned o).leave lostCause.site lostCall) =
      breakerSeen (Departure.dropped.leave lostCause.site lostCall)) ∧
    ∀ payload, breakerSeen ((Departure.unwound payload).leave lostCause.site lostCall) ≠
      breakerSeen (Departure.dropped.leave lostCause.site lostCall) := by
  obtain ⟨-, hLeave⟩ := ended_call_forgotten reachable_lostCause
  obtain ⟨b, hBreaker, hMachine⟩ := Option.map_eq_some_iff.mp machine_lostCause
  have hEnded : (lostCause.site.cause? lostCall.scope).isSome = true := by decide +kernel
  constructor
  · intro o
    refine (hLeave lostCause.site b lostCall (.returned o) hBreaker hEnded).1 ?_
    rintro ⟨hUnwound, -⟩
    cases hUnwound
  · intro payload
    refine (hLeave lostCause.site b lostCall (.unwound payload) hBreaker hEnded).2 ?_ ?_ ?_
    · refine ⟨rfl, ?_⟩
      rw [hMachine]
      rfl
    · rw [hMachine]
    · rw [hMachine]
      rfl

/-- A request whose scope has ended may open the breaker; dropped, it would have left it closed. -/
theorem not_always_forgotten :
    (¬ ∀ (p : Pipeline) (edge : Edge) (site : Site) (sent : List Http.Request) (t : Traffic),
      Reachable (.create p edge site) sent t → ∀ call ∈ t.calls,
        (t.site.cause? call.scope).isSome = true → ∀ d : Departure,
          breakerSeen (d.leave t.site call) =
            breakerSeen (Departure.dropped.leave t.site call)) ∧
    breakerSeen (lostCause.move (.poll 0)).site = some (.opened, .zero) ∧
    breakerSeen (lostCause.move (.abort 0)).site = some (.closed, ⟨1, 0, 0, 0, 0⟩) := by
  refine ⟨fun hAlways => ?_, by decide +kernel, by decide +kernel⟩
  have hSame := hAlways _ _ _ _ _ reachable_lostCause lostCall (by decide +kernel)
    (by decide +kernel) (.unwound .other)
  revert hSame
  decide +kernel

end Gatehouse.Pipeline
