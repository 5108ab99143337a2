import Gatehouse.Proofs.Pipeline.Bills
import Gatehouse.Proofs.Pipeline.Occupancy
import Gatehouse.Proofs.Pipeline.Places

/-!
# Requests that are turned away

A stage turns a request away with a failure: a gate because it has nothing to give, the check of a
service because the request is not in order, or the bulkhead because the scope of the request has
ended in line. The failure then goes back through the stages that the request came through. None of
this reaches a handler, and the gates further in are not asked. On its way back from the bulkhead
the failure passes the breaker, which forgets the call.

* `TurnedAway`, `Traffic.TurnsAway`: which requests are turned away by a move, and where.
* `turned_enter`: the way inwards ends there, with everything further in as it was.
* `Flight.InLine`, `orderly_reachable`: a request in line is inside of the stages before the
  bulkhead.
* `turned_away_cleanly`: for all traffic through a pipeline of usual stages.
-/

namespace Gatehouse.Pipeline

open Breaker (Admission CircuitBreaker)

/-! ## Where a request is turned away -/

/-- A stage has turned a request away. The failure has not gone back yet. -/
structure TurnedAway where
  stage : Interceptor
  flight : Flight
  site : Site
  failure : Failure

/-- What is left when the failure has gone back. -/
def TurnedAway.answer (w : TurnedAway) : Site × Flight :=
  w.flight.complete w.site (.outcome (.error w.failure))

/-- Whether a request is turned away at a stage, or `further` in. -/
def Passage.turned? (stage : Interceptor)
    (further : Flight → Site → Http.Request → Option TurnedAway) : Passage → Option TurnedAway
  | .inwards f s r => further f s r
  | .rejected f s failure event => some ⟨stage, f, s.note (rejection event failure), failure⟩
  | .lost f s cause => some ⟨stage, f, s, .ofCause cause⟩
  | .ends f s (.outcome (.error failure)) => some ⟨stage, f, s, failure⟩
  | .ends _ _ _ => none
  | .waits _ _ => none

namespace Flight

/-- Whether a request is turned away by one of the stages ahead of it. -/
def turned? (f : Flight) (s : Site) (r : Http.Request) : List Interceptor → Option TurnedAway
  | [] => none
  | stage :: rest => (f.pass s r stage rest).turned? stage fun f s r => f.turned? s r rest

/-- Whether a request in line is turned away when it is looked at. -/
def turnedInLine? (f : Flight) (s : Site) : Option TurnedAway :=
  match f.activity, s.gates.bulkhead with
  | .queued ticket deadline scope rest r, some b =>
    (f.look s b ticket deadline scope rest r).turned? .bulkhead fun f s r => f.turned? s r rest
  | _, _ => none

/-- A request that has met no stage yet. -/
def initial (id : String) (edge : Edge) (r : Http.Request) (plan : HandlerPlan) : Flight :=
  ⟨id, edge, r.method, plan, [], none, [], .aborted⟩

end Flight

/-- A move turns the request at an index away. -/
inductive Traffic.TurnsAway (t : Traffic) : Move → Nat → TurnedAway → Prop
  /-- It is sent, and a stage does not let it in. -/
  | sent {id : String} {r : Http.Request} {plan : HandlerPlan} {w : TurnedAway}
      (h : (Flight.initial id t.edge r plan).turned? t.site r t.interceptors = some w) :
      t.TurnsAway (.send id r plan) t.flights.length w
  /-- Its wait for a slot is over, and it has none, or it has one and is turned away further in. -/
  | inLine {i : Nat} {f : Flight} {w : TurnedAway} (hFlight : t.flights[i]? = some f)
      (h : f.turnedInLine? t.site = some w) : t.TurnsAway (.poll i) i w

/-! ## The way to that stage -/

/-- A request that came to `s` as `f`, with `stages` ahead, is turned away: by one of them, with
nothing further in touched, and out of the stages that it came through. -/
structure TurnedAway.Follows (w : TurnedAway) (s : Site) (f : Flight)
    (stages : List Interceptor) : Prop where
  mem : w.stage ∈ stages
  intact : s.IntactBeyond w.stage.priority w.site
  sight : w.flight.sight = f.sight
  order : InOrder w.flight.frames [w.stage]
  ignored : w.stage = .bulkhead → Breaker.serverFaults (.error w.failure) = .ignored

variable {f : Flight} {s : Site} {stage : Interceptor} {rest stages : List Interceptor}
  {w : TurnedAway}

/-- What a stage keeps, and what turns the request away further in, makes the whole way. -/
theorem turned_follow {s₀ : Site} {f₀ : Flight} {passage : Passage}
    (hOrder : InOrder f₀.frames (stage :: rest)) (hKeeps : passage.KeepsPlace s₀ f₀ stage rest)
    (hFurther : ∀ {f : Flight} {s : Site} {r : Http.Request}, InOrder f.frames rest →
      f.turned? s r rest = some w → f.enter s r rest = w.answer ∧ w.Follows s f rest)
    (h : passage.turned? stage (fun f s r => f.turned? s r rest) = some w) :
    passage.follow rest = w.answer ∧ w.Follows s₀ f₀ (stage :: rest) := by
  cases passage with
  | inwards f s r =>
    obtain ⟨hIntact, hSight, hFrames⟩ := hKeeps
    obtain ⟨hEnter, hFollows⟩ := hFurther hFrames h
    have hPlace := hOrder.lt_of_second hFollows.mem
    refine ⟨hEnter, List.mem_cons_of_mem stage hFollows.mem, ?_, ?_, hFollows.order,
      hFollows.ignored⟩
    · exact (hIntact.weaken (Int.le_of_lt hPlace)).trans hFollows.intact
    · exact hFollows.sight.trans hSight
  | waits f s => cases h
  | rejected f s failure event =>
    obtain ⟨hIntact, hSight, hFrames, hIgnored⟩ := hKeeps
    cases h
    refine ⟨rfl, List.mem_cons_self, hIntact.note _, hSight, ?_, fun _ => hIgnored⟩
    rw [hFrames]
    exact hOrder.head
  | lost f s cause =>
    obtain ⟨hIntact, hSight, hFrames⟩ := hKeeps
    cases h
    refine ⟨rfl, List.mem_cons_self, hIntact, hSight, ?_, fun _ => by cases cause <;> rfl⟩
    rw [hFrames]
    exact hOrder.head
  | ends f s c =>
    rcases c with (failure | response) | payload
    · obtain ⟨hIntact, hSight, hFrames, hStage⟩ := hKeeps
      cases h
      refine ⟨rfl, List.mem_cons_self, hIntact, hSight, ?_, ?_⟩
      · rw [hFrames]
        exact hOrder.head
      · rintro (rfl : stage = .bulkhead)
        cases hStage
    · cases h
    · cases h

/-- A request that is turned away on its way inwards ends there. -/
theorem turned_enter {r : Http.Request} (hOrder : InOrder f.frames stages)
    (h : f.turned? s r stages = some w) :
    f.enter s r stages = w.answer ∧ w.Follows s f stages := by
  induction stages generalizing f s r with
  | nil => cases h
  | cons stage rest ih =>
    rw [Flight.enter_cons]
    exact turned_follow hOrder (Flight.keepsPlace_pass hOrder s r) ih h

/-! ## Requests in line -/

/-- A request in line has not come to its handler, and it is inside of stages before the
bulkhead. -/
def Flight.InLine (f : Flight) : Prop :=
  match f.activity with
  | .queued _ _ _ rest _ => f.sight = none ∧ InOrder f.frames (.bulkhead :: rest)
  | _ => True

namespace Flight

theorem inLine_complete (f : Flight) (s : Site) (c : Completion) : (f.complete s c).2.InLine :=
  trivial

theorem serves_inLine : Serves (fun _ _ => True) fun after => after.2.InLine where
  ends := fun c _ => inLine_complete _ _ c
  waits := by
    intro s f hIn _
    unfold InLine
    split
    · next hQueued =>
      rw [hQueued] at hIn
      cases hIn
    · trivial
  aside := fun _ _ _ => trivial

/-- A request on its way inwards, not in its handler yet and with its stages in order. -/
def Approaches (f : Flight) (_ : Site) (_ : Http.Request) (stages : List Interceptor) : Prop :=
  f.sight = none ∧ InOrder f.frames stages

theorem inLine_keeps {f₀ : Flight} {s₀ : Site} {passage : Passage} (hSight : f₀.sight = none)
    (h : passage.KeepsPlace s₀ f₀ stage rest) :
    passage.Keeps Approaches (fun after => after.2.InLine) rest := by
  cases passage with
  | inwards f s r => exact ⟨h.2.1.trans hSight, h.2.2⟩
  | waits f s =>
    obtain ⟨ticket, deadline, scope, r, hActivity, hSame, hOrder⟩ := h
    simp only [Passage.Keeps, Passage.follow, InLine, hActivity]
    exact ⟨hSame.trans hSight, hOrder⟩
  | rejected | ends | lost => exact True.intro

theorem inLine_enter (hSight : f.sight = none) (hOrder : InOrder f.frames stages) (s : Site)
    (r : Http.Request) : (f.enter s r stages).2.InLine := by
  have hPass : ∀ f s r stage rest, Approaches f s r (stage :: rest) →
      (f.pass s r stage rest).Keeps Approaches (fun after => after.2.InLine) rest :=
    fun _ s r _ _ hInside => inLine_keeps hInside.1 (keepsPlace_pass hInside.2 s r)
  exact enter_keeps hPass (fun _ _ r _ => serves_inLine.arrive trivial r) f s r stages
    ⟨hSight, hOrder⟩

theorem inLine_pollActivity (h : f.InLine) (s : Site) : (f.pollActivity s).2.InLine := by
  cases hActivity : f.activity with
  | queued ticket deadline scope rest r =>
    have hInLine := h
    simp only [InLine, hActivity] at hInLine
    obtain ⟨hSight, hOrder⟩ := hInLine
    rw [pollActivity_queued hActivity]
    cases s.gates.bulkhead with
    | none => exact h
    | some b =>
      have hLook := keepsPlace_look (.refl _ s) hOrder b ticket deadline scope r
      have hEnter : ∀ f s r, Approaches f s r rest → (f.enter s r rest).2.InLine :=
        fun f s r hInside => inLine_enter hInside.1 hInside.2 s r
      exact follow_keeps hEnter (inLine_keeps hSight hLook)
  | awaitingEnd | working => exact serves_inLine.pollActivity trivial (by rw [hActivity]; rfl)
  | ended | aborted =>
    simp only [pollActivity, hActivity]
    exact h

theorem inLine_poll (h : f.InLine) (s : Site) : (f.poll s).2.InLine := by
  have hActivity := inLine_pollActivity h s
  unfold poll pollTimeouts
  simp only
  split
  · split
    · exact hActivity
    · exact inLine_complete _ _ _
  · exact hActivity

theorem inLine_abort (h : f.InLine) (s : Site) : (f.abort s).2.InLine := by
  unfold abort
  split
  · trivial
  · exact h

end Flight

/-- A request that is turned away when it is looked at in line ends at once. -/
theorem turned_poll (h : f.InLine) (hTurned : f.turnedInLine? s = some w) :
    f.poll s = w.answer ∧ w.flight.sight = none ∧
      ∃ rest, w.Follows s f (.bulkhead :: rest) := by
  unfold Flight.turnedInLine? at hTurned
  split at hTurned
  · next ticket deadline scope rest r b hActivity hBulkhead =>
    simp only [Flight.InLine, hActivity] at h
    have hLook := Flight.keepsPlace_look (.refl _ s) h.2 b ticket deadline scope r
    obtain ⟨hFollow, hFollows⟩ := turned_follow h.2 hLook turned_enter hTurned
    have hPoll : f.pollActivity s = w.answer := by
      rw [Flight.pollActivity_queued hActivity, hBulkhead]
      exact hFollow
    refine ⟨?_, hFollows.sight.trans h.1, rest, hFollows⟩
    unfold Flight.poll
    rw [hPoll]
    rfl
  · cases hTurned

/-- Whoever waited in line and is turned away by the bulkhead finds the breaker as it was before the
look. -/
theorem breaker_turnedInLine (h : f.InLine) (hTurned : f.turnedInLine? s = some w)
    (hStage : w.stage = .bulkhead) : w.site.gates.breaker = s.gates.breaker := by
  unfold Flight.turnedInLine? at hTurned
  split at hTurned
  · next ticket deadline scope rest r b hActivity hBulkhead =>
    simp only [Flight.InLine, hActivity] at h
    unfold Flight.look at hTurned
    generalize b.poll ticket deadline s.now (s.cancelled? scope) = polled at hTurned
    obtain ⟨progress, b', journal⟩ := polled
    cases progress with
    | waits => cases hTurned
    | holds =>
      -- The stages further in are others.
      obtain ⟨-, hFollows⟩ := turned_enter (f := f.push .slot) (h.2.push rfl) hTurned
      have hPlace := h.2.lt_of_second hFollows.mem
      rw [hStage] at hPlace
      exact absurd hPlace (Int.lt_irrefl _)
    | refused reason =>
      cases reason <;> cases hTurned <;> rfl
  · cases hTurned

/-- A look at a request in line turns it away if it has no slot by its deadline or by the end of its
scope. -/
theorem turned_of_over {ticket deadline : Nat} {scope : Scope} {r : Http.Request}
    (hQueued : f.activity = .queued ticket deadline scope rest r) {b : Bulkhead}
    (hBulkhead : s.gates.bulkhead = some b) (hNoSlot : ticket ∉ b.reserved)
    (hOver : deadline ≤ s.now ∨ (s.cause? scope).isSome = true) :
    ∃ w, f.turnedInLine? s = some w ∧ w.stage = .bulkhead := by
  have hTake := Bulkhead.take_eq_none_iff.mpr hNoSlot
  simp only [Flight.turnedInLine?, hQueued, hBulkhead, Flight.look,
    Bulkhead.poll_of_take_none hTake]
  by_cases hDeadline : deadline ≤ s.now
  · simp only [hDeadline, if_true]
    exact ⟨_, rfl, rfl⟩
  · obtain ⟨cause, hCause⟩ := Option.isSome_iff_exists.mp (hOver.resolve_left hDeadline)
    simp only [hDeadline, if_false, Site.cancelled?_eq_cause?, hCause]
    exact ⟨_, rfl, rfl⟩

/-- The stages of the traffic stand in order, and so do those of every request in line. -/
structure Traffic.Orderly (t : Traffic) : Prop where
  stages : InOrder [] t.interceptors
  flights : ∀ f ∈ t.flights, f.InLine

namespace Traffic

variable {t : Traffic}

theorem orderly_onFlight (h : t.Orderly) {op : Flight → Site → Site × Flight}
    (hOp : ∀ {f : Flight} (_ : f.InLine) (s : Site), (op f s).2.InLine) (i : Nat) :
    (t.onFlight i op).Orderly := by
  unfold onFlight
  cases hFlight : t.flights[i]? with
  | none => exact h
  | some f =>
    refine ⟨h.stages, fun f' hf' => ?_⟩
    rcases List.mem_or_eq_of_mem_set hf' with hOther | rfl
    · exact h.flights f' hOther
    · exact hOp (h.flights f (List.mem_of_getElem? hFlight)) t.site

/-- The step lemma. -/
theorem orderly_move (h : t.Orderly) (m : Move) : (t.move m).Orderly := by
  cases m with
  | clock | calendar | scope | readiness | observe => exact ⟨h.stages, h.flights⟩
  | send id r plan =>
    refine ⟨h.stages, fun f hf => ?_⟩
    rcases List.mem_append.mp hf with hOld | hNew
    · exact h.flights f hOld
    · rw [List.mem_singleton.mp hNew]
      exact Flight.inLine_enter rfl h.stages t.site r
  | poll i => exact orderly_onFlight h Flight.inLine_poll i
  | abort i => exact orderly_onFlight h Flight.inLine_abort i

/-- The run lemma. -/
theorem orderly_reachable {start : Traffic} {sent : List Http.Request} (hStart : start.Orderly)
    (h : Reachable start sent t) : t.Orderly := by
  induction h with
  | start => exact hStart
  | move _ m ih => exact orderly_move ih m

/-- A request that has ended stays as it is. -/
theorem ended_move {i : Nat} (hFlight : t.flights[i]? = some f) (hEnded : f.isPending = false)
    (m : Move) : (t.move m).flights[i]? = some f := by
  have hOn : ∀ (j : Nat) (op : Flight → Site → Site × Flight),
      (op f t.site).2 = f → (t.onFlight j op).flights[i]? = some f := by
    intro j op hOp
    unfold onFlight
    split
    · exact hFlight
    · next g hg =>
      by_cases hSame : j = i
      · subst hSame
        rw [hFlight] at hg
        cases hg
        rw [List.getElem?_set_self (List.getElem?_eq_some_iff.mp hFlight).1, hOp]
      · rw [List.getElem?_set_ne hSame]
        exact hFlight
  cases m with
  | clock | calendar | scope | readiness | observe => exact hFlight
  | send id r plan =>
    simp only [move, send]
    rw [List.getElem?_append_left (List.getElem?_eq_some_iff.mp hFlight).1]
    exact hFlight
  | poll j => exact hOn j _ (congrArg Prod.snd (Flight.poll_of_not_pending hEnded t.site).1)
  | abort j =>
    refine hOn j _ ?_
    simp [Flight.abort, hEnded]

theorem ended_moves {i : Nat} (hFlight : t.flights[i]? = some f) (hEnded : f.isPending = false)
    (moves : List Move) : (moves.foldl move t).flights[i]? = some f := by
  induction moves generalizing t with
  | nil => exact hFlight
  | cons m moves ih => exact ih (ended_move hFlight hEnded m)

/-- What a move leaves that turns a request away. -/
theorem turned_move (h : t.Orderly) {m : Move} {i : Nat} (hTurned : t.TurnsAway m i w) :
    (t.move m).site = w.answer.1 ∧ (t.move m).flights[i]? = some w.answer.2 ∧
      w.flight.sight = none ∧ ∃ f stages, w.Follows t.site f stages := by
  cases hTurned with
  | sent hNew =>
    obtain ⟨hEnter, hFollows⟩ := turned_enter h.stages hNew
    refine ⟨congrArg Prod.fst hEnter, ?_, hFollows.sight, _, _, hFollows⟩
    exact List.getElem?_concat_length.trans (congrArg (some ·.2) hEnter)
  | inLine hFlight hWait =>
    have hInLine := h.flights _ (List.mem_of_getElem? hFlight)
    obtain ⟨hPoll, hSight, rest, hFollows⟩ := turned_poll hInLine hWait
    simp only [move, onFlight, hFlight, hPoll]
    refine ⟨trivial, ?_, hSight, _, _, hFollows⟩
    exact List.getElem?_set_self (List.getElem?_eq_some_iff.mp hFlight).1

end Traffic

/-! ## The way back past the breaker -/

/-- What a machine becomes when a call of it is forgotten, once its changes are published: what time
alone makes of it, less the trial of the call. -/
def forgetting (m : Breaker.Machine) (a : Admission) (now : Nat) : Breaker.Machine :=
  let m := m.refresh now
  { m with
    trialsInFlight := m.trialsInFlight - if a.isTrialOf m.generation then 1 else 0
    transitions := [] }

theorem machine_record_ignored (b : CircuitBreaker) (a : Admission) (now : Nat) :
    (b.record a .ignored now).1.machine = forgetting b.machine a now := by
  rw [CircuitBreaker.record_eq, Breaker.Machine.record_ignored_eq]
  unfold forgetting Admission.isTrialOf
  by_cases hGeneration : a.generation = (b.machine.refresh now).generation
  · rw [Breaker.Machine.abandon_of_eq hGeneration]
    simp [CircuitBreaker.after, hGeneration]
  · rw [Breaker.Machine.abandon_of_ne hGeneration]
    simp [CircuitBreaker.after, hGeneration]

/-- Frames of the stages outside of the breaker. -/
def BeforeBreaker (frames : List Frame) : Prop :=
  ∀ frame ∈ frames, frame.place < Interceptor.priority .circuitBreaker

theorem place_before_bulkhead {frame : Frame}
    (h : frame.place < Interceptor.priority .bulkhead) :
    frame.place < Interceptor.priority .circuitBreaker ∨
      ∃ admission scope, frame = .call admission scope := by
  cases frame with
  | call admission scope => exact .inr ⟨admission, scope, rfl⟩
  | recovery | timeout | slot | logging | translation =>
    simp only [Frame.place, Interceptor.priority] at h ⊢
    omega

/-- Of the stages outside of the bulkhead, the breaker is the innermost. -/
theorem frames_before_bulkhead {frames : List Frame} (h : InOrder frames [.bulkhead]) :
    BeforeBreaker frames ∨
      ∃ admission scope outer, frames = .call admission scope :: outer ∧ BeforeBreaker outer := by
  cases frames with
  | nil => exact .inl fun frame hFrame => absurd hFrame List.not_mem_nil
  | cons frame outer =>
    have hOuter := (List.pairwise_cons.mp h.frames_pairwise).1
    rcases place_before_bulkhead (h.place_lt List.mem_cons_self) with hBefore | ⟨a, scope, rfl⟩
    · refine .inl (List.forall_mem_cons.mpr ⟨hBefore, fun frame hFrame => ?_⟩)
      exact Int.lt_trans (hOuter frame hFrame) hBefore
    · exact .inr ⟨a, scope, outer, rfl, hOuter⟩

namespace BeforeBreaker

variable {frames : List Frame}

theorem breaker_ascend (h : BeforeBreaker frames) (s : Site) (c : Completion) :
    (ascend s c frames).1.gates.breaker = s.gates.breaker := by
  have hIntact := intact_ascend (fun frame hFrame => Int.le_sub_one_of_lt (h frame hFrame)) s c
  exact hIntact.breaker (by decide)

theorem callsOf_eq_zero (h : BeforeBreaker frames) : callsOf frames = 0 := by
  have hNone : frames.filterMap Frame.call? = [] := by
    rw [List.filterMap_eq_nil_iff]
    intro frame hFrame
    rcases frame_cases frame with hNone | ⟨admission, scope, rfl⟩
    · exact hNone
    · exact absurd (h _ hFrame) (Int.lt_irrefl _)
  unfold callsOf
  rw [hNone]
  rfl

end BeforeBreaker

/-- What has become of the breaker `b` of a site, as a failure went back from the bulkhead through
some frames: if they hold a call, it is forgotten. -/
def Forgets (frames : List Frame) (now : Nat) (b b' : CircuitBreaker) : Prop :=
  (callsOf frames = 0 ∧ b' = b) ∨
    ∃ call, callsOf frames = {call} ∧ b'.machine = forgetting b.machine call.admission now

/-- A failure that the policy of the breaker ignores goes back from the bulkhead. -/
theorem forgets_answer (hOrder : InOrder w.flight.frames [.bulkhead]) {b : CircuitBreaker}
    (hBreaker : w.site.gates.breaker = some b) (hIgnored : b.policy (.error w.failure) = .ignored) :
    ∃ b', w.answer.1.gates.breaker = some b' ∧
      Forgets w.flight.frames w.site.now b b' := by
  simp only [TurnedAway.answer, Flight.complete]
  rcases frames_before_bulkhead hOrder with hBefore | ⟨admission, scope, outer, hFrames, hBefore⟩
  · refine ⟨b, ?_, .inl ⟨hBefore.callsOf_eq_zero, rfl⟩⟩
    rw [hBefore.breaker_ascend, hBreaker]
  · have hVerdict : Frame.verdict w.site b scope (.error w.failure) = .ignored := by
      unfold Frame.verdict
      split
      · rfl
      · exact hIgnored
    refine ⟨(b.record admission .ignored w.site.now).1, ?_, .inr ⟨⟨admission, scope⟩, ?_, ?_⟩⟩
    · rw [hFrames, ascend, hBefore.breaker_ascend]
      simp only [Frame.rise, Site.onBreaker, hBreaker, hVerdict]
      rfl
    · rw [hFrames, callsOf_cons_call, hBefore.callsOf_eq_zero]
      rfl
    · exact machine_record_ignored b admission w.site.now

/-! ## For all traffic -/

/-- By a move from `t` to `t'` the request at index `i` has been turned away cleanly. -/
structure TurnedAway.Clean (w : TurnedAway) (t t' : Traffic) (i : Nat) : Prop where
  /-- It ends without having come to its handler, and nothing changes that any more. -/
  unseen : ∃ f, t'.flights[i]? = some f ∧ f.isPending = false ∧ f.sight = none ∧
    ∀ moves : List Move, (moves.foldl Traffic.move t').flights[i]? = some f
  intact : t.site.IntactBeyond w.stage.priority t'.site
  rateLimited : w.stage = .rateLimit →
    t'.site.gates.breaker = t.site.gates.breaker ∧ t'.site.gates.bulkhead = t.site.gates.bulkhead
  refused : w.stage = .circuitBreaker → t'.site.gates.bulkhead = t.site.gates.bulkhead
  /-- Who is turned away in line by the bulkhead has left the breaker alone so far. -/
  waited : w.stage = .bulkhead → i < t.flights.length →
    w.site.gates.breaker = t.site.gates.breaker
  /-- On the way back from the bulkhead the breaker forgets the call: only time shows, and its trials
  are those of the calls that are left. -/
  forgotten : w.stage = .bulkhead →
    (∀ b, t.site.gates.breaker = some b → b.policy = Breaker.serverFaults) →
    ∀ b, w.site.gates.breaker = some b → ∃ b', t'.site.gates.breaker = some b' ∧
      Forgets w.flight.frames t.site.now b b' ∧
      b'.machine.Covered ((t'.flights.flatMap Flight.frames).filterMap Frame.admission?)

theorem policy_of_intact {place : Int} {s' : Site} (h : s.IntactBeyond place s')
    {p : Breaker.Policy} (hPolicy : ∀ b, s.gates.breaker = some b → b.policy = p)
    {b : CircuitBreaker} (hBreaker : s'.gates.breaker = some b) : b.policy = p := by
  have hSame := h.policy
  rw [hBreaker, Option.map_some] at hSame
  obtain ⟨b₀, hBefore, hEq⟩ := Option.map_eq_some_iff.mp hSame.symm
  rw [← hEq]
  exact hPolicy b₀ hBefore

theorem clean_of_turnsAway {t : Traffic} (h : t.Orderly) {m : Move} {i : Nat}
    (hCovered : ∀ b, (t.move m).site.gates.breaker = some b →
      b.machine.Covered (((t.move m).flights.flatMap Flight.frames).filterMap Frame.admission?))
    (hTurned : t.TurnsAway m i w) : w.Clean t (t.move m) i := by
  obtain ⟨hSite, hFlight, hSight, f, stages, hFollows⟩ := Traffic.turned_move h hTurned
  have hBack : w.site.IntactBeyond w.stage.priority w.answer.1 :=
    intact_ascend (fun frame hFrame => Int.le_of_lt (hFollows.order.place_lt hFrame)) _ _
  have hIntact := hFollows.intact.trans hBack
  rw [← hSite] at hIntact
  refine ⟨?_, hIntact, ?_, ?_, ?_, ?_⟩
  · exact ⟨_, hFlight, rfl, hSight, fun moves => Traffic.ended_moves hFlight rfl moves⟩
  · intro hStage
    rw [hStage] at hIntact
    exact ⟨hIntact.breaker (by decide), hIntact.bulkhead (by decide)⟩
  · intro hStage
    rw [hStage] at hIntact
    exact hIntact.bulkhead (by decide)
  · intro hStage hBefore
    cases hTurned with
    | sent _ => exact absurd hBefore (Nat.lt_irrefl _)
    | inLine hThere hWait =>
      exact breaker_turnedInLine (h.flights _ (List.mem_of_getElem? hThere)) hWait hStage
  · intro hStage hPolicy b hBreaker
    have hOrder := hFollows.order
    rw [hStage] at hOrder
    have hUsual : b.policy = Breaker.serverFaults :=
      policy_of_intact hFollows.intact hPolicy hBreaker
    obtain ⟨b', hAfter, hForgets⟩ := forgets_answer hOrder hBreaker
      (by rw [hUsual]; exact hFollows.ignored hStage)
    rw [hFollows.intact.now] at hForgets
    rw [← hSite] at hAfter
    exact ⟨b', hAfter, hForgets, hCovered b' hAfter⟩

/-- Through a pipeline of usual stages, each at most once, go any requests in any interleaving, and
the breaker may be in any state. A request that a gate or a check turns away ends without having
come to its handler; the gates further in are as they were; and on its way back from the bulkhead
the breaker of the usual policy forgets it. A request in line whose scope has ended, or whose
deadline has come, is turned away when it is looked at, unless it was reserved a slot before. -/
theorem turned_away_cleanly {site : Site} (hFresh : site.gates.Fresh) {stages : List Interceptor}
    (hPlaces : (stages.map Interceptor.priority).Nodup) {edge : Edge} {sent : List Http.Request}
    {t : Traffic}
    (h : Reachable (.create (.build (stages.map site.gates.register)) edge site) sent t) :
    (∀ m i w, t.TurnsAway m i w → w.Clean t (t.move m) i) ∧
    ∀ (i : Nat) (f : Flight) (ticket deadline : Nat) (scope : Scope) (rest : List Interceptor)
      (r : Http.Request), t.flights[i]? = some f →
      f.activity = .queued ticket deadline scope rest r →
      deadline ≤ t.site.now ∨ (t.site.cause? scope).isSome = true →
      (∀ b, t.site.gates.bulkhead = some b → ticket ∉ b.reserved) →
      ∃ w, t.TurnsAway (.poll i) i w ∧ w.stage = .bulkhead := by
  have hSound := sound_reachable (sound_create hFresh _ edge) h
  constructor
  · intro m i w hTurned
    have hStart : (Traffic.create (.build (stages.map site.gates.register)) edge site).Orderly :=
      ⟨.of_stages (interceptors_build_pairwise site.gates hPlaces),
        fun f hf => absurd hf List.not_mem_nil⟩
    exact clean_of_turnsAway (Traffic.orderly_reachable hStart h)
      (sound_move hSound m).balanced.breaker hTurned
  · intro i f ticket deadline scope rest r hFlight hQueued hOver hNoSlot
    obtain ⟨r₀, -, hPlaced⟩ := exists_beside hSound.placed hFlight
    cases hBulkhead : t.site.gates.bulkhead with
    | none =>
      -- Nobody stands in line where there is no bulkhead.
      have hCapacity := hSound.balanced.capacity
      rw [hBulkhead] at hCapacity
      simp only [Flight.Placed, hQueued, ← hCapacity, slotsAhead, Option.map_none,
        Option.isSome_none, Bool.false_and, Bool.false_eq_true, if_false] at hPlaced
      omega
    | some b =>
      obtain ⟨w, hTurned, hStage⟩ := turned_of_over hQueued hBulkhead (hNoSlot b hBulkhead) hOver
      exact ⟨w, .inLine hFlight hTurned, hStage⟩

/-- A breaker that opens at the first failure and then tries two calls at a time, around a single
slot that is waited for in line. -/
def singleSlot : Site :=
  .create ⟨none, some (.create "orders" ⟨1, 10, 2, none⟩ 0), some ⟨1, 5, 1, 0, [], [], 0⟩⟩ .standalone

/-- After a failure the breaker tries two calls. One of them works in the only slot, and the other
is still in line at its deadline. -/
def lateTrial : Traffic :=
  [Move.send "a" (getFor "/orders/1") (workFor 3 (.failure ⟨.internal, "down"⟩)),
    .clock 3, .poll 0, .clock 13,
    .send "b" (getFor "/orders/2") (workFor 50 (.response ⟨200, [], .text ""⟩)),
    .send "c" (getFor "/orders/3") (workFor 50 (.response ⟨200, [], .text ""⟩)),
    .clock 18].foldl Traffic.move ⟨narrowStages, .direct, singleSlot, []⟩

theorem reachable_lateTrial :
    Reachable (.create (.build (narrowStages.map singleSlot.gates.register)) .direct singleSlot)
      [getFor "/orders/1", getFor "/orders/2", getFor "/orders/3"] lateTrial := by
  have hStages : (Pipeline.build (narrowStages.map singleSlot.gates.register)).interceptors =
      narrowStages := interceptors_build_of_pairwise singleSlot.gates (by decide)
  unfold Traffic.create
  rw [hStages]
  exact ((((((Reachable.start.move (.send "a" _ _)).move (.clock 3)).move (.poll 0)).move
    (.clock 13)).move (.send "b" _ _)).move (.send "c" _ _)).move (.clock 18)

/-- The trials of a breaker that are under way, and its state. -/
def trialsOf (t : Traffic) : Option (Breaker.State × Nat) :=
  t.site.gates.breaker.map fun b => (b.machine.state, b.machine.trialsInFlight)

theorem turned_away_cleanly_late_trial :
    ∃ w, lateTrial.TurnsAway (.poll 2) 2 w ∧ w.stage = .bulkhead ∧
      w.Clean lateTrial (lateTrial.move (.poll 2)) 2 ∧
      trialsOf lateTrial = some (.halfOpen, 2) ∧
      trialsOf (lateTrial.move (.poll 2)) = some (.halfOpen, 1) := by
  have hFresh : singleSlot.gates.Fresh := by
    refine ⟨?_, ?_⟩
    · rintro b ⟨⟩
      exact ⟨rfl, rfl, rfl, rfl⟩
    · rintro c ⟨⟩
      rfl
  obtain ⟨hClean, -⟩ := turned_away_cleanly hFresh (by decide) reachable_lateTrial
  have hWaits : ((lateTrial.flights[2]?).bind fun f => f.turnedInLine? lateTrial.site).map
      (fun w => w.stage.isBulkhead) = some true := by decide +kernel
  obtain ⟨w, hBind, hBulkhead⟩ := Option.map_eq_some_iff.mp hWaits
  obtain ⟨f, hFlight, hWait⟩ := Option.bind_eq_some_iff.mp hBind
  have hTurned : lateTrial.TurnsAway (.poll 2) 2 w := .inLine hFlight hWait
  have hStage : w.stage = .bulkhead := by
    cases hEq : w.stage with
    | bulkhead => rfl
    | _ =>
      rw [hEq] at hBulkhead
      cases hBulkhead
  exact ⟨w, hTurned, hStage, hClean _ _ w hTurned, by decide +kernel, by decide +kernel⟩

end Gatehouse.Pipeline
