import Gatehouse.Proofs.Pipeline.Departures
import Gatehouse.Proofs.Pipeline.Holdings

/-!
# How far in a request has come

The stages of a pipeline stand at different places, the lowest outermost, and a request meets them
in this order. What it has met at or before a place leaves the gates further in as they are, both
on its way inwards and when something ends and rises again.

* `InOrder`: the stages that a request is inside of and those ahead of it, one behind the other.
* `Site.IntactBeyond`: a site of which nothing further in than a place has been touched.
* `keepsPlace_pass`, `intact_ascend`: a stage on the way inwards, and the whole way back.
-/

namespace Gatehouse.Pipeline

/-! ## Places -/

/-- The place of the stage that a frame belongs to. -/
def Frame.place : Frame → Int
  | .recovery _ _ => Interceptor.priority .panicRecovery
  | .timeout limit _ => Interceptor.priority (.timeout limit)
  | .call _ _ => Interceptor.priority .circuitBreaker
  | .slot => Interceptor.priority .bulkhead
  | .logging _ _ _ _ => Interceptor.priority .requestLogging
  | .translation translate => Interceptor.priority (.errorTranslation translate)

/-- The places of the stages that a request is inside of, then those of the stages ahead of it. -/
def places (frames : List Frame) (stages : List Interceptor) : List Int :=
  (frames.map Frame.place).reverse ++ stages.map Interceptor.priority

/-- Every stage stands further in than those before it. -/
def InOrder (frames : List Frame) (stages : List Interceptor) : Prop :=
  (places frames stages).Pairwise (· < ·)

namespace InOrder

variable {frames : List Frame} {frame : Frame} {stage : Interceptor} {rest : List Interceptor}

theorem of_stages {stages : List Interceptor}
    (h : stages.Pairwise fun a b => a.priority < b.priority) : InOrder [] stages := by
  unfold InOrder places
  rw [List.map_nil, List.reverse_nil, List.nil_append, List.pairwise_map]
  exact h

/-- A stage that leaves a frame is one more that the request is inside of. -/
theorem push (h : InOrder frames (stage :: rest)) (hPlace : frame.place = stage.priority) :
    InOrder (frame :: frames) rest := by
  have hSame : places (frame :: frames) rest = places frames (stage :: rest) := by
    simp [places, hPlace]
  unfold InOrder at h ⊢
  rwa [hSame]

/-- A stage that leaves none is left out. -/
theorem skip (h : InOrder frames (stage :: rest)) : InOrder frames rest := by
  refine h.sublist ?_
  exact (List.Sublist.refl _).append (List.sublist_cons_self _ _)

/-- What the request is inside of stands outside of what is ahead. -/
theorem place_lt (h : InOrder frames (stage :: rest)) (hFrame : frame ∈ frames) :
    frame.place < stage.priority := by
  refine (List.pairwise_append.mp h).2.2 _ ?_ _ List.mem_cons_self
  exact List.mem_reverse.mpr (List.mem_map_of_mem hFrame)

theorem head (h : InOrder frames (stage :: rest)) : InOrder frames [stage] := by
  refine h.sublist ?_
  exact (List.Sublist.refl _).append (List.cons_sublist_cons.mpr (List.nil_sublist _))

/-- The stage ahead stands outside of the next one. -/
theorem lt_of_second {next : Interceptor} (h : InOrder frames (stage :: rest))
    (hNext : next ∈ rest) : stage.priority < next.priority := by
  have hStages := (List.pairwise_append.mp h).2.1
  exact (List.pairwise_cons.mp hStages).1 _ (List.mem_map_of_mem hNext)

/-- Frames are in order among themselves, the innermost first. -/
theorem frames_pairwise {stages : List Interceptor} (h : InOrder frames stages) :
    frames.Pairwise fun a b => b.place < a.place := by
  have hFrames := (List.pairwise_append.mp h).1
  rw [List.pairwise_reverse, List.pairwise_map] at hFrames
  exact hFrames

end InOrder

/-! ## What is left as it was -/

/-- Between `s` and `s'` nothing was done to a gate further in than `place`, to the readiness of
the service or to the clock. The policy of the breaker never changes. -/
structure Site.IntactBeyond (place : Int) (s s' : Site) : Prop where
  now : s'.now = s.now
  coordinator : s'.coordinator = s.coordinator
  policy : s'.gates.breaker.map (·.policy) = s.gates.breaker.map (·.policy)
  limiter : place < Interceptor.priority .rateLimit → s'.gates.limiter = s.gates.limiter
  breaker : place < Interceptor.priority .circuitBreaker → s'.gates.breaker = s.gates.breaker
  bulkhead : place < Interceptor.priority .bulkhead → s'.gates.bulkhead = s.gates.bulkhead

namespace Site.IntactBeyond

variable {place place' : Int} {s s' s'' : Site}

theorem refl (place : Int) (s : Site) : s.IntactBeyond place s :=
  ⟨rfl, rfl, rfl, fun _ => rfl, fun _ => rfl, fun _ => rfl⟩

theorem trans (h : s.IntactBeyond place s') (h' : s'.IntactBeyond place s'') :
    s.IntactBeyond place s'' where
  now := h'.now.trans h.now
  coordinator := h'.coordinator.trans h.coordinator
  policy := h'.policy.trans h.policy
  limiter := fun hPlace => (h'.limiter hPlace).trans (h.limiter hPlace)
  breaker := fun hPlace => (h'.breaker hPlace).trans (h.breaker hPlace)
  bulkhead := fun hPlace => (h'.bulkhead hPlace).trans (h.bulkhead hPlace)

theorem weaken (h : s.IntactBeyond place s') (hLe : place ≤ place') :
    s.IntactBeyond place' s' where
  now := h.now
  coordinator := h.coordinator
  policy := h.policy
  limiter := fun hPlace => h.limiter (Int.lt_of_le_of_lt hLe hPlace)
  breaker := fun hPlace => h.breaker (Int.lt_of_le_of_lt hLe hPlace)
  bulkhead := fun hPlace => h.bulkhead (Int.lt_of_le_of_lt hLe hPlace)

/-- What leaves every gate alone. -/
theorem of_gates (hNow : s'.now = s.now) (hCoordinator : s'.coordinator = s.coordinator)
    (hGates : s'.gates = s.gates) : s.IntactBeyond place s' := by
  refine ⟨hNow, hCoordinator, ?_, ?_, ?_, ?_⟩ <;> simp only [hGates, implies_true]

theorem note (h : s.IntactBeyond place s') (entries : Journal) :
    s.IntactBeyond place (s'.note entries) :=
  h.trans (of_gates rfl rfl rfl)

theorem scopeOf (h : s.IntactBeyond place s') (r : Http.Request) :
    s.IntactBeyond place (s'.scopeOf r).2 := by
  refine h.trans (of_gates ?_ ?_ (s'.gates_scopeOf r))
  all_goals
    unfold Site.scopeOf
    cases r.scope <;> rfl

end Site.IntactBeyond

open Breaker (Admission CircuitBreaker)

variable {place : Int} {s : Site}

/-- The breaker is touched at its place, and no further out. -/
theorem intact_setBreaker {b b' : CircuitBreaker} (hBreaker : s.gates.breaker = some b)
    (hPolicy : b'.policy = b.policy) :
    s.IntactBeyond (Interceptor.priority .circuitBreaker) (s.setBreaker b') := by
  refine ⟨rfl, rfl, ?_, fun _ => rfl, fun hPlace => absurd hPlace (Int.lt_irrefl _), fun _ => rfl⟩
  rw [hBreaker]
  exact congrArg some hPolicy

theorem intact_onBreaker {f : CircuitBreaker → CircuitBreaker × Journal}
    (hPolicy : ∀ b, (f b).1.policy = b.policy) (s : Site) :
    s.IntactBeyond (Interceptor.priority .circuitBreaker) (s.onBreaker f) := by
  unfold Site.onBreaker
  cases hBreaker : s.gates.breaker with
  | none => exact .refl _ s
  | some b => exact (intact_setBreaker hBreaker (hPolicy b)).note _

theorem intact_setLimiter (s : Site) (l : RateLimiter Float) :
    s.IntactBeyond (Interceptor.priority .rateLimit) (s.setLimiter l) :=
  ⟨rfl, rfl, rfl, fun hPlace => absurd hPlace (Int.lt_irrefl _), fun _ => rfl, fun _ => rfl⟩

theorem intact_setBulkhead (s : Site) (b : Bulkhead) :
    s.IntactBeyond (Interceptor.priority .bulkhead) (s.setBulkhead b) :=
  ⟨rfl, rfl, rfl, fun _ => rfl, fun _ => rfl, fun hPlace => absurd hPlace (Int.lt_irrefl _)⟩

theorem intact_onBulkhead (s : Site) (f : Bulkhead → Bulkhead × Journal) :
    s.IntactBeyond (Interceptor.priority .bulkhead) (s.onBulkhead f) := by
  unfold Site.onBulkhead
  cases s.gates.bulkhead with
  | none => exact .refl _ s
  | some b => exact (intact_setBulkhead s _).note _

/-! ## The way back -/

theorem policy_record (b : CircuitBreaker) (a : Admission) (v : Breaker.Verdict) (now : Nat) :
    (b.record a v now).1.policy = b.policy := by
  rw [CircuitBreaker.record_eq]
  rfl

/-- What rises through a frame touches the gate of its stage at most. -/
theorem intact_rise (s : Site) (frame : Frame) (c : Completion) :
    s.IntactBeyond frame.place (frame.rise s c).1 := by
  cases frame with
  | slot => exact intact_onBulkhead s Bulkhead.release
  | call admission scope =>
    cases c with
    | outcome o => exact intact_onBreaker (fun b => policy_record b _ _ _) s
    | panic payload => exact intact_onBreaker (fun b => policy_record b _ _ _) s
  | recovery | timeout | logging => cases c <;> exact .of_gates rfl rfl rfl
  | translation translate =>
    rcases c with (failure | response) | payload <;> exact .of_gates rfl rfl rfl

/-- What rises through some frames touches nothing further in than all of them. -/
theorem intact_ascend {frames : List Frame} (hFrames : ∀ frame ∈ frames, frame.place ≤ place)
    (s : Site) (c : Completion) : s.IntactBeyond place (ascend s c frames).1 := by
  induction frames generalizing s c with
  | nil => exact .refl place s
  | cons frame outer ih =>
    have hHead := (intact_rise s frame c).weaken (hFrames frame List.mem_cons_self)
    have hOuter := ih (fun outer h => hFrames outer (List.mem_cons_of_mem frame h))
      (frame.rise s c).1 (frame.rise s c).2
    exact hHead.trans hOuter

/-! ## The way inwards -/

/-- A stage at a certain place has met a request that came to it from `s` with `f`. It has touched
nothing further in, and the request is not in its handler. If it goes on or waits, it is inside of
the right stages; if it is turned away, of those that it came through. The usual policy of a breaker
ignores the rejections of gates, and the bulkhead ends nothing by itself. -/
def Passage.KeepsPlace (s : Site) (f : Flight) (stage : Interceptor) (rest : List Interceptor) :
    Passage → Prop
  | .inwards f' s' _ =>
    s.IntactBeyond stage.priority s' ∧ f'.sight = f.sight ∧ InOrder f'.frames rest
  | .waits f' _ =>
    ∃ ticket deadline scope r, f'.activity = .queued ticket deadline scope rest r ∧
      f'.sight = f.sight ∧ InOrder f'.frames (.bulkhead :: rest)
  | .rejected f' s' failure _ =>
    s.IntactBeyond stage.priority s' ∧ f'.sight = f.sight ∧ f'.frames = f.frames ∧
      Breaker.serverFaults (.error failure) = .ignored
  | .lost f' s' _ => s.IntactBeyond stage.priority s' ∧ f'.sight = f.sight ∧ f'.frames = f.frames
  | .ends f' s' (.outcome _) =>
    s.IntactBeyond stage.priority s' ∧ f'.sight = f.sight ∧ f'.frames = f.frames ∧
      stage.isBulkhead = false
  | .ends _ _ (.panic _) => True

namespace Flight

variable {f : Flight} {stage : Interceptor} {rest : List Interceptor}

/-- A look in line touches the bulkhead. -/
theorem keepsPlace_look {s₀ : Site} (hSite : s₀.IntactBeyond (Interceptor.priority .bulkhead) s)
    (hOrder : InOrder f.frames (.bulkhead :: rest)) (b : Bulkhead) (ticket deadline : Nat)
    (scope : Scope) (r : Http.Request) :
    (f.look s b ticket deadline scope rest r).KeepsPlace s₀ f .bulkhead rest := by
  unfold look
  generalize b.poll ticket deadline s.now (s.cancelled? scope) = polled
  obtain ⟨progress, b', journal⟩ := polled
  have hAfter := (hSite.trans (intact_setBulkhead s b')).note journal
  cases progress with
  | waits => exact ⟨ticket, deadline, scope, r, rfl, rfl, hOrder⟩
  | holds => exact ⟨hAfter, rfl, hOrder.push rfl⟩
  | refused reason =>
    cases reason with
    | full capacity => exact ⟨hAfter, rfl, rfl, rfl⟩
    | ended cause => exact ⟨hAfter, rfl, rfl⟩

theorem keepsPlace_rateLimit (hOrder : InOrder f.frames (.rateLimit :: rest)) (s : Site)
    (r : Http.Request) : (f.meetGate s r rest .rateLimit).KeepsPlace s f .rateLimit rest := by
  simp only [meetGate]
  cases s.gates.limiter with
  | none => exact ⟨.refl _ s, rfl, hOrder.skip⟩
  | some l =>
    simp only
    split
    · exact ⟨intact_setLimiter s _, rfl, hOrder.skip⟩
    · exact ⟨intact_setLimiter s _, rfl, rfl, rfl⟩

theorem keepsPlace_circuitBreaker (hOrder : InOrder f.frames (.circuitBreaker :: rest)) (s : Site)
    (r : Http.Request) :
    (f.meetGate s r rest .circuitBreaker).KeepsPlace s f .circuitBreaker rest := by
  simp only [meetGate]
  cases hBreaker : s.gates.breaker with
  | none => exact ⟨.refl _ s, rfl, hOrder.skip⟩
  | some b =>
    have hScope := (Site.IntactBeyond.refl (Interceptor.priority .circuitBreaker) s).scopeOf r
    have hGates : (s.scopeOf r).2.gates.breaker = some b := by rw [Site.gates_scopeOf, hBreaker]
    have hPolicy : (b.tryAcquire (s.scopeOf r).2.now).2.1.policy = b.policy := by
      rw [CircuitBreaker.tryAcquire_eq]
      rfl
    revert hPolicy
    simp only
    generalize b.tryAcquire (s.scopeOf r).2.now = tried
    obtain ⟨answer, b', journal⟩ := tried
    intro hPolicy
    have hAfter := (hScope.trans (intact_setBreaker hGates hPolicy)).note journal
    cases answer with
    | ok admission => exact ⟨hAfter, rfl, hOrder.push rfl⟩
    | error state => exact ⟨hAfter, rfl, rfl, rfl⟩

theorem keepsPlace_bulkhead (hOrder : InOrder f.frames (.bulkhead :: rest)) (s : Site)
    (r : Http.Request) : (f.meetGate s r rest .bulkhead).KeepsPlace s f .bulkhead rest := by
  simp only [meetGate]
  cases s.gates.bulkhead with
  | none => exact ⟨.refl _ s, rfl, hOrder.skip⟩
  | some b => exact keepsPlace_look ((Site.IntactBeyond.refl _ s).scopeOf r) hOrder _ _ _ _ r

/-- The step lemma: a stage keeps to its place. -/
theorem keepsPlace_pass (hOrder : InOrder f.frames (stage :: rest)) (s : Site)
    (r : Http.Request) : (f.pass s r stage rest).KeepsPlace s f stage rest := by
  unfold pass
  split
  · exact ⟨.refl _ s, rfl, hOrder.skip⟩
  · cases stage with
    | rateLimit => exact keepsPlace_rateLimit hOrder s r
    | circuitBreaker => exact keepsPlace_circuitBreaker hOrder s r
    | bulkhead => exact keepsPlace_bulkhead hOrder s r
    | panicRecovery => exact ⟨.refl _ s, rfl, hOrder.push rfl⟩
    | timeout limit =>
      have hScope := (Site.IntactBeyond.refl (Interceptor.priority (.timeout limit)) s).scopeOf r
      refine ⟨hScope.trans ?_, rfl, hOrder.push rfl⟩
      exact .of_gates rfl rfl rfl
    | requestLogging => exact ⟨.of_gates rfl rfl rfl, rfl, hOrder.push rfl⟩
    | errorTranslation translate => exact ⟨.refl _ s, rfl, hOrder.push rfl⟩
    | schemaValidation v =>
      simp only [meet]
      cases v.check r with
      | accepted => exact ⟨.refl _ s, rfl, hOrder.skip⟩
      | rejected failure => exact ⟨.of_gates rfl rfl rfl, rfl, rfl, rfl⟩
      | panicked payload => trivial
    | mark label bypasses rejection =>
      simp only [meet]
      cases rejection with
      | none => exact ⟨.refl _ s, rfl, hOrder.skip⟩
      | some failure => exact ⟨.refl _ s, rfl, rfl, rfl⟩

end Flight

end Gatehouse.Pipeline
