import Gatehouse.Proofs.Pipeline.Bills

/-!
# What a request sees and what it leaves alone

A request to a probe path does not look at the gates and leaves them as they are; every other
request does so with the readiness of the service. So on two sites that differ only in what a
request does not look at, it does the same: the sites agree afterwards as they did before, and the
request has become the same.

* `Site.Agrees`: two sites differ only in what a request does not look at.
* `Site.Spares`: what a request leaves as it is. A probe cancels nothing but the scope it came
  under, and that only where its handler does.
* `Flight.beside_enter`, `Flight.beside_poll`, `Flight.beside_abort`: the operations on a request.
-/

namespace Gatehouse.Pipeline

/-- A request when it is sent. -/
structure Sending where
  request : Http.Request
  plan : HandlerPlan
  /-- What it came under: the scope that an outer layer attached, or a new one. -/
  scope : Scope

def Sending.isProbe (x : Sending) : Bool := Http.isProbePath x.request.path

/-- No request is of both kinds. -/
theorem Sending.one_kind {x : Sending} {P : Prop} (hOther : x.isProbe = false)
    (hProbe : x.isProbe = true) : P := by
  rw [hOther] at hProbe
  cases hProbe

/-- A request that is sent to a site. -/
def Site.sending (s : Site) (r : Http.Request) (plan : HandlerPlan) : Sending :=
  ⟨r, plan, (s.scopeOf r).1⟩

namespace Site

/-- The scope of a request depends on what is attached to it, and else on the numbers given out. -/
theorem scopeOf_fst {s s' : Site} {r r' : Http.Request} (hDirectory : s'.directory = s.directory)
    (hScope : r'.scope = r.scope) : (s'.scopeOf r').1 = (s.scopeOf r).1 := by
  unfold scopeOf
  rw [hScope, hDirectory]
  cases r.scope <;> rfl

/-- Two sites differ only in what a request does not look at: the gates for a probe, the readiness
of the service for others, the journal for all. -/
structure Agrees (probe : Bool) (s s' : Site) : Prop where
  now : s'.now = s.now
  moment : s'.moment = s.moment
  directory : s'.directory = s.directory
  ids : s'.ids = s.ids
  gates : probe = false → s'.gates = s.gates
  coordinator : probe = true → s'.coordinator = s.coordinator

def cancelled (s : Site) : List Nat := s.directory.tokens.cancelled

theorem cancelled_scopeOf (s : Site) (r : Http.Request) :
    (s.scopeOf r).2.cancelled = s.cancelled := by
  unfold scopeOf
  cases r.scope <;> rfl

/-- A request has left alone what it does not look at, and a probe has cancelled at most what it
came under. -/
structure Spares (x : Sending) (s s' : Site) : Prop where
  now : s'.now = s.now
  moment : s'.moment = s.moment
  named : s'.directory.named = s.directory.named
  gates : x.isProbe = true → s'.gates = s.gates
  coordinator : x.isProbe = false → s'.coordinator = s.coordinator
  cancelled : x.isProbe = true → s'.cancelled = s.cancelled ∨
    x.plan.cancelsScope = true ∧ s'.cancelled = x.scope.token.number :: s.cancelled

namespace Agrees

variable {probe : Bool} {s s' : Site}

theorem refl (probe : Bool) (s : Site) : s.Agrees probe s :=
  ⟨rfl, rfl, rfl, rfl, fun _ => rfl, fun _ => rfl⟩

theorem cause? (h : s.Agrees probe s') (scope : Scope) : s'.cause? scope = s.cause? scope := by
  unfold Site.cause?
  rw [h.directory, h.now]

theorem cancelled? (h : s.Agrees probe s') (scope : Scope) :
    s'.cancelled? scope = s.cancelled? scope := by
  unfold Site.cancelled?
  rw [h.directory, h.now]

theorem expired? (h : s.Agrees probe s') (frames : List Frame) :
    Pipeline.expired? s' frames = Pipeline.expired? s frames := by
  induction frames with
  | nil => rfl
  | cons frame outer ih =>
    unfold Pipeline.expired?
    rw [ih]
    cases frame with
    | timeout limit scope => simp only [h.cancelled? scope]
    | recovery | call | slot | logging | translation => rfl

theorem note (h : s.Agrees probe s') (entries entries' : Journal) :
    (s.note entries).Agrees probe (s'.note entries') :=
  ⟨h.now, h.moment, h.directory, h.ids, h.gates, h.coordinator⟩

theorem setTokens (h : s.Agrees probe s') (tokens : Tokens) :
    (s.setTokens tokens).Agrees probe (s'.setTokens tokens) := by
  refine ⟨h.now, h.moment, ?_, h.ids, h.gates, h.coordinator⟩
  unfold Site.setTokens
  rw [h.directory]

theorem cancel (h : s.Agrees probe s') (scope : Scope) :
    (s.cancel scope).Agrees probe (s'.cancel scope) := by
  unfold Site.cancel
  rw [h.directory]
  exact h.setTokens _

theorem setIds (h : s.Agrees probe s') (ids : Http.IdSupply) :
    ({ s with ids := ids } : Site).Agrees probe { s' with ids := ids } :=
  ⟨h.now, h.moment, h.directory, rfl, h.gates, h.coordinator⟩

theorem setGates (h : s.Agrees probe s') {gates gates' : Gates}
    (hSame : probe = false → gates' = gates) :
    ({ s with gates := gates } : Site).Agrees probe { s' with gates := gates' } :=
  ⟨h.now, h.moment, h.directory, h.ids, hSame, h.coordinator⟩

theorem setCoordinator (h : s.Agrees probe s') (coordinator : Readiness.Coordinator) :
    ({ s with coordinator := coordinator } : Site).Agrees probe
      { s' with coordinator := coordinator } :=
  ⟨h.now, h.moment, h.directory, h.ids, h.gates, fun _ => rfl⟩

theorem scopeOf (h : s.Agrees probe s') (r : Http.Request) :
    (s'.scopeOf r).1 = (s.scopeOf r).1 ∧ (s.scopeOf r).2.Agrees probe (s'.scopeOf r).2 := by
  refine ⟨scopeOf_fst h.directory rfl, ?_⟩
  unfold Site.scopeOf
  cases r.scope with
  | some scope => exact h
  | none =>
    dsimp only
    rw [h.directory]
    exact h.setTokens _

end Agrees

namespace Spares

variable {x : Sending} {o s : Site}

theorem refl (x : Sending) (s : Site) : s.Spares x s :=
  ⟨rfl, rfl, rfl, fun _ => rfl, fun _ => rfl, fun _ => .inl rfl⟩

theorem note (h : o.Spares x s) (entries : Journal) : o.Spares x (s.note entries) :=
  ⟨h.now, h.moment, h.named, h.gates, h.coordinator, h.cancelled⟩

theorem setIds (h : o.Spares x s) (ids : Http.IdSupply) : o.Spares x { s with ids := ids } :=
  ⟨h.now, h.moment, h.named, h.gates, h.coordinator, h.cancelled⟩

theorem setGates (h : o.Spares x s) (hOther : x.isProbe = false) (gates : Gates) :
    o.Spares x { s with gates := gates } :=
  ⟨h.now, h.moment, h.named, Sending.one_kind hOther, h.coordinator, h.cancelled⟩

theorem setCoordinator (h : o.Spares x s) (hProbe : x.isProbe = true)
    (coordinator : Readiness.Coordinator) :
    o.Spares x { s with coordinator := coordinator } :=
  ⟨h.now, h.moment, h.named, h.gates, fun hOther => Sending.one_kind hOther hProbe, h.cancelled⟩

/-- Numbers are handed out, and nothing is cancelled. -/
theorem setTokens (h : o.Spares x s) {tokens : Tokens} (hSame : tokens.cancelled = s.cancelled) :
    o.Spares x (s.setTokens tokens) := by
  refine ⟨h.now, h.moment, h.named, h.gates, h.coordinator, ?_⟩
  intro hProbe
  have hBefore := h.cancelled hProbe
  rw [← hSame] at hBefore
  exact hBefore

theorem scopeOf (h : o.Spares x s) (r : Http.Request) : o.Spares x (s.scopeOf r).2 := by
  unfold Site.scopeOf
  cases r.scope with
  | some scope => exact h
  | none => exact h.setTokens rfl

theorem setTokens_of_other (h : o.Spares x s) (hOther : x.isProbe = false) (tokens : Tokens) :
    o.Spares x (s.setTokens tokens) :=
  ⟨h.now, h.moment, h.named, h.gates, h.coordinator, Sending.one_kind hOther⟩

end Spares

/-- A request does the same on two sites that agree: it has made `s` of `o`, and on the other side
there is `s'`. -/
structure Beside (x : Sending) (o s s' : Site) : Prop where
  agrees : s.Agrees x.isProbe s'
  spares : o.Spares x s

namespace Beside

variable {x : Sending} {o s s' : Site}

theorem note (h : o.Beside x s s') (entries entries' : Journal) :
    o.Beside x (s.note entries) (s'.note entries') :=
  ⟨h.agrees.note entries entries', h.spares.note entries⟩

theorem mapGates (h : o.Beside x s s') (hOther : x.isProbe = false) (f : Gates → Gates) :
    o.Beside x { s with gates := f s.gates } { s' with gates := f s'.gates } :=
  ⟨h.agrees.setGates fun hSame => congrArg f (h.agrees.gates hSame),
    h.spares.setGates hOther _⟩

theorem setIds (h : o.Beside x s s') (ids : Http.IdSupply) :
    o.Beside x { s with ids := ids } { s' with ids := ids } :=
  ⟨h.agrees.setIds ids, h.spares.setIds ids⟩

theorem setTokens (h : o.Beside x s s') (hOther : x.isProbe = false) (tokens : Tokens) :
    o.Beside x (s.setTokens tokens) (s'.setTokens tokens) :=
  ⟨h.agrees.setTokens tokens, h.spares.setTokens_of_other hOther tokens⟩

theorem cancel (h : o.Beside x s s') (hOther : x.isProbe = false) (scope : Scope) :
    o.Beside x (s.cancel scope) (s'.cancel scope) :=
  ⟨h.agrees.cancel scope, h.spares.setTokens_of_other hOther _⟩

theorem setCoordinator (h : o.Beside x s s') (hProbe : x.isProbe = true)
    (coordinator : Readiness.Coordinator) :
    o.Beside x { s with coordinator := coordinator } { s' with coordinator := coordinator } :=
  ⟨h.agrees.setCoordinator coordinator, h.spares.setCoordinator hProbe coordinator⟩

theorem scopeOf (h : o.Beside x s s') (r : Http.Request) :
    o.Beside x (s.scopeOf r).2 (s'.scopeOf r).2 :=
  ⟨(h.agrees.scopeOf r).2, h.spares.scopeOf r⟩

theorem setLimiter (h : o.Beside x s s') (hOther : x.isProbe = false) (l : RateLimiter Float) :
    o.Beside x (s.setLimiter l) (s'.setLimiter l) :=
  h.mapGates hOther fun gates => { gates with limiter := some l }

theorem setBreaker (h : o.Beside x s s') (hOther : x.isProbe = false)
    (b : Breaker.CircuitBreaker) : o.Beside x (s.setBreaker b) (s'.setBreaker b) :=
  h.mapGates hOther fun gates => { gates with breaker := some b }

theorem setBulkhead (h : o.Beside x s s') (hOther : x.isProbe = false) (b : Bulkhead) :
    o.Beside x (s.setBulkhead b) (s'.setBulkhead b) :=
  h.mapGates hOther fun gates => { gates with bulkhead := some b }

theorem onBreaker (h : o.Beside x s s') (hOther : x.isProbe = false)
    (f : Breaker.CircuitBreaker → Breaker.CircuitBreaker × Journal) :
    o.Beside x (s.onBreaker f) (s'.onBreaker f) := by
  unfold Site.onBreaker
  rw [h.agrees.gates hOther]
  cases s.gates.breaker with
  | none => exact h
  | some b => exact (h.setBreaker hOther _).note _ _

theorem onBulkhead (h : o.Beside x s s') (hOther : x.isProbe = false)
    (f : Bulkhead → Bulkhead × Journal) : o.Beside x (s.onBulkhead f) (s'.onBulkhead f) := by
  unfold Site.onBulkhead
  rw [h.agrees.gates hOther]
  cases s.gates.bulkhead with
  | none => exact h
  | some b => exact (h.setBulkhead hOther _).note _ _

end Beside

end Site

/-! ## Frames -/

/-- A probe is inside of no gate. -/
def Sending.Clears (x : Sending) (frames : List Frame) : Prop :=
  x.isProbe = true → ∀ frame ∈ frames, frame.isGate = false

section Frames

variable {x : Sending} {o s s' : Site} {frame : Frame} {frames : List Frame}

theorem Sending.Clears.nil (x : Sending) : x.Clears [] := by
  intro _ frame hMem
  cases hMem

/-- Others may be inside of anything. -/
theorem Sending.Clears.of_other (h : x.isProbe = false) (frames : List Frame) :
    x.Clears frames :=
  Sending.one_kind h

theorem Sending.Clears.cons (h : x.Clears frames)
    (hFrame : x.isProbe = true → frame.isGate = false) : x.Clears (frame :: frames) := by
  intro hProbe
  exact List.forall_mem_cons.mpr ⟨hFrame hProbe, h hProbe⟩

theorem Sending.Clears.head (h : x.Clears (frame :: frames)) :
    x.isProbe = true → frame.isGate = false :=
  fun hProbe => h hProbe frame List.mem_cons_self

theorem Sending.Clears.tail (h : x.Clears (frame :: frames)) : x.Clears frames :=
  fun hProbe inner hMem => h hProbe inner (List.mem_cons_of_mem _ hMem)

theorem Sending.Clears.pastUnarmed (h : x.Clears frames) : x.Clears (pastUnarmed frames) := by
  unfold Pipeline.pastUnarmed
  split
  · exact h.tail
  · exact h

/-- A request that may meet a gate is no probe. -/
theorem Sending.other_of_gate {isGate : Bool} (h : x.isProbe = true → isGate = false)
    (hGate : isGate = true) : x.isProbe = false := by
  cases hProbe : x.isProbe with
  | false => rfl
  | true =>
    rw [h hProbe] at hGate
    cases hGate

theorem beside_rise (h : o.Beside x s s') (hFrame : x.isProbe = true → frame.isGate = false)
    (c : Completion) :
    o.Beside x (frame.rise s c).1 (frame.rise s' c).1 ∧
      (frame.rise s' c).2 = (frame.rise s c).2 := by
  cases frame with
  | recovery method path =>
    cases c with
    | outcome result => exact ⟨h, rfl⟩
    | panic payload => exact ⟨h.note _ _, rfl⟩
  | timeout limit scope => exact ⟨h, rfl⟩
  | slot => exact ⟨h.onBulkhead (Sending.other_of_gate hFrame rfl) Bulkhead.release, rfl⟩
  | call admission scope =>
    have hOther := Sending.other_of_gate hFrame rfl
    cases c with
    | outcome result =>
      refine ⟨?_, rfl⟩
      simp only [Frame.rise, Frame.verdict, h.agrees.cause?, h.agrees.now]
      exact h.onBreaker hOther _
    | panic payload =>
      refine ⟨?_, rfl⟩
      simp only [Frame.rise, h.agrees.now]
      exact h.onBreaker hOther _
  | logging id method path started =>
    cases c with
    | outcome result => exact ⟨h.note _ _, rfl⟩
    | panic payload => exact ⟨h, rfl⟩
  | translation translate => rcases c with (response | failure) | payload <;> exact ⟨h, rfl⟩

theorem beside_ascend (h : o.Beside x s s') (hFrames : x.Clears frames) (c : Completion) :
    o.Beside x (ascend s c frames).1 (ascend s' c frames).1 ∧
      (ascend s' c frames).2 = (ascend s c frames).2 := by
  induction frames generalizing s s' c with
  | nil => exact ⟨h, rfl⟩
  | cons frame outer ih =>
    obtain ⟨hSites, hSame⟩ := beside_rise h hFrames.head c
    simp only [ascend, hSame]
    exact ih hSites hFrames.tail _

theorem beside_discard (h : o.Beside x s s') (hFrame : x.isProbe = true → frame.isGate = false) :
    o.Beside x (frame.discard s) (frame.discard s') := by
  cases frame with
  | call admission scope => exact h.onBreaker (Sending.other_of_gate hFrame rfl) _
  | slot => exact h.onBulkhead (Sending.other_of_gate hFrame rfl) Bulkhead.release
  | recovery | timeout | logging | translation => exact h

theorem beside_discardAll (h : o.Beside x s s') (hFrames : x.Clears frames) :
    o.Beside x (discardAll s frames) (discardAll s' frames) := by
  induction frames generalizing s s' with
  | nil => exact h
  | cons frame outer ih => exact ih (beside_discard h hFrames.head) hFrames.tail

end Frames

/-! ## Requests -/

/-- A probe waits for its handler alone, and only under what it came under. No probe waits in
line. -/
def Activity.Fits (x : Sending) : Activity → Prop
  | .queued _ _ _ _ r => x.isProbe = false ∧ Http.isProbePath r.path = false
  | .awaitingEnd scope => x.isProbe = true → scope = x.scope
  | .working _ scope => x.isProbe = true → scope = x.scope
  | _ => True

namespace Flight

/-- What holds of a request from when it is sent. -/
structure Fits (x : Sending) (f : Flight) : Prop where
  plan : f.plan = x.plan
  frames : x.Clears f.frames
  activity : f.activity.Fits x

/-- A request inside of its frames, at work on two sites that agree. -/
structure AtWork (x : Sending) (o s s' : Site) (f : Flight) : Prop where
  sites : o.Beside x s s'
  plan : f.plan = x.plan
  frames : x.Clears f.frames

/-- What a request has done on two sites that agree, and what has become of it on either. -/
structure Beside (x : Sending) (o : Site) (after after' : Site × Flight) : Prop where
  sites : o.Beside x after.1 after'.1
  same : after'.2 = after.2
  fits : after.2.Fits x

variable {x : Sending} {o s s' : Site} {f : Flight}

theorem AtWork.waits (h : AtWork x o s s' f) {activity : Activity} (hFits : activity.Fits x) :
    Beside x o (s, { f with activity := activity }) (s', { f with activity := activity }) :=
  ⟨h.sites, rfl, h.plan, h.frames, hFits⟩

theorem AtWork.moved {s₁ s₁' : Site} (h : AtWork x o s s' f) (hSites : o.Beside x s₁ s₁') :
    AtWork x o s₁ s₁' f :=
  ⟨hSites, h.plan, h.frames⟩

theorem AtWork.note (h : AtWork x o s s' f) (entries entries' : Journal) :
    AtWork x o (s.note entries) (s'.note entries') f :=
  h.moved (h.sites.note entries entries')

theorem beside_complete (h : AtWork x o s s' f) (c : Completion) :
    Beside x o (f.complete s c) (f.complete s' c) := by
  obtain ⟨hSites, hSame⟩ := beside_ascend h.sites h.frames c
  refine ⟨hSites, ?_, h.plan, Sending.Clears.nil x, trivial⟩
  simp only [complete, hSame, hSites.agrees.now]

theorem beside_reject (h : AtWork x o s s' f) (failure : Failure) (event : Entry) :
    Beside x o (f.reject s failure event) (f.reject s' failure event) :=
  beside_complete (h.note _ _) _

/-! ### In the handler -/

/-- A request at work in its handler: a probe has cancelled nothing so far, and is under what it
came under. -/
structure Attended (x : Sending) (o s s' : Site) (f : Flight) (scope : Scope) : Prop
    extends AtWork x o s s' f where
  cancelled : x.isProbe = true → s.cancelled = o.cancelled
  scope : x.isProbe = true → scope = x.scope

variable {scope : Scope}

theorem beside_finishWork (h : Attended x o s s' f scope) :
    Beside x o (f.finishWork s scope) (f.finishWork s' scope) := by
  unfold finishWork
  cases hCancels : f.plan.cancelsScope with
  | false => exact beside_complete h.toAtWork _
  | true =>
    have hSpares : o.Spares x (s.cancel scope) := by
      refine ⟨h.sites.spares.now, h.sites.spares.moment, h.sites.spares.named,
        h.sites.spares.gates, h.sites.spares.coordinator, ?_⟩
      intro hProbe
      refine .inr ⟨?_, ?_⟩
      · rw [← h.plan]
        exact hCancels
      · rw [← h.scope hProbe, ← h.cancelled hProbe]
        rfl
    exact beside_complete (h.moved ⟨h.sites.agrees.cancel scope, hSpares⟩) _

theorem beside_beginWork (h : Attended x o s s' f scope) :
    Beside x o (f.beginWork s scope) (f.beginWork s' scope) := by
  unfold beginWork
  split
  · exact beside_finishWork h
  · rw [h.sites.agrees.now]
    exact h.waits h.scope

theorem beside_awaitEnd (h : Attended x o s s' f scope) :
    Beside x o (f.awaitEnd s scope) (f.awaitEnd s' scope) := by
  unfold awaitEnd
  rw [h.sites.agrees.cancelled?]
  cases s.cancelled? scope with
  | none => exact h.waits h.scope
  | some cause =>
    dsimp only
    split
    · exact beside_complete h.toAtWork _
    · exact beside_beginWork h

/-! ### On the way in -/

/-- A request on its way in. So far a probe has cancelled nothing, and is under what it came
under. -/
structure Entering (x : Sending) (o s s' : Site) (f : Flight) (r : Http.Request) : Prop
    extends AtWork x o s s' f where
  path : Http.isProbePath r.path = x.isProbe
  cancelled : x.isProbe = true → s.cancelled = o.cancelled
  scope : x.isProbe = true → (s.scopeOf r).1 = x.scope

variable {r : Http.Request}

theorem Entering.push (h : Entering x o s s' f r) {frame : Frame}
    (hFrame : x.isProbe = true → frame.isGate = false) : Entering x o s s' (f.push frame) r :=
  { h with frames := h.frames.cons hFrame }

theorem beside_handle (h : Entering x o s s' f r) :
    Beside x o (f.handle s r) (f.handle s' r) := by
  obtain ⟨hSameScope, hSites⟩ := h.sites.agrees.scopeOf r
  have hAttended : ∀ sight, Attended x o (s.scopeOf r).2 (s'.scopeOf r).2
      { f.marked handlerLabel with sight := some sight } (s.scopeOf r).1 := by
    intro sight
    refine ⟨⟨h.sites.scopeOf r, h.plan, h.frames⟩, ?_, h.scope⟩
    intro hProbe
    rw [Site.cancelled_scopeOf]
    exact h.cancelled hProbe
  unfold handle
  simp only [hSameScope, hSites.now, hSites.cause?]
  split
  · exact beside_awaitEnd (hAttended _)
  · exact beside_beginWork (hAttended _)

/-- Only probes are told whether the service is ready. -/
theorem isProbePath_of_resolve {routes : List String} {method path : String}
    (h : Http.Destination.resolve routes method path = .readiness) :
    Http.isProbePath path = true := by
  unfold Http.Destination.resolve at h
  split at h
  · cases h
  · split at h
    · unfold Http.Destination.probe at h
      split at h <;> cases h
    · split at h
      · next hPath => rcases hPath with rfl | rfl <;> decide
      · cases h

theorem beside_arrive (h : Entering x o s s' f r) :
    Beside x o (f.arrive s r) (f.arrive s' r) := by
  unfold arrive
  split
  · split
    · exact beside_handle h
    · exact beside_complete h.toAtWork _
    · next hReadiness =>
      have hProbe : x.isProbe = true := h.path ▸ isProbePath_of_resolve hReadiness
      have hRun : Readiness.Probe.run s'.coordinator s'.moment =
          Readiness.Probe.run s.coordinator s.moment := by
        rw [h.sites.agrees.coordinator hProbe, h.sites.agrees.moment]
      have hSites := h.sites.setCoordinator hProbe (Readiness.Probe.run s.coordinator s.moment).2.1
      rw [hRun]
      exact beside_complete ((h.moved hSites).note _ _) _
    · exact beside_complete h.toAtWork _
    · exact beside_complete h.toAtWork _
  · exact beside_handle h

end Flight

/-- A stage makes the same of a request on two sites that agree. -/
inductive Passage.Beside (x : Sending) (o : Site) : Passage → Passage → Prop
  | inwards {s s' : Site} {f : Flight} {r : Http.Request} (h : Flight.Entering x o s s' f r) :
      Beside x o (.inwards f s r) (.inwards f s' r)
  | waits {s s' : Site} {f : Flight} (h : Flight.Beside x o (s, f) (s', f)) :
      Beside x o (.waits f s) (.waits f s')
  | rejected {s s' : Site} {f : Flight} (failure : Failure) (event : Entry)
      (h : Flight.AtWork x o s s' f) :
      Beside x o (.rejected f s failure event) (.rejected f s' failure event)
  | ends {s s' : Site} {f : Flight} (c : Completion) (h : Flight.AtWork x o s s' f) :
      Beside x o (.ends f s c) (.ends f s' c)
  | lost {s s' : Site} {f : Flight} (cause : Cause) (h : Flight.AtWork x o s s' f) :
      Beside x o (.lost f s cause) (.lost f s' cause)

namespace Flight

variable {x : Sending} {o s s' : Site} {f : Flight} {r : Http.Request} {rest : List Interceptor}

/-- A request that is no probe may do anything on its way in. -/
theorem AtWork.entering (h : AtWork x o s s' f) (hOther : x.isProbe = false)
    (hPath : Http.isProbePath r.path = false) : Entering x o s s' f r :=
  { h with
    path := hPath.trans hOther.symm
    cancelled := Sending.one_kind hOther
    scope := Sending.one_kind hOther }

theorem AtWork.push (h : AtWork x o s s' f) (hOther : x.isProbe = false) (frame : Frame) :
    AtWork x o s s' (f.push frame) :=
  ⟨h.sites, h.plan, .of_other hOther _⟩

/-- In line, and off it. -/
theorem beside_look (h : AtWork x o s s' f) (hOther : x.isProbe = false)
    (hPath : Http.isProbePath r.path = false) (b : Bulkhead) (ticket deadline : Nat)
    (scope : Scope) :
    (f.look s b ticket deadline scope rest r).Beside x o
      (f.look s' b ticket deadline scope rest r) := by
  have hPoll : b.poll ticket deadline s'.now (s'.cancelled? scope) =
      b.poll ticket deadline s.now (s.cancelled? scope) := by
    rw [h.sites.agrees.now, h.sites.agrees.cancelled?]
  have hAtWork := fun b entries => (h.moved (h.sites.setBulkhead hOther b)).note entries entries
  unfold look
  rw [hPoll]
  dsimp only
  split
  · refine .waits ?_
    apply (hAtWork _ _).waits
    exact ⟨hOther, hPath⟩
  · exact .inwards (((hAtWork _ _).push hOther _).entering hOther hPath)
  · exact .rejected _ _ (hAtWork _ _)
  · exact .lost _ (hAtWork _ _)

theorem beside_meetGate (h : AtWork x o s s' f) (hOther : x.isProbe = false)
    (hPath : Http.isProbePath r.path = false) (stage : Interceptor) :
    (f.meetGate s r rest stage).Beside x o (f.meetGate s' r rest stage) := by
  have hScope := (h.sites.agrees.scopeOf r).1
  have hNow := (h.sites.scopeOf r).agrees.now
  cases stage with
  | rateLimit =>
    simp only [meetGate, h.sites.agrees.gates hOther]
    cases s.gates.limiter with
    | none => exact .inwards (h.entering hOther hPath)
    | some l =>
      have hAtWork := fun l => h.moved (h.sites.setLimiter hOther l)
      simp only [h.sites.agrees.now]
      split
      · exact .inwards ((hAtWork _).entering hOther hPath)
      · exact .rejected _ _ (hAtWork _)
  | circuitBreaker =>
    simp only [meetGate, h.sites.agrees.gates hOther]
    cases s.gates.breaker with
    | none => exact .inwards (h.entering hOther hPath)
    | some b =>
      have hAtWork := fun b entries =>
        (h.moved ((h.sites.scopeOf r).setBreaker hOther b)).note entries entries
      simp only [hScope, hNow]
      split
      · exact .inwards (((hAtWork _ _).push hOther _).entering hOther hPath)
      · exact .rejected _ _ (hAtWork _ _)
  | bulkhead =>
    simp only [meetGate, h.sites.agrees.gates hOther]
    cases s.gates.bulkhead with
    | none => exact .inwards (h.entering hOther hPath)
    | some b =>
      simp only [hScope, hNow]
      exact beside_look (h.moved (h.sites.scopeOf r)) hOther hPath _ _ _ _
  | panicRecovery | timeout | requestLogging | schemaValidation | errorTranslation | mark =>
    exact .inwards (h.entering hOther hPath)

/-- What a stage does with a request, where the gates are for others than probes. -/
theorem beside_meet (h : Entering x o s s' f r) {stage : Interceptor}
    (hStage : x.isProbe = true → stage.isGate = false) :
    (f.meet s r rest stage).Beside x o (f.meet s' r rest stage) := by
  have hGate : stage.isGate = true →
      (f.meetGate s r rest stage).Beside x o (f.meetGate s' r rest stage) := by
    intro hGate
    have hOther := Sending.other_of_gate hStage hGate
    exact beside_meetGate h.toAtWork hOther (h.path.trans hOther) stage
  cases stage with
  | panicRecovery => exact .inwards (h.push fun _ => rfl)
  | timeout limit =>
    have hOther := Sending.other_of_gate hStage rfl
    obtain ⟨hScope, hSites⟩ := h.sites.agrees.scopeOf r
    have hAtWork := fun tokens => h.moved ((h.sites.scopeOf r).setTokens hOther tokens)
    simp only [meet, hScope, hSites.now, hSites.directory]
    exact .inwards (((hAtWork _).push hOther _).entering hOther (h.path.trans hOther))
  | rateLimit | circuitBreaker | bulkhead => exact hGate rfl
  | requestLogging =>
    simp only [meet, h.sites.agrees.ids]
    -- the frame keeps the time of the entry, which is the same on both sites
    generalize Http.RequestId.assign _ s.ids = assigned
    have hFlight : f.push (.logging assigned.1 r.method r.path s'.now) =
        f.push (.logging assigned.1 r.method r.path s.now) := by
      rw [h.sites.agrees.now]
    have hPushed : Entering x o s s' (f.push (.logging assigned.1 r.method r.path s.now)) r :=
      h.push fun _ => rfl
    rw [hFlight]
    refine .inwards { hPushed with sites := h.sites.setIds _, scope := ?_ }
    intro hProbe
    rw [← h.scope hProbe]
    exact Site.scopeOf_fst rfl rfl
  | schemaValidation v =>
    have hAtWork : AtWork x o s s' (f.marked v.label) := ⟨h.sites, h.plan, h.frames⟩
    simp only [meet]
    cases v.check r with
    | accepted => exact .inwards { h with }
    | rejected failure => exact .ends _ (hAtWork.note _ _)
    | panicked payload => exact .ends _ { hAtWork with frames := hAtWork.frames.pastUnarmed }
  | errorTranslation translate => exact .inwards (h.push fun _ => rfl)
  | mark label bypasses rejection =>
    simp only [meet]
    cases rejection with
    | none => exact .inwards { h with }
    | some failure => exact .ends _ ⟨h.sites, h.plan, h.frames⟩

/-- Every gate lets probes by. -/
theorem bypassesProbes_of_isGate {stage : Interceptor} (h : stage.isGate = true) :
    stage.bypassesProbes = true := by
  cases stage with
  | timeout | rateLimit | circuitBreaker | bulkhead => rfl
  | panicRecovery | requestLogging | schemaValidation | errorTranslation | mark => cases h

theorem beside_pass (h : Entering x o s s' f r) (stage : Interceptor) :
    (f.pass s r stage rest).Beside x o (f.pass s' r stage rest) := by
  unfold pass
  split
  · exact .inwards h
  · next hStays =>
    refine beside_meet h ?_
    intro hProbe
    rw [h.path, hProbe, Bool.true_and] at hStays
    cases hGate : stage.isGate with
    | false => rfl
    | true => exact absurd (bypassesProbes_of_isGate hGate) hStays

theorem beside_follow {passage passage' : Passage} (h : passage.Beside x o passage')
    (hEnter : ∀ {f s s' r}, Entering x o s s' f r →
      Beside x o (f.enter s r rest) (f.enter s' r rest)) :
    Beside x o (passage.follow rest) (passage'.follow rest) := by
  cases h with
  | inwards h => exact hEnter h
  | waits h => exact h
  | rejected failure event h => exact beside_reject h failure event
  | ends c h => exact beside_complete h c
  | lost cause h => exact beside_complete h _

/-- The way in. -/
theorem beside_enter (h : Entering x o s s' f r) (stages : List Interceptor) :
    Beside x o (f.enter s r stages) (f.enter s' r stages) := by
  induction stages generalizing s s' f r with
  | nil =>
    rw [enter_nil, enter_nil]
    exact beside_arrive h
  | cons stage rest ih =>
    rw [enter_cons, enter_cons]
    exact beside_follow (beside_pass h stage) ih

/-! ### Looked at, and dropped -/

theorem Fits.atWork (h : f.Fits x) (hAgrees : s.Agrees x.isProbe s') : AtWork x s s s' f :=
  ⟨⟨hAgrees, .refl x s⟩, h.plan, h.frames⟩

theorem Fits.attended (h : f.Fits x) (hAgrees : s.Agrees x.isProbe s') {scope : Scope}
    (hScope : x.isProbe = true → scope = x.scope) : Attended x s s s' f scope :=
  { h.atWork hAgrees with cancelled := fun _ => rfl, scope := hScope }

/-- Nothing has happened to a request that still waits. -/
theorem Fits.beside (h : f.Fits x) (hAgrees : s.Agrees x.isProbe s') :
    Beside x s (s, f) (s', f) :=
  ⟨(h.atWork hAgrees).sites, rfl, h⟩

theorem beside_pollActivity (h : f.Fits x) (hAgrees : s.Agrees x.isProbe s') :
    Beside x s (f.pollActivity s) (f.pollActivity s') := by
  have hSame := h.beside hAgrees
  have hFits := h.activity
  cases hActivity : f.activity with
  | queued ticket deadline scope rest r =>
    rw [hActivity] at hFits
    obtain ⟨hOther, hPath⟩ := hFits
    rw [pollActivity_queued hActivity, pollActivity_queued hActivity, hAgrees.gates hOther]
    cases s.gates.bulkhead with
    | none => exact hSame
    | some b =>
      apply beside_follow (beside_look (h.atWork hAgrees) hOther hPath _ _ _ _)
      intro f s s' r h
      exact beside_enter h rest
  | awaitingEnd scope =>
    rw [hActivity] at hFits
    simp only [pollActivity, hActivity]
    exact beside_awaitEnd (h.attended hAgrees hFits)
  | working done scope =>
    rw [hActivity] at hFits
    simp only [pollActivity, hActivity, hAgrees.now]
    split
    · exact beside_finishWork (h.attended hAgrees hFits)
    · exact hSame
  | ended | aborted =>
    simp only [pollActivity, hActivity]
    exact hSame

theorem Fits.beside_discardActivity (h : f.Fits x) (hSites : o.Beside x s s') :
    o.Beside x (f.discardActivity s) (f.discardActivity s') := by
  have hFits := h.activity
  unfold discardActivity
  cases hActivity : f.activity with
  | queued ticket deadline scope rest r =>
    rw [hActivity] at hFits
    exact hSites.onBulkhead hFits.1 _
  | awaitingEnd | working | ended | aborted => exact hSites

/-- A probe is inside of no timeout, so that no timeout ends it. -/
theorem Fits.beside_pollTimeouts (h : f.Fits x) (hSites : o.Beside x s s') :
    Beside x o (f.pollTimeouts s) (f.pollTimeouts s') := by
  unfold pollTimeouts
  rw [hSites.agrees.expired?]
  cases hExpired : expired? s f.frames with
  | none => exact ⟨hSites, rfl, h⟩
  | some e =>
    have hTimeout : x.isProbe = true → (Frame.timeout e.limit e.scope).isGate = false := by
      intro hProbe
      apply h.frames hProbe
      rw [expired?_split hExpired]
      exact List.mem_append_right _ List.mem_cons_self
    have hOther := Sending.other_of_gate hTimeout rfl
    have hInner := beside_discardAll (h.beside_discardActivity hSites) (.of_other hOther e.inner)
    have hAtWork : AtWork x o _ _ { f with frames := e.outer } :=
      ⟨hInner.cancel hOther e.scope, h.plan, .of_other hOther _⟩
    exact beside_reject hAtWork _ _

theorem beside_poll (h : f.Fits x) (hAgrees : s.Agrees x.isProbe s') :
    Beside x s (f.poll s) (f.poll s') := by
  have hActivity := beside_pollActivity h hAgrees
  unfold poll
  dsimp only
  rw [hActivity.same]
  split
  · exact hActivity.fits.beside_pollTimeouts hActivity.sites
  · exact ⟨hActivity.sites, rfl, hActivity.fits⟩

theorem beside_abort (h : f.Fits x) (hAgrees : s.Agrees x.isProbe s') :
    Beside x s (f.abort s) (f.abort s') := by
  have hSites := (h.atWork hAgrees).sites
  unfold abort
  split
  · exact ⟨beside_discardAll (h.beside_discardActivity hSites) h.frames, rfl, h.plan,
      Sending.Clears.nil x, trivial⟩
  · exact h.beside hAgrees

/-- A request that has just been sent. -/
theorem beside_sent (hAgrees : s.Agrees (s.sending r f.plan).isProbe s') (hFrames : f.frames = [])
    (stages : List Interceptor) :
    Beside (s.sending r f.plan) s (f.enter s r stages) (f.enter s' r stages) := by
  refine beside_enter ⟨⟨⟨hAgrees, .refl _ s⟩, rfl, ?_⟩, rfl, fun _ => rfl, fun _ => rfl⟩ stages
  rw [hFrames]
  exact Sending.Clears.nil _

end Flight

end Gatehouse.Pipeline
