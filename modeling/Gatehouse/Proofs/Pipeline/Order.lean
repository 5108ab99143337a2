import Gatehouse.Proofs.Pipeline.Chain
import Gatehouse.Proofs.Pipeline.Moves

/-!
# The order in which stages are met

Some stages leave a mark on the requests they see, and so does the handler. The marks of a request
are at any time a beginning of those that it meets on its way through all stages, and all of them
once its handler has seen it. Requests may wait on the way, in any interleaving with others.

* `Http.isProbePath_iff`: which paths are those of probes.
* `Flight.Follows`: what the marks of a request are at any time.
* `follows_reachable`: of all requests, after any moves.
* `stages_in_order`: which stages a pipeline has, in which order, and which of them a request meets.
-/

namespace Gatehouse.Http

theorem remainder?_eq_some_iff {probe path rest : List Char} :
    remainder? probe path = some rest ↔ path = probe ++ rest := by
  induction probe generalizing path with
  | nil => simp [remainder?]
  | cons a probe ih =>
    cases path with
    | nil => simp [remainder?]
    | cons b path =>
      by_cases hSame : a = b
      · simp [remainder?, hSame, ih]
      · simp [remainder?, hSame, Ne.symm hSame]

theorem isUnder_iff {probe path : String} :
    isUnder probe path = true ↔ path = probe ∨ ∃ below, path = probe ++ "/" ++ below := by
  have hBelow : ∀ below : String, path = probe ++ "/" ++ below ↔
      remainder? probe.toList path.toList = some ('/' :: below.toList) := by
    intro below
    rw [remainder?_eq_some_iff, ← String.toList_inj]
    simp
  have hSelf : path = probe ↔ remainder? probe.toList path.toList = some [] := by
    rw [remainder?_eq_some_iff, List.append_nil, String.toList_inj]
  simp only [hBelow, hSelf]
  unfold isUnder
  constructor
  · intro h
    split at h
    · exact .inl ‹_›
    · next c rest hRest =>
      obtain rfl : c = '/' := by simpa using h
      exact .inr ⟨String.ofList rest, by rw [hRest, String.toList_ofList]⟩
    · cases h
  · rintro (h | ⟨below, h⟩) <;> simp [h]

/-- The three paths of probes, and whatever is below one of them. -/
theorem isProbePath_iff {path : String} :
    isProbePath path = true ↔ ∃ probe ∈ ["/livez", "/readyz", "/healthz"],
      path = probe ∨ ∃ below, path = probe ++ "/" ++ below := by
  simp only [isProbePath, List.any_eq_true, isUnder_iff]
  rfl

end Gatehouse.Http

namespace Gatehouse.Pipeline

/-- Whether a stage does not let requests to a path by. -/
def Interceptor.sees (path : String) (i : Interceptor) : Bool :=
  !(Http.isProbePath path && i.bypassesProbes)

/-- The mark that a stage leaves on the requests that it sees. -/
def Interceptor.label? : Interceptor → Option String
  | .schemaValidation v => some v.label
  | .mark label _ _ => some label
  | _ => none

/-- The marks of a request to a path that goes through all of some stages and comes to its
handler. -/
def route (path : String) (stages : List Interceptor) : List String :=
  (stages.filter (·.sees path)).filterMap Interceptor.label? ++ [Flight.handlerLabel]

variable {path : String} {stage : Interceptor} {rest : List Interceptor}

theorem route_cons_of_not_sees (h : stage.sees path = false) :
    route path (stage :: rest) = route path rest := by
  simp [route, h]

theorem route_cons_of_label?_eq_none (h : stage.label? = none) :
    route path (stage :: rest) = route path rest := by
  unfold route
  rw [List.filter_cons]
  split <;> simp [h]

theorem route_cons_of_label?_eq_some {label : String} (hSees : stage.sees path = true)
    (h : stage.label? = some label) : route path (stage :: rest) = label :: route path rest := by
  simp [route, hSees, h]

/-- The stages that a request in line for a slot has ahead of it. -/
def Activity.ahead? : Activity → Option (Http.Request × List Interceptor)
  | .queued _ _ _ rest r => some (r, rest)
  | _ => none

namespace Flight

variable {whole : List String} {f g : Flight} {r : Http.Request}

/-- A request on its way in, with the marks that are ahead of it. -/
structure OnRoute (whole : List String) (path : String) (f : Flight) (r : Http.Request)
    (rest : List Interceptor) : Prop where
  unseen : f.sight = none
  marks : f.trace ++ route path rest = whole
  path : r.path = path

/-- The marks of a request are the first ones, and all of them if its handler has seen it. -/
structure Begins (whole : List String) (f : Flight) : Prop where
  first : f.trace <+: whole
  all : f.sight.isSome = true → f.trace = whole

/-- In line for a slot, a request has the marks ahead that it does not have yet. -/
structure Follows (whole : List String) (path : String) (f : Flight) : Prop
    extends Begins whole f where
  ahead : ∀ r rest, f.activity.ahead? = some (r, rest) → OnRoute whole path f r rest

theorem OnRoute.begins {rest : List Interceptor} (h : OnRoute whole path f r rest) :
    Begins whole f := by
  refine ⟨⟨_, h.marks⟩, ?_⟩
  intro hSeen
  rw [h.unseen] at hSeen
  cases hSeen

/-- The frames do not matter. -/
theorem Begins.inside (h : Begins whole f) (frames : List Frame) :
    Begins whole { f with frames := frames } :=
  ⟨h.first, h.all⟩

theorem Begins.follows (h : Begins whole f) (hAhead : f.activity.ahead? = none) :
    Follows whole path f := by
  refine ⟨h, ?_⟩
  intro r rest hSome
  rw [hAhead] at hSome
  cases hSome

/-! ### In its handler -/

theorem Begins.complete (h : Begins whole f) (s : Site) (c : Completion) :
    Follows whole path (f.complete s c).2 :=
  Begins.follows ⟨h.first, h.all⟩ rfl

theorem Begins.beginWork (h : Begins whole f) (s : Site) (scope : Scope) :
    Follows whole path (f.beginWork s scope).2 := by
  unfold Flight.beginWork
  split
  · exact h.complete _ _
  · exact Begins.follows ⟨h.first, h.all⟩ rfl

theorem Begins.awaitEnd (h : Begins whole f) (s : Site) (scope : Scope) :
    Follows whole path (f.awaitEnd s scope).2 := by
  unfold Flight.awaitEnd
  split
  · exact Begins.follows ⟨h.first, h.all⟩ rfl
  · split
    · exact h.complete _ _
    · exact h.beginWork s scope

/-- The handler leaves the last mark. -/
theorem OnRoute.handle (h : OnRoute whole path f r []) (s : Site) :
    Follows whole path (f.handle s r).2 := by
  have hSeen : ∀ sight, Begins whole { f.marked handlerLabel with sight := some sight } := by
    intro sight
    exact ⟨⟨[], (List.append_nil _).trans h.marks⟩, fun _ => h.marks⟩
  unfold Flight.handle
  dsimp only
  split
  · exact (hSeen _).awaitEnd _ _
  · exact (hSeen _).beginWork _ _

theorem OnRoute.arrive (h : OnRoute whole path f r []) (s : Site) :
    Follows whole path (f.arrive s r).2 := by
  unfold Flight.arrive
  split
  · split
    · exact h.handle s
    · exact h.begins.complete _ _
    · exact h.begins.complete _ _
    · exact h.begins.complete _ _
    · exact h.begins.complete _ _
  · exact h.handle s

/-! ### On its way in -/

section

variable {stage : Interceptor} {rest : List Interceptor}

/-- What a stage leads to. -/
abbrev Leads (whole : List String) (path : String) (rest : List Interceptor) (p : Passage) : Prop :=
  p.Keeps (fun f _ r rest => OnRoute whole path f r rest) (fun after => Follows whole path after.2)
    rest

theorem OnRoute.look (h : OnRoute whole path f r rest) (s : Site) (b : Bulkhead)
    (ticket deadline : Nat) (scope : Scope) :
    Leads whole path rest (f.look s b ticket deadline scope rest r) := by
  unfold Flight.look
  dsimp only
  split
  · refine ⟨⟨h.begins.first, h.begins.all⟩, ?_⟩
    rintro r' rest' ⟨⟩
    exact ⟨h.unseen, h.marks, h.path⟩
  · exact ⟨h.unseen, h.marks, h.path⟩
  · exact h.begins.complete _ _
  · exact h.begins.complete _ _

theorem OnRoute.meetGate (h : OnRoute whole path f r rest) (gate : Interceptor) (s : Site) :
    Leads whole path rest (f.meetGate s r rest gate) := by
  unfold Flight.meetGate
  split
  · split
    · exact h
    · dsimp only
      split
      · exact h
      · exact h.begins.complete _ _
  · split
    · exact h
    · dsimp only
      split
      · exact ⟨h.unseen, h.marks, h.path⟩
      · exact h.begins.complete _ _
  · split
    · exact h
    · exact h.look _ _ _ _ _
  · exact h

/-- A stage that leaves no mark leaves the marks ahead as they are. -/
theorem OnRoute.unmarked (h : OnRoute whole path f r (stage :: rest))
    (hNone : stage.label? = none) :
    OnRoute whole path f r rest := by
  refine ⟨h.unseen, ?_, h.path⟩
  rw [← route_cons_of_label?_eq_none hNone]
  exact h.marks

theorem OnRoute.marked (h : OnRoute whole path f r (stage :: rest)) {label : String}
    (hSees : stage.sees path = true) (hLabel : stage.label? = some label) :
    OnRoute whole path (f.marked label) r rest := by
  refine ⟨h.unseen, ?_, h.path⟩
  have hMarks := h.marks
  rw [route_cons_of_label?_eq_some hSees hLabel] at hMarks
  rw [Flight.marked, List.append_assoc]
  exact hMarks

theorem OnRoute.meet (h : OnRoute whole path f r (stage :: rest)) (hSees : stage.sees path = true)
    (s : Site) : Leads whole path rest (f.meet s r rest stage) := by
  cases stage with
  | panicRecovery | timeout | requestLogging | errorTranslation =>
    have hRest := h.unmarked rfl
    exact ⟨hRest.unseen, hRest.marks, hRest.path⟩
  | rateLimit => exact (h.unmarked rfl).meetGate .rateLimit s
  | circuitBreaker => exact (h.unmarked rfl).meetGate .circuitBreaker s
  | bulkhead => exact (h.unmarked rfl).meetGate .bulkhead s
  | schemaValidation v =>
    have hMarked := h.marked hSees rfl
    simp only [Flight.meet]
    cases v.check r with
    | accepted => exact hMarked
    | rejected failure => exact hMarked.begins.complete _ _
    | panicked payload =>
      exact (hMarked.begins.inside (pastUnarmed f.frames)).complete _ _
  | mark label bypasses rejection =>
    have hMarked := h.marked hSees rfl
    simp only [Flight.meet]
    cases rejection with
    | none => exact hMarked
    | some failure => exact hMarked.begins.complete _ _

theorem OnRoute.pass (h : OnRoute whole path f r (stage :: rest)) (s : Site) :
    Leads whole path rest (f.pass s r stage rest) := by
  have hSees : stage.sees path = !(Http.isProbePath r.path && stage.bypassesProbes) := by
    rw [h.path]
    rfl
  unfold Flight.pass
  split
  · next hBypass =>
    rw [hBypass] at hSees
    refine ⟨h.unseen, ?_, h.path⟩
    rw [← route_cons_of_not_sees hSees]
    exact h.marks
  · next hBypass =>
    refine h.meet ?_ s
    rw [hSees, Bool.not_eq_true _ |>.mp hBypass]
    rfl

theorem OnRoute.enter (h : OnRoute whole path f r rest) (s : Site) :
    Follows whole path (f.enter s r rest).2 :=
  enter_keeps (fun _ s _ _ _ h => OnRoute.pass h s) (fun _ s _ h => OnRoute.arrive h s) f s r rest h

end

/-! ### At any time -/

theorem Follows.pollActivity (h : Follows whole path f) (s : Site) :
    Follows whole path (f.pollActivity s).2 := by
  cases hActivity : f.activity with
  | queued ticket deadline scope rest r =>
    have hAhead := h.ahead r rest (by rw [hActivity]; rfl)
    rw [pollActivity_queued hActivity]
    cases s.gates.bulkhead with
    | none => exact h
    | some b => exact follow_keeps (fun _ s _ h => OnRoute.enter h s) (hAhead.look ..)
  | awaitingEnd scope =>
    simp only [Flight.pollActivity, hActivity]
    exact h.toBegins.awaitEnd s scope
  | working done scope =>
    simp only [Flight.pollActivity, hActivity]
    split
    · exact h.toBegins.complete _ _
    · exact h
  | ended | aborted =>
    simp only [Flight.pollActivity, hActivity]
    exact h

theorem Follows.poll (h : Follows whole path f) (s : Site) : Follows whole path (f.poll s).2 := by
  have hActivity := h.pollActivity s
  unfold Flight.poll
  dsimp only
  split
  · unfold Flight.pollTimeouts
    split
    · exact hActivity
    · next e _ => exact (hActivity.inside e.outer).complete _ _
  · exact hActivity

theorem Follows.abort (h : Follows whole path f) (s : Site) : Follows whole path (f.abort s).2 := by
  unfold Flight.abort
  split
  · exact Begins.follows ⟨h.first, h.all⟩ rfl
  · exact h

end Flight

/-! ## Any moves -/

/-- All requests of some traffic have the marks that they are to have. -/
structure KeepsOrder (stages : List Interceptor) (sent : List Http.Request) (t : Traffic) :
    Prop where
  interceptors : t.interceptors = stages
  follows : List.Forall₂ (fun r f => Flight.Follows (route r.path stages) r.path f) sent t.flights

variable {stages : List Interceptor} {sent : List Http.Request} {t : Traffic}

theorem keepsOrder_onFlight (h : KeepsOrder stages sent t) (index : Nat)
    {op : Flight → Site → Site × Flight}
    (hOp : ∀ {whole path f} s, Flight.Follows whole path f → Flight.Follows whole path (op f s).2) :
    KeepsOrder stages sent (t.onFlight index op) := by
  unfold Traffic.onFlight
  cases hFlight : t.flights[index]? with
  | none => exact h
  | some f =>
    obtain ⟨r, hSent, hFollows⟩ := exists_beside h.follows hFlight
    exact ⟨h.interceptors, forall₂_set h.follows hSent (hOp t.site hFollows)⟩

theorem keepsOrder_send (h : KeepsOrder stages sent t) (id : String) (r : Http.Request)
    (plan : HandlerPlan) : KeepsOrder stages (sent ++ [r]) (t.send id r plan) := by
  refine ⟨h.interceptors, forall₂_concat h.follows ?_⟩
  rw [← h.interceptors]
  refine Flight.OnRoute.enter ⟨rfl, ?_, rfl⟩ t.site
  exact List.nil_append _

theorem keepsOrder_move (h : KeepsOrder stages sent t) (m : Move) :
    KeepsOrder stages (sent ++ m.requests) (t.move m) := by
  cases m with
  | send id r plan => exact keepsOrder_send h id r plan
  | poll index =>
    rw [Move.requests, List.append_nil]
    · exact keepsOrder_onFlight h index fun s h => h.poll s
    · simp
  | abort index =>
    rw [Move.requests, List.append_nil]
    · exact keepsOrder_onFlight h index fun s h => h.abort s
    · simp
  | clock | calendar | scope | readiness | observe =>
    rw [Move.requests, List.append_nil]
    · exact ⟨h.interceptors, h.follows⟩
    · simp

theorem keepsOrder_reachable {start : Traffic} (hStart : KeepsOrder stages [] start)
    (h : Reachable start sent t) : KeepsOrder stages sent t := by
  induction h with
  | start => exact hStart
  | move _ m ih => exact keepsOrder_move ih m

/-- The stages of a pipeline: those that are enabled, in the order of their priorities, and in the
order of registration where the priority is the same. -/
structure Ordered (registrations : List Registration) (stages : List Stage) : Prop where
  perm : stages.Perm (enabled registrations)
  sorted : stages.Pairwise fun a b => a.priority ≤ b.priority
  stable : ∀ p, ofPriority p stages = ofPriority p (enabled registrations)

/-- Registrations give the pipeline of their enabled stages by priority, which are in the order of
registration where the priority is the same; and the same pipeline, exactly if they agree on this
order. Whatever stands in its places, a chain is made of what does not let the request by, one
inside of the other, provided that the path is kept; if each passes the request on once, then each
is asked once and in turn, and then what stands at the end. So the way inwards is made of the
stages that do not let the request by; the marks of a request are at any time the first ones that
these stages leave, and all of them if the handler has seen it. Only a request to the path of a
probe, or to a path below one, is let by. -/
theorem stages_in_order (registrations : List Registration) :
    let p := build registrations
    let places := p.stages.zipIdx
    Ordered registrations p.stages ∧
    (∀ others, p = build others ↔
      ∀ n, ofPriority n (enabled registrations) = ofPriority n (enabled others)) ∧
    (∀ {β : Type} (endpoint : Http.Request → β) (behind : Stage × Nat → Link β),
      (∀ place, (behind place).KeepsPath) → ∀ r,
        Link.run endpoint (places.map behind) r =
          Link.through r.path endpoint (places.map behind) r) ∧
    (∀ {m : Type → Type} [Monad m] [LawfulMonad m] {α : Type} (endpoint : Http.Request → m α)
      (behind : Stage × Nat → Relay m α) (r : Http.Request),
        (Link.run (Relay.recordedEndpoint _ endpoint)
            (places.map fun place => ((behind place).recorded place).link) r).run [] =
          (fun answer => (answer, Relay.calls r.path behind places)) <$>
            Link.run endpoint (places.map fun place => (behind place).link) r) ∧
    (∀ (f : Flight) site r, f.enter site r p.interceptors =
      Link.through r.path arrival (links p.interceptors) r f site) ∧
    (∀ edge site sent t, Reachable (.create p edge site) sent t →
      List.Forall₂ (fun r f => f.trace <+: route r.path p.interceptors ∧
        (f.sight.isSome = true → f.trace = route r.path p.interceptors)) sent t.flights) ∧
    ∀ path, Http.isProbePath path = true ↔ ∃ probe ∈ ["/livez", "/readyz", "/healthz"],
      path = probe ∨ ∃ below, path = probe ++ "/" ++ below := by
  intro p places
  refine ⟨⟨stages_build_perm _, stages_build_sorted _, ofPriority_build _⟩, build_eq_build_iff _,
    ?_, ?_, ?_, ?_, fun path => Http.isProbePath_iff⟩
  · intro β endpoint behind hKeeps r
    refine Link.run_eq_through ?_ r
    intro l hl
    obtain ⟨place, -, rfl⟩ := List.mem_map.mp hl
    exact hKeeps place
  · intro m _ _ α endpoint behind r
    exact Relay.run_recorded endpoint behind places r []
  · intro f site r
    exact Flight.enter_eq_through f site r p.interceptors
  · intro edge site sent t h
    refine (keepsOrder_reachable ⟨rfl, .nil⟩ h).follows.imp ?_
    intro r f hFollows
    exact ⟨hFollows.first, hFollows.all⟩

end Gatehouse.Pipeline
