import Gatehouse.Proofs.Pipeline.Courses

/-!
# How a request comes to a stage

A request comes to a stage on its way in, after it was sent or after a wait for a slot. Whatever it
has met before, its scope ends with those of the timeouts that it is inside of, or earlier. As far
as it gets on its way in, it would not get any further by a look at the same instant.

* `Flight.Passes`: a request comes past some stages.
* `Flight.Nested`: the scope of a request is below those of the timeouts around it.
* `Later.nestedInLine`: this is so for every request that waits for a slot.
* `Flight.pollActivity_enter`: a look straight after the way in.
-/

namespace Gatehouse.Pipeline

namespace Flight

variable {f f' : Flight} {s s' : Site} {r r' : Http.Request}
  {rest stages stages' : List Interceptor}

/-- A request comes to some stages on its way in. -/
inductive Passes : Flight → Site → Http.Request → List Interceptor →
    Flight → Site → Http.Request → List Interceptor → Prop where
  | here (f : Flight) (s : Site) (r : Http.Request) (stages : List Interceptor) :
      Passes f s r stages f s r stages
  | onward {f f₁ f' : Flight} {s s₁ s' : Site} {r r₁ r' : Http.Request} {stage : Interceptor}
      {rest stages : List Interceptor} (hPass : f.pass s r stage rest = .inwards f₁ s₁ r₁)
      (h : Passes f₁ s₁ r₁ rest f' s' r' stages) : Passes f s r (stage :: rest) f' s' r' stages

theorem Passes.enter_eq (h : Passes f s r stages f' s' r' stages') :
    f.enter s r stages = f'.enter s' r' stages' := by
  induction h with
  | here => rfl
  | onward hPass _ ih => rw [enter_cons, hPass, Passage.follow, ih]

theorem Passes.keeps {Inside : Flight → Site → Http.Request → List Interceptor → Prop}
    {After : Site × Flight → Prop}
    (hKeeps : ∀ f s r stage rest, Inside f s r (stage :: rest) →
      (f.pass s r stage rest).Keeps Inside After rest)
    (h : Passes f s r stages f' s' r' stages') (hInside : Inside f s r stages) :
    Inside f' s' r' stages' := by
  induction h with
  | here => exact hInside
  | onward hPass _ ih =>
    have hNext := hKeeps _ _ _ _ _ hInside
    rw [hPass] at hNext
    exact ih hNext

/-! ## The scope of a request -/

/-- The scope of a request ends with those of the timeouts that it is inside of, or before. -/
def Nested (f : Flight) (r : Http.Request) : Prop :=
  ∀ limit outer, Frame.timeout limit outer ∈ f.frames → ∃ scope ∈ r.scope, scope.Inherits outer

theorem Nested.push (h : f.Nested r) {frame : Frame} (hFrame : frame.scope? = none) :
    (f.push frame).Nested r := by
  intro limit outer hMem
  rcases List.mem_cons.mp hMem with rfl | hBefore
  · cases hFrame
  · exact h limit outer hBefore

/-- A timeout gives the request a scope below the one that it had. -/
theorem Nested.timeout (h : f.Nested r) (s : Site) (limit deadline : Nat) (ts : Tokens) :
    (f.push (.timeout limit ((s.scopeOf r).1.childUntil deadline ts).1)).Nested
      { r with scope := some ((s.scopeOf r).1.childUntil deadline ts).1 } := by
  intro limit' outer hMem
  refine ⟨_, rfl, ?_⟩
  rcases List.mem_cons.mp hMem with hHere | hBefore
  · cases hHere
    exact .refl _
  · obtain ⟨scope, hScope, hInherits⟩ := h limit' outer hBefore
    have hParent : (s.scopeOf r).1 = scope := by
      unfold Site.scopeOf
      rw [Option.mem_def.mp hScope]
    have hBound : (s.scopeOf r).1.Inherits outer := by
      rw [hParent]
      exact hInherits
    exact (Scope.inherits_childUntil _ _ _).trans hBound

/-- The same for a request that waits for a slot. -/
def NestedInLine (f : Flight) : Prop :=
  ∀ ticket deadline scope rest r, f.activity = .queued ticket deadline scope rest r → f.Nested r

theorem nestedInLine_of_not_inLine (h : f.activity.inLine = false) : f.NestedInLine := by
  intro ticket deadline scope rest r hQueued
  rw [hQueued] at h
  cases h

/-- What every stage keeps. -/
abbrev LeadsToNested (rest : List Interceptor) (p : Passage) : Prop :=
  p.Keeps (fun f _ r _ => f.Nested r) (fun x => x.2.NestedInLine) rest

theorem nestedInLine_complete (f : Flight) (s : Site) (c : Completion) :
    (f.complete s c).2.NestedInLine :=
  nestedInLine_of_not_inLine rfl

theorem nestedInLine_reject (f : Flight) (s : Site) (failure : Failure) (event : Entry) :
    (f.reject s failure event).2.NestedInLine :=
  nestedInLine_of_not_inLine rfl

theorem Nested.look (h : f.Nested r) (s : Site) (b : Bulkhead) (ticket deadline : Nat)
    (scope : Scope) (rest : List Interceptor) :
    LeadsToNested rest (f.look s b ticket deadline scope rest r) := by
  unfold Flight.look
  dsimp only
  split
  · intro _ _ _ _ _ hQueued
    cases hQueued
    exact h
  · exact h.push rfl
  · exact nestedInLine_reject _ _ _ _
  · exact nestedInLine_complete _ _ _

theorem Nested.meetGate (h : f.Nested r) (s : Site) (rest : List Interceptor) (gate : Interceptor) :
    LeadsToNested rest (f.meetGate s r rest gate) := by
  unfold Flight.meetGate
  split
  · split
    · exact h
    · dsimp only
      split
      · exact h
      · exact nestedInLine_reject _ _ _ _
  · split
    · exact h
    · dsimp only
      split
      · exact h.push rfl
      · exact nestedInLine_reject _ _ _ _
  · split
    · exact h
    · exact h.look ..
  · exact h

theorem Nested.pass (h : f.Nested r) (s : Site) (stage : Interceptor) (rest : List Interceptor) :
    LeadsToNested rest (f.pass s r stage rest) := by
  unfold Flight.pass
  split
  · exact h
  · cases stage with
    | panicRecovery | requestLogging | errorTranslation => exact h.push rfl
    | timeout limit => exact h.timeout s limit _ _
    | rateLimit => exact h.meetGate s rest .rateLimit
    | circuitBreaker => exact h.meetGate s rest .circuitBreaker
    | bulkhead => exact h.meetGate s rest .bulkhead
    | schemaValidation v =>
      simp only [meet]
      cases v.check r with
      | accepted => exact h
      | rejected | panicked => exact nestedInLine_complete _ _ _
    | mark label bypasses rejection =>
      cases rejection with
      | none => exact h
      | some failure => exact nestedInLine_complete _ _ _

theorem Passes.nested (h : Passes f s r stages f' s' r' stages') (hNested : f.Nested r) :
    f'.Nested r' :=
  h.keeps (fun _ s _ stage rest hBefore => Nested.pass hBefore s stage rest) hNested

theorem Nested.enter (h : f.Nested r) (s : Site) (stages : List Interceptor) :
    (f.enter s r stages).2.NestedInLine :=
  @enter_keeps (fun f _ r _ => f.Nested r) (fun x => x.2.NestedInLine)
    (fun _ s _ stage rest h => h.pass s stage rest)
    (fun f s r _ => nestedInLine_of_not_inLine (served_arrive f s r).inLine) f s r stages h

theorem NestedInLine.pollActivity (h : f.NestedInLine) (s : Site) :
    (f.pollActivity s).2.NestedInLine := by
  cases hNow : f.activity with
  | queued ticket deadline scope rest r =>
    rw [pollActivity_queued hNow]
    split
    · exact h
    · have hLook := (h _ _ _ _ _ hNow).look s ‹_› ticket deadline scope rest
      exact follow_keeps (fun _ s _ h => h.enter s rest) hLook
  | awaitingEnd scope =>
    simp only [Flight.pollActivity, hNow]
    exact nestedInLine_of_not_inLine (served_awaitEnd ..).inLine
  | working done scope =>
    simp only [Flight.pollActivity, hNow]
    split
    · exact nestedInLine_complete _ _ _
    · exact h
  | ended | aborted =>
    simp only [Flight.pollActivity, hNow]
    exact h

theorem NestedInLine.poll (h : f.NestedInLine) (s : Site) : (f.poll s).2.NestedInLine := by
  have hActivity := h.pollActivity s
  unfold Flight.poll
  dsimp only
  split
  · unfold pollTimeouts
    split
    · exact hActivity
    · exact nestedInLine_reject _ _ _ _
  · exact hActivity

theorem NestedInLine.abort (h : f.NestedInLine) (s : Site) : (f.abort s).2.NestedInLine := by
  unfold Flight.abort
  split
  · exact nestedInLine_of_not_inLine rfl
  · exact h

/-! ## As far as a request gets -/

/-- What a look would leave as it is, the timeouts apart. -/
def Rests (x : Site × Flight) : Prop := x.2.pollActivity x.1 = x

/-- What leads to a rest. -/
abbrev LeadsToRest (rest : List Interceptor) (p : Passage) : Prop :=
  p.Keeps (fun _ _ _ _ => True) Rests rest

/-- Who waits for a slot has looked for it. -/
theorem rests_look (f : Flight) (s : Site) (b : Bulkhead) (ticket deadline : Nat) (scope : Scope)
    (rest : List Interceptor) (r : Http.Request) :
    LeadsToRest rest (f.look s b ticket deadline scope rest r) := by
  cases hPoll : (b.poll ticket deadline s.now (s.cancelled? scope)).1 with
  | waits =>
    obtain ⟨hSame, -⟩ := poll_of_waits hPoll
    have hAgain : b.poll ticket deadline ((s.setBulkhead b).note []).now
        (((s.setBulkhead b).note []).cancelled? scope) = (.waits, b, []) := hSame
    have hThere : ((s.setBulkhead b).note []).gates.bulkhead = some b := rfl
    simp only [look, hSame]
    change Flight.pollActivity { f with activity := .queued ticket deadline scope rest r }
      ((s.setBulkhead b).note []) = _
    rw [pollActivity_queued rfl, hThere]
    simp only [look, hAgain, Site.setBulkhead_note_nil hThere, Passage.follow]
  | holds =>
    simp only [look, hPoll]
    trivial
  | refused reason =>
    cases reason <;>
      · simp only [look, hPoll]
        rfl

theorem rests_meetGate (f : Flight) (s : Site) (r : Http.Request) (rest : List Interceptor)
    (gate : Interceptor) : LeadsToRest rest (f.meetGate s r rest gate) := by
  unfold meetGate
  split
  · split
    · trivial
    · dsimp only
      split
      · trivial
      · rfl
  · split
    · trivial
    · dsimp only
      split
      · trivial
      · rfl
  · split
    · trivial
    · exact rests_look ..
  · trivial

theorem rests_pass (f : Flight) (s : Site) (r : Http.Request) (stage : Interceptor)
    (rest : List Interceptor) : LeadsToRest rest (f.pass s r stage rest) := by
  unfold pass
  split
  · trivial
  · cases stage with
    | panicRecovery | timeout | requestLogging | errorTranslation => trivial
    | rateLimit => exact rests_meetGate f s r rest .rateLimit
    | circuitBreaker => exact rests_meetGate f s r rest .circuitBreaker
    | bulkhead => exact rests_meetGate f s r rest .bulkhead
    | schemaValidation v =>
      simp only [meet]
      cases v.check r with
      | accepted => trivial
      | rejected | panicked => rfl
    | mark label bypasses rejection =>
      cases rejection with
      | none => trivial
      | some failure => rfl

/-- A request on its way in goes as far as it can. -/
theorem pollActivity_enter (f : Flight) (s : Site) (r : Http.Request) (stages : List Interceptor) :
    (f.enter s r stages).2.pollActivity (f.enter s r stages).1 = f.enter s r stages :=
  @enter_keeps (fun _ _ _ _ => True) Rests
    (fun f s r stage rest _ => rests_pass f s r stage rest)
    (fun f s r _ => (served_arrive f s r).pollActivity_eq)
    f s r stages trivial

end Flight

/-! ## Traffic -/

namespace Traffic

variable {begun t : Traffic} {index : Nat}

/-- A request that is given its slot goes in as far as it can. The look that gives it the slot then
goes on like a further one. -/
theorem move_poll_of_passes {f g g' : Flight} {s s' : Site} {r r' r'' : Http.Request}
    {ticket deadline : Nat} {scope : Scope} {rest stages : List Interceptor} {b : Bulkhead}
    (hFlight : t.flights[index]? = some f)
    (hQueued : f.activity = .queued ticket deadline scope rest r)
    (hGate : t.site.gates.bulkhead = some b)
    (hLook : f.look t.site b ticket deadline scope rest r = .inwards g s r')
    (hPasses : g.Passes s r' rest g' s' r'' stages) :
    t.move (.poll index) =
      Traffic.move { t with
        site := (g'.enter s' r'' stages).1
        flights := t.flights.set index (g'.enter s' r'' stages).2 } (.poll index) := by
  obtain ⟨hIndex, -⟩ := List.getElem?_eq_some_iff.mp hFlight
  have hGone : f.pollActivity t.site = g'.enter s' r'' stages := by
    rw [Flight.pollActivity_queued hQueued, hGate]
    dsimp only
    rw [hLook, Passage.follow, hPasses.enter_eq]
  have hSame : f.poll t.site =
      (g'.enter s' r'' stages).2.poll (g'.enter s' r'' stages).1 := by
    unfold Flight.poll
    rw [hGone, Flight.pollActivity_enter]
  have hThere := onFlight_of_some
    (t := { t with
      site := (g'.enter s' r'' stages).1
      flights := t.flights.set index (g'.enter s' r'' stages).2 })
    (List.getElem?_set_self hIndex) Flight.poll
  simp only [Traffic.move, onFlight_of_some hFlight, hThere, hSame, List.set_set]

/-- A request that is there after a move was there before, has had a look, was dropped by its
caller, or has just come in. -/
theorem mem_flights_move {m : Move} {f : Flight} (hMem : f ∈ (t.move m).flights) :
    f ∈ t.flights ∨
      (∃ g ∈ t.flights, f = (g.poll t.site).2 ∨ f = (g.abort t.site).2) ∨
      ∃ id r plan, f = ((t.newcomer id r plan).enter t.site r t.interceptors).2 := by
  have hOne : ∀ {i : Nat} {op : Flight → Site → Site × Flight}, f ∈ (t.onFlight i op).flights →
      f ∈ t.flights ∨ ∃ g ∈ t.flights, f = (op g t.site).2 := by
    intro i op hAfter
    cases hFlight : t.flights[i]? with
    | none =>
      rw [onFlight_of_none hFlight] at hAfter
      exact .inl hAfter
    | some g =>
      rw [onFlight_of_some hFlight] at hAfter
      rcases List.mem_or_eq_of_mem_set hAfter with hOld | hNew
      · exact .inl hOld
      · exact .inr ⟨g, List.mem_of_getElem? hFlight, hNew⟩
  cases m with
  | clock | calendar | scope | readiness | observe => exact .inl hMem
  | send id r plan =>
    rcases List.mem_append.mp hMem with hOld | hNew
    · exact .inl hOld
    · exact .inr (.inr ⟨id, r, plan, List.mem_singleton.mp hNew⟩)
  | poll i =>
    rcases hOne hMem with hOld | ⟨g, hg, hLook⟩
    · exact .inl hOld
    · exact .inr (.inl ⟨g, hg, .inl hLook⟩)
  | abort i =>
    rcases hOne hMem with hOld | ⟨g, hg, hDropped⟩
    · exact .inl hOld
    · exact .inr (.inl ⟨g, hg, .inr hDropped⟩)

theorem Later.nestedInLine (h : Later begun t) (hBegun : ∀ f ∈ begun.flights, f.NestedInLine) :
    ∀ f ∈ t.flights, f.NestedInLine := by
  obtain ⟨history, hCourse⟩ := h
  induction hCourse with
  | begun => exact hBegun
  | @move history t _ m _ ih =>
    intro f hMem
    rcases mem_flights_move hMem with hOld | ⟨g, hg, rfl | rfl⟩ | ⟨id, r, plan, rfl⟩
    · exact ih f hOld
    · exact (ih g hg).poll t.site
    · exact (ih g hg).abort t.site
    · have hOutside : (t.newcomer id r plan).Nested r := nofun
      exact hOutside.enter t.site t.interceptors

end Traffic

end Gatehouse.Pipeline
