import Gatehouse.Proofs.Http.RequestIds
import Gatehouse.Proofs.Pipeline.Arrivals
import Gatehouse.Proofs.Pipeline.Journals
import Gatehouse.Proofs.Pipeline.Order

/-!
# The id of a request

The logging stage gives a request its id, which goes along with it on three ways: the handler sees
it, the report of the stage names it, and the response carries it. The rest of the chain goes its
way as it would alone. What the stages around are given in the end is what the rest has come to,
once that is reported and the id is on it.

* `Logged`: a request that comes to a logging stage, with the stages behind it.
* `Logged.Fate`: what may become of it.
* `Flight.Shows`: the invariant of a request whose handler is to see an id.
* `Logged.Came`: the last logging stage on the way of a request; `cameOrUnlogged`, `Came.seen`:
  whoever is seen by its handler has come to one.
* `Logged.Forwards`: other services that are sent the id on.
* `request_id_agrees`: the id is the same on all ways.
-/

namespace Gatehouse.Pipeline

open Http (RequestId requestIdHeader)

/-! ## Seen by the handler -/

namespace Flight

variable {id : RequestId} {f : Flight} {r : Http.Request} {stage : Interceptor}
  {rest : List Interceptor}

/-- A request on its way in, which has its id already. If there is another logging stage ahead, it
will keep the id. -/
structure Carries (id : RequestId) (f : Flight) (r : Http.Request) (rest : List Interceptor) :
    Prop where
  seen : ∀ sight ∈ f.sight, sight.id = some id
  named : r.id = some id
  kept : .requestLogging ∈ rest →
    ∀ ids, (RequestId.assign (Http.Headers.get? r.headers requestIdHeader) ids).1 = id

/-- A handler has seen the id, or it is going to. -/
structure Shows (id : RequestId) (f : Flight) : Prop where
  seen : ∀ sight ∈ f.sight, sight.id = some id
  ahead : ∀ r rest, f.activity.ahead? = some (r, rest) → Carries id f r rest

theorem shows_of_ahead?_eq_none (hSeen : ∀ sight ∈ f.sight, sight.id = some id)
    (hAhead : f.activity.ahead? = none) : Shows id f := by
  refine ⟨hSeen, ?_⟩
  intro r rest hSome
  rw [hAhead] at hSome
  cases hSome

section Seen

variable (hSeen : ∀ sight ∈ f.sight, sight.id = some id)
include hSeen

theorem shows_complete (s : Site) (c : Completion) : Shows id (f.complete s c).2 :=
  shows_of_ahead?_eq_none hSeen rfl

theorem shows_beginWork (s : Site) (scope : Scope) : Shows id (f.beginWork s scope).2 := by
  unfold Flight.beginWork
  split
  · exact shows_complete hSeen _ _
  · exact shows_of_ahead?_eq_none hSeen rfl

theorem shows_awaitEnd (s : Site) (scope : Scope) : Shows id (f.awaitEnd s scope).2 := by
  unfold Flight.awaitEnd
  split
  · exact shows_of_ahead?_eq_none hSeen rfl
  · split
    · exact shows_complete hSeen _ _
    · exact shows_beginWork hSeen s scope

end Seen

/-- The handler is shown the id that the request has. -/
theorem Carries.handle (h : Carries id f r rest) (s : Site) : Shows id (f.handle s r).2 := by
  unfold Flight.handle
  dsimp only
  split
  · refine shows_awaitEnd ?_ _ _
    rintro _ ⟨⟩
    exact h.named
  · refine shows_beginWork ?_ _ _
    rintro _ ⟨⟩
    exact h.named

theorem Carries.arrive (h : Carries id f r rest) (s : Site) : Shows id (f.arrive s r).2 := by
  unfold Flight.arrive
  split
  · split
    · exact h.handle s
    · exact shows_complete h.seen _ _
    · exact shows_complete h.seen _ _
    · exact shows_complete h.seen _ _
    · exact shows_complete h.seen _ _
  · exact h.handle s

/-- What a stage leads to. -/
abbrev Hands (id : RequestId) (rest : List Interceptor) (p : Passage) : Prop :=
  p.Keeps (fun f _ r rest => Carries id f r rest) (fun after => Shows id after.2) rest

theorem Carries.look (h : Carries id f r rest) (s : Site) (b : Bulkhead) (ticket deadline : Nat)
    (scope : Scope) : Hands id rest (f.look s b ticket deadline scope rest r) := by
  unfold Flight.look
  dsimp only
  split
  · refine ⟨h.seen, ?_⟩
    rintro r' rest' ⟨⟩
    exact ⟨h.seen, h.named, h.kept⟩
  · exact ⟨h.seen, h.named, h.kept⟩
  · exact shows_complete h.seen _ _
  · exact shows_complete h.seen _ _

theorem Carries.meetGate (h : Carries id f r rest) (gate : Interceptor) (s : Site) :
    Hands id rest (f.meetGate s r rest gate) := by
  unfold Flight.meetGate
  split
  · split
    · exact h
    · dsimp only
      split
      · exact h
      · exact shows_complete h.seen _ _
  · split
    · exact h
    · dsimp only
      split
      · exact ⟨h.seen, h.named, h.kept⟩
      · exact shows_complete h.seen _ _
  · split
    · exact h
    · exact h.look _ _ _ _ _
  · exact h

theorem Carries.tail (h : Carries id f r (stage :: rest)) : Carries id f r rest :=
  ⟨h.seen, h.named, fun hMem => h.kept (List.mem_cons_of_mem stage hMem)⟩

theorem Carries.meet (h : Carries id f r (stage :: rest)) (s : Site) :
    Hands id rest (f.meet s r rest stage) := by
  have hRest := h.tail
  cases stage with
  | panicRecovery | timeout | errorTranslation => exact ⟨hRest.seen, hRest.named, hRest.kept⟩
  | requestLogging =>
    have hSame := h.kept List.mem_cons_self
    exact ⟨hRest.seen, congrArg some (hSame s.ids), hRest.kept⟩
  | rateLimit => exact hRest.meetGate .rateLimit s
  | circuitBreaker => exact hRest.meetGate .circuitBreaker s
  | bulkhead => exact hRest.meetGate .bulkhead s
  | schemaValidation v =>
    simp only [Flight.meet]
    cases v.check r with
    | accepted => exact ⟨hRest.seen, hRest.named, hRest.kept⟩
    | rejected failure => exact shows_complete (f := f.marked v.label) hRest.seen _ _
    | panicked payload =>
      exact shows_complete (f := { f.marked v.label with frames := pastUnarmed f.frames })
        hRest.seen _ _
  | mark label bypasses rejection =>
    simp only [Flight.meet]
    cases rejection with
    | none => exact ⟨hRest.seen, hRest.named, hRest.kept⟩
    | some failure => exact shows_complete (f := f.marked label) hRest.seen _ _

theorem Carries.pass (h : Carries id f r (stage :: rest)) (s : Site) :
    Hands id rest (f.pass s r stage rest) := by
  unfold Flight.pass
  split
  · exact h.tail
  · exact h.meet s

theorem Carries.enter (h : Carries id f r rest) (s : Site) : Shows id (f.enter s r rest).2 :=
  enter_keeps (fun _ s _ _ _ h => Carries.pass h s) (fun _ s _ h => Carries.arrive h s) f s r rest h

theorem Shows.pollActivity (h : Shows id f) (s : Site) : Shows id (f.pollActivity s).2 := by
  cases hActivity : f.activity with
  | queued ticket deadline scope rest r =>
    have hAhead := h.ahead r rest (by rw [hActivity]; rfl)
    rw [pollActivity_queued hActivity]
    cases s.gates.bulkhead with
    | none => exact h
    | some b => exact follow_keeps (fun _ s _ h => Carries.enter h s) (hAhead.look ..)
  | awaitingEnd scope =>
    simp only [Flight.pollActivity, hActivity]
    exact shows_awaitEnd h.seen s scope
  | working done scope =>
    simp only [Flight.pollActivity, hActivity]
    split
    · exact shows_complete h.seen _ _
    · exact h
  | ended | aborted =>
    simp only [Flight.pollActivity, hActivity]
    exact h

theorem Shows.poll (h : Shows id f) (s : Site) : Shows id (f.poll s).2 := by
  have hActivity := h.pollActivity s
  unfold Flight.poll
  dsimp only
  split
  · unfold Flight.pollTimeouts
    split
    · exact hActivity
    · next e _ =>
      exact shows_complete (f := { (f.pollActivity s).2 with frames := e.outer }) hActivity.seen _ _
  · exact hActivity

theorem Shows.abort (h : Shows id f) (s : Site) : Shows id (f.abort s).2 := by
  unfold Flight.abort
  split
  · exact shows_of_ahead?_eq_none h.seen rfl
  · exact h

/-! ## Not yet seen -/

/-- No handler has seen the request. If it waits for a slot, these are the stages behind the
bulkhead. -/
structure Unseen (rest : List Interceptor) (f : Flight) : Prop where
  sight : f.sight = none
  ahead : ∀ r rest', f.activity.ahead? = some (r, rest') → rest' = rest

theorem unseen_of_ahead?_eq_none (hSight : f.sight = none) (hAhead : f.activity.ahead? = none) :
    f.Unseen rest := by
  refine ⟨hSight, ?_⟩
  intro r rest' hSome
  rw [hAhead] at hSome
  cases hSome

section OnTheWay

variable (hSight : f.sight = none)
include hSight

theorem unseen_complete (s : Site) (c : Completion) : (f.complete s c).2.Unseen rest :=
  unseen_of_ahead?_eq_none hSight rfl

theorem unseen_look (s : Site) (b : Bulkhead) (ticket deadline : Nat) (scope : Scope) :
    (f.look s b ticket deadline scope rest r).Keeps (fun g _ _ _ => g.sight = none)
      (fun x => x.2.Unseen rest) rest := by
  unfold Flight.look
  dsimp only
  split
  · refine ⟨hSight, ?_⟩
    rintro r' rest' ⟨⟩
    rfl
  · exact hSight
  · exact unseen_complete hSight _ _
  · exact unseen_complete hSight _ _

theorem unseen_meetGate (gate : Interceptor) (s : Site) :
    (f.meetGate s r rest gate).Keeps (fun g _ _ _ => g.sight = none)
      (fun x => x.2.Unseen rest) rest := by
  unfold Flight.meetGate
  split
  · split
    · exact hSight
    · dsimp only
      split
      · exact hSight
      · exact unseen_complete hSight _ _
  · split
    · exact hSight
    · dsimp only
      split
      · exact hSight
      · exact unseen_complete hSight _ _
  · split
    · exact hSight
    · exact unseen_look hSight _ _ _ _ _
  · exact hSight

/-- A stage shows the request to no handler. -/
theorem unseen_pass (s : Site) :
    (f.pass s r stage rest).Keeps (fun g _ _ _ => g.sight = none)
      (fun x => x.2.Unseen rest) rest := by
  unfold Flight.pass
  split
  · exact hSight
  · cases stage with
    | panicRecovery | timeout | requestLogging | errorTranslation => exact hSight
    | rateLimit => exact unseen_meetGate hSight .rateLimit s
    | circuitBreaker => exact unseen_meetGate hSight .circuitBreaker s
    | bulkhead => exact unseen_meetGate hSight .bulkhead s
    | schemaValidation v =>
      simp only [Flight.meet]
      cases v.check r with
      | accepted => exact hSight
      | rejected failure => exact unseen_complete (f := f.marked v.label) hSight _ _
      | panicked payload =>
        exact unseen_complete (f := { f.marked v.label with frames := pastUnarmed f.frames })
          hSight _ _
    | mark label bypasses rejection =>
      simp only [Flight.meet]
      cases rejection with
      | none => exact hSight
      | some failure => exact unseen_complete (f := f.marked label) hSight _ _

end OnTheWay

/-- No handler has seen the request, and a logging stage is still ahead if it goes on. -/
def Unlogged (f : Flight) : Prop := ∃ rest, .requestLogging ∈ rest ∧ f.Unseen rest

/-- Who has a logging stage ahead comes to the last one, or does not come that far. -/
theorem passes_or_unlogged {stages : List Interceptor} (hAhead : .requestLogging ∈ stages)
    (hSight : f.sight = none) (s : Site) (r : Http.Request) :
    (∃ g s' r' rest, .requestLogging ∉ rest ∧
      f.Passes s r stages g s' r' (.requestLogging :: rest)) ∨
    (f.enter s r stages).2.Unlogged := by
  induction stages generalizing f s r with
  | nil => cases hAhead
  | cons stage rest ih =>
    by_cases hMore : .requestLogging ∈ rest
    · have hKeeps : (f.pass s r stage rest).Keeps (fun g _ _ _ => g.sight = none)
          (fun x => x.2.Unseen rest) rest := unseen_pass hSight s
      rw [enter_cons]
      cases hPass : f.pass s r stage rest with
      | inwards g s' r' =>
        rw [hPass] at hKeeps
        rcases ih hMore hKeeps s' r' with ⟨g', s'', r'', rest', hLast, hPasses⟩ | hUnlogged
        · exact .inl ⟨g', s'', r'', rest', hLast, .onward hPass hPasses⟩
        · exact .inr hUnlogged
      | waits | rejected | ends | lost =>
        rw [hPass] at hKeeps
        exact .inr ⟨rest, hMore, hKeeps⟩
    · obtain rfl := (List.mem_cons.mp hAhead).resolve_right hMore
      exact .inl ⟨f, s, r, rest, hMore, .here _ _ _ _⟩

theorem Unlogged.abort (h : f.Unlogged) (s : Site) : (f.abort s).2.Unlogged := by
  obtain ⟨rest, hMore, hUnseen⟩ := h
  unfold Flight.abort
  split
  · exact ⟨rest, hMore, unseen_of_ahead?_eq_none hUnseen.sight rfl⟩
  · exact ⟨rest, hMore, hUnseen⟩

theorem Unlogged.sight (h : f.Unlogged) : f.sight = none := by
  obtain ⟨rest, -, hUnseen⟩ := h
  exact hUnseen.sight

theorem Unlogged.pollTimeouts (h : f.Unlogged) (s : Site) : (f.pollTimeouts s).2.Unlogged := by
  obtain ⟨rest, hMore, hUnseen⟩ := h
  unfold Flight.pollTimeouts
  split
  · exact ⟨rest, hMore, hUnseen⟩
  · next e _ =>
    exact ⟨rest, hMore, unseen_complete (f := { f with frames := e.outer }) hUnseen.sight _ _⟩

theorem poll_of_pollActivity {s : Site} (h : (f.pollActivity s).2.Unlogged) :
    (f.poll s).2.Unlogged := by
  unfold Flight.poll
  dsimp only
  split
  · exact h.pollTimeouts _
  · exact h

theorem Unlogged.awaitEnd (h : f.Unlogged) (s : Site) (scope : Scope) :
    (f.awaitEnd s scope).2.Unlogged := by
  obtain ⟨rest, hMore, hUnseen⟩ := h
  refine ⟨rest, hMore, ?_⟩
  unfold Flight.awaitEnd
  split
  · exact unseen_of_ahead?_eq_none hUnseen.sight rfl
  · split
    · exact unseen_complete hUnseen.sight _ _
    · unfold Flight.beginWork
      split
      · exact unseen_complete hUnseen.sight _ _
      · exact unseen_of_ahead?_eq_none hUnseen.sight rfl

/-- By a look, a request that has a logging stage ahead stays such a one, or it is given its slot
and comes to the last logging stage. -/
theorem Unlogged.poll (h : f.Unlogged) (s : Site) :
    (f.poll s).2.Unlogged ∨
    ∃ ticket deadline scope rest r b g s' r' g' s'' r'' rest',
      f.activity = .queued ticket deadline scope rest r ∧ s.gates.bulkhead = some b ∧
      f.look s b ticket deadline scope rest r = .inwards g s' r' ∧ .requestLogging ∉ rest' ∧
      g.Passes s' r' rest g' s'' r'' (.requestLogging :: rest') := by
  obtain ⟨ahead, hMore, hUnseen⟩ := h
  cases hActivity : f.activity with
  | queued ticket deadline scope rest r =>
    obtain rfl := hUnseen.ahead r rest (by rw [hActivity]; rfl)
    cases hGate : s.gates.bulkhead with
    | none =>
      left
      refine poll_of_pollActivity ?_
      rw [pollActivity_queued hActivity, hGate]
      exact ⟨rest, hMore, hUnseen⟩
    | some b =>
      have hKeeps : (f.look s b ticket deadline scope rest r).Keeps
          (fun g _ _ _ => g.sight = none) (fun x => x.2.Unseen rest) rest :=
        unseen_look hUnseen.sight s b ticket deadline scope
      have hGone : f.pollActivity s = (f.look s b ticket deadline scope rest r).follow rest := by
        rw [pollActivity_queued hActivity, hGate]
      cases hLook : f.look s b ticket deadline scope rest r with
      | inwards g s' r' =>
        rw [hLook] at hKeeps
        rcases passes_or_unlogged hMore hKeeps s' r' with
          ⟨g', s'', r'', rest', hLast, hPasses⟩ | hIs
        · exact .inr ⟨ticket, deadline, scope, rest, r, b, g, s', r', g', s'', r'', rest', rfl, rfl,
            hLook, hLast, hPasses⟩
        · left
          refine poll_of_pollActivity ?_
          rw [hGone, hLook]
          exact hIs
      | waits | rejected | ends | lost =>
        left
        refine poll_of_pollActivity ?_
        rw [hGone]
        rw [hLook] at hKeeps ⊢
        exact ⟨rest, hMore, hKeeps⟩
  | awaitingEnd scope =>
    left
    refine poll_of_pollActivity ?_
    simp only [Flight.pollActivity, hActivity]
    exact Unlogged.awaitEnd ⟨ahead, hMore, hUnseen⟩ s scope
  | working done scope =>
    left
    refine poll_of_pollActivity ?_
    simp only [Flight.pollActivity, hActivity]
    split
    · exact ⟨ahead, hMore, unseen_complete hUnseen.sight _ _⟩
    · exact ⟨ahead, hMore, hUnseen⟩
  | ended | aborted =>
    left
    refine poll_of_pollActivity ?_
    simp only [Flight.pollActivity, hActivity]
    exact ⟨ahead, hMore, hUnseen⟩

end Flight

/-! ## Coming to the stage -/

/-- What some traffic can come to by moves in any order. -/
def Traffic.Leads (t t' : Traffic) : Prop := ∃ sent, Reachable t sent t'

theorem Traffic.Leads.move {t t' : Traffic} (h : t.Leads t') (m : Move) : t.Leads (t'.move m) := by
  obtain ⟨sent, hReached⟩ := h
  exact ⟨_, hReached.move m⟩

/-- A request that comes to a logging stage, with the stages behind it. -/
structure Logged where
  flight : Flight
  site : Site
  request : Http.Request
  rest : List Interceptor

namespace Logged

open Traffic

/-- The id that the request came with. -/
def given (l : Logged) : Option (List UInt8) := Http.Headers.get? l.request.headers requestIdHeader

def id (l : Logged) : RequestId := (RequestId.assign l.given l.site.ids).1

def inner (l : Logged) : Site := { l.site with ids := (RequestId.assign l.given l.site.ids).2 }

def identified (l : Logged) : Http.Request := { l.request with id := some l.id }

/-- The stage, and the stages that the request is inside of already. -/
def frames (l : Logged) : List Frame :=
  .logging l.id l.request.method l.request.path l.site.now :: l.flight.frames

/-- The request goes on through the rest of the chain. -/
def whole (l : Logged) : Site × Flight :=
  l.flight.enter l.site l.request (.requestLogging :: l.rest)

/-- The rest of the chain without anything around it. -/
def alone (l : Logged) : Site × Flight :=
  Flight.enter { l.flight with frames := [] } l.inner l.identified l.rest

/-- The rest of the chain after some looks at it. -/
def restAfter (l : Logged) (looks : List Site) : Flight :=
  looks.foldl (fun g s => (g.poll s).2) l.alone.2

/-- What is noted of an outcome: an event that names the request, and two measurements. -/
def report (l : Logged) (s : Site) (o : Http.Outcome) : Journal :=
  let status := Http.Outcome.status o
  let latency := s.now - l.site.now
  [Frame.completionEvent l.id l.request.method l.request.path status latency,
    .measure (.request l.request.method status),
    .measure (.requestDuration l.request.method latency)]

/-- The stages around are given what the rest of the chain has come to. An outcome is reported, and
a response gets the id; a panic goes past. -/
def passOn (l : Logged) (s : Site) (g : Flight) : Completion → Site × Flight
  | .outcome o =>
    Flight.complete { g with frames := l.flight.frames } (s.note (l.report s o))
      (.outcome (Frame.identify l.id o))
  | .panic payload => Flight.complete { g with frames := l.flight.frames } s (.panic payload)

/-- The report of an outcome stands in the journal, right after what was noted before. -/
def Noted (l : Logged) (s : Site) (t : Traffic) : Completion → Prop
  | .outcome o => (s.note (l.report s o)).Extends t.site
  | .panic _ => True

/-- A move by which a request comes to the stage: it is sent, or it is given the slot for which it
was waiting. Then the traffic is such that the request has gone in as far as it can. -/
inductive ComesBy (l : Logged) (t : Traffic) : Move → Nat → Traffic → Prop where
  | sent {id : String} {r : Http.Request} {plan : HandlerPlan}
      (hPasses : (t.newcomer id r plan).Passes t.site r t.interceptors
        l.flight l.site l.request (.requestLogging :: l.rest)) :
      ComesBy l t (.send id r plan) t.flights.length (t.send id r plan)
  | admitted {index ticket deadline : Nat} {f g : Flight} {scope : Scope} {rest : List Interceptor}
      {r r' : Http.Request} {s : Site} {bulkhead : Bulkhead} (hFlight : t.flights[index]? = some f)
      (hQueued : f.activity = .queued ticket deadline scope rest r)
      (hGate : t.site.gates.bulkhead = some bulkhead)
      (hLook : f.look t.site bulkhead ticket deadline scope rest r = .inwards g s r')
      (hPasses : g.Passes s r' rest l.flight l.site l.request (.requestLogging :: l.rest)) :
      ComesBy l t (.poll index) index
        { t with site := l.whole.1, flights := t.flights.set index l.whole.2 }

/-- What may become of the request, at any later time. -/
inductive Fate (l : Logged) (begun : Traffic) (index : Nat) (t : Traffic) : Prop where
  /-- It waits inside of the stage, and the rest of the chain is as it would be alone. -/
  | waits {looks : List Site}
      (hFlight : t.flights[index]? = some ((l.restAfter looks).within l.frames))
      (hPending : (l.restAfter looks).isPending = true)
  /-- The rest of the chain had nothing to wait for, and the stages around were given what it came
  to. -/
  | atOnce {s : Site} {g : Flight} {c : Completion}
      (hAlone : l.alone = Flight.complete { g with frames := [] } s c)
      (hSite : begun.site = (l.passOn s g c).1) (hNoted : l.Noted s t c)
      (hFlight : t.flights[index]? = some (l.passOn s g c).2)
  /-- The rest of the chain had come to something by a look at it, and the stages around were given
  that. -/
  | returns {looks : List Site} {q : Traffic} {s : Site} {g : Flight} {c : Completion}
      (hBegun : begun.Leads q) (hLater : (q.move (.poll index)).Leads t)
      (hWaits : q.flights[index]? = some ((l.restAfter looks).within l.frames))
      (hAlone : (l.restAfter looks).poll q.site = Flight.complete { g with frames := [] } s c)
      (hSite : (q.move (.poll index)).site = (l.passOn s g c).1) (hNoted : l.Noted s t c)
      (hFlight : t.flights[index]? = some (l.passOn s g c).2)
  /-- The rest of the chain was still waiting, and a timeout outside of the stage has dropped
  both. -/
  | overtaken {looks : List Site} {q : Traffic} {s : Site} {g : Flight} {e : Expired}
      (hBegun : begun.Leads q) (hLater : (q.move (.poll index)).Leads t)
      (hWaits : q.flights[index]? = some ((l.restAfter looks).within l.frames))
      (hAlone : (l.restAfter looks).poll q.site = (s, g)) (hPending : g.isPending = true)
      (hExpired : expired? s l.frames = some e)
      (hSite : (q.move (.poll index)).site =
        ((g.within l.frames).expire s (e.inward g.frames)).1)
      (hFlight : t.flights[index]? = some ((g.within l.frames).expire s (e.inward g.frames)).2)
  /-- Its caller has dropped it. -/
  | dropped {looks : List Site} {q : Traffic} (hBegun : begun.Leads q)
      (hLater : (q.move (.abort index)).Leads t)
      (hWaits : q.flights[index]? = some ((l.restAfter looks).within l.frames))
      (hFlight : ∃ f, t.flights[index]? = some f ∧ f.activity = .aborted)

variable {l : Logged} {t begun t' : Traffic} {m : Move} {index : Nat}

theorem passOn_eq (l : Logged) (s : Site) (g : Flight) (c : Completion) :
    Flight.complete { g with frames := l.frames } s c = l.passOn s g c := by
  cases c <;> rfl

theorem isPending_passOn (l : Logged) (s : Site) (g : Flight) (c : Completion) :
    (l.passOn s g c).2.isPending = false := by
  rw [← passOn_eq]
  rfl

theorem noted_passOn {s : Site} {g : Flight} {c : Completion}
    (hSite : t.site = (l.passOn s g c).1) : l.Noted s t c := by
  cases c with
  | outcome o =>
    simp only [Noted, hSite]
    exact Flight.extends_complete _ _ _
  | panic payload => trivial

theorem Noted.move {s : Site} {c : Completion} (h : l.Noted s t c) (m : Move) :
    l.Noted s (t.move m) c := by
  cases c with
  | outcome o => exact Site.Extends.trans h (t.extends_move m)
  | panic payload => trivial

theorem armed_frames (l : Logged) : Armed l.frames := trivial

/-- No path goes by the logging stage. -/
theorem whole_eq (l : Logged) :
    l.whole = (Flight.within { l.flight with frames := [] } l.frames).enter l.inner l.identified
      l.rest := by
  unfold whole
  rw [Flight.enter_cons, Flight.pass_of_not_bypassed rfl]
  rfl

theorem enclosed (l : Logged) : Enclosed l.frames l.alone l.whole := by
  rw [whole_eq]
  exact Flight.enclosed_enter l.armed_frames _ _ _ _

theorem restAfter_concat (l : Logged) (looks : List Site) (s : Site) :
    l.restAfter (looks ++ [s]) = ((l.restAfter looks).poll s).2 := by
  unfold restAfter
  rw [List.foldl_append]
  rfl

/-! ## What becomes of the request -/

/-- A look at a request that waits. While the rest of the chain would wait on alone, only the
timeouts outside of the stage may end the request. -/
theorem fate_poll (hBegun : begun.Leads t) {looks : List Site}
    (hFlight : t.flights[index]? = some ((l.restAfter looks).within l.frames))
    (hPending : (l.restAfter looks).isPending = true) :
    l.Fate begun index (t.move (.poll index)) := by
  obtain ⟨hEnds, hWaits⟩ := Flight.poll_within l.armed_frames hPending t.site
  obtain ⟨hSite, hAfter⟩ := move_poll_of_some hFlight rfl
  have hHere : (t.move (.poll index)).Leads (t.move (.poll index)) := ⟨[], .start⟩
  cases hStill : ((l.restAfter looks).poll t.site).2.isPending with
  | true =>
    have hWhole := hWaits hStill
    cases hExpired : expired? ((l.restAfter looks).poll t.site).1 l.frames with
    | none =>
      rw [hExpired] at hWhole
      rw [hWhole, ← restAfter_concat] at hAfter
      rw [← restAfter_concat] at hStill
      exact .waits hAfter hStill
    | some e =>
      rw [hExpired] at hWhole
      rw [hWhole] at hSite hAfter
      exact .overtaken hBegun hHere hFlight rfl hStill hExpired hSite hAfter
  | false =>
    have hEnclosed := hEnds hStill
    generalize hAlone : (l.restAfter looks).poll t.site = alone at hEnclosed hStill
    generalize ((l.restAfter looks).within l.frames).poll t.site = whole
      at hEnclosed hSite hAfter
    cases hEnclosed with
    | waits hPending' =>
      rw [hPending'] at hStill
      cases hStill
    | ends s g c =>
      rw [passOn_eq] at hSite hAfter
      exact .returns hBegun hHere hFlight hAlone hSite (noted_passOn hSite) hAfter

/-- A move keeps what has become of the request, or it is the one by which the request ends. -/
theorem Fate.move (h : l.Fate begun index t) (hBegun : begun.Leads t) (m : Move) :
    l.Fate begun index (t.move m) := by
  have hKeeps : ∀ {f}, t.flights[index]? = some f → f.isPending = false →
      (t.move m).flights[index]? = some f := fun hFlight hEnded =>
    keeps_ended_move hFlight hEnded m
  cases h with
  | @waits looks hFlight hPending =>
    rcases move_getElem? hFlight m with hSame | rfl | rfl
    · exact .waits hSame hPending
    · exact fate_poll hBegun hFlight hPending
    · refine .dropped hBegun ⟨[], .start⟩ hFlight ⟨_, onFlight_getElem?_self hFlight _, ?_⟩
      have hWithin : ((l.restAfter looks).within l.frames).isPending = true := hPending
      rw [Flight.abort, if_pos hWithin]
  | atOnce hAlone hSite hNoted hFlight =>
    exact .atOnce hAlone hSite (hNoted.move m) (hKeeps hFlight (isPending_passOn ..))
  | returns hBegun hLater hWaits hAlone hSite hNoted hFlight =>
    exact .returns hBegun (hLater.move m) hWaits hAlone hSite (hNoted.move m)
      (hKeeps hFlight (isPending_passOn ..))
  | overtaken hBegun hLater hWaits hAlone hPending hExpired hSite hFlight =>
    exact .overtaken hBegun (hLater.move m) hWaits hAlone hPending hExpired hSite
      (hKeeps hFlight rfl)
  | dropped hBegun hLater hWaits hFlight =>
    obtain ⟨f, hFlight, hAborted⟩ := hFlight
    have hEnded : f.isPending = false := by
      rw [Flight.isPending, hAborted]
    exact .dropped hBegun (hLater.move m) hWaits ⟨f, hKeeps hFlight hEnded, hAborted⟩

/-- A request has come to the stage, and has gone in as far as it can. -/
structure Arrived (l : Logged) (begun : Traffic) (index : Nat) : Prop where
  unseen : l.flight.sight = none
  site : begun.site = l.whole.1
  flight : begun.flights[index]? = some l.whole.2

/-- No handler has seen the request yet. -/
theorem ComesBy.arrived {p : Pipeline} {edge : Edge} {site : Site} {sent : List Http.Request}
    (h : l.ComesBy t m index begun) (hReached : Reachable (.create p edge site) sent t) :
    l.Arrived begun index := by
  have hOrder := keepsOrder_reachable ⟨rfl, .nil⟩ hReached
  cases h with
  | @sent id r plan hPasses =>
    have hRoute : Flight.OnRoute (route r.path t.interceptors) r.path (t.newcomer id r plan) r
        t.interceptors := ⟨rfl, List.nil_append _, rfl⟩
    have hComes := hPasses.keeps (fun _ s _ _ _ h => Flight.OnRoute.pass h s) hRoute
    refine ⟨hComes.unseen, ?_, ?_⟩
    · rw [send_eq, hPasses.enter_eq]
      rfl
    · rw [send_eq, hPasses.enter_eq]
      exact List.getElem?_concat_length
  | @admitted _ ticket deadline _ _ scope _ _ _ _ bulkhead hFlight hQueued _ hLook hPasses =>
    obtain ⟨_, _, hFollows⟩ := exists_beside hOrder.follows hFlight
    have hAhead := hFollows.ahead _ _ (congrArg Activity.ahead? hQueued)
    have hRoute := hAhead.look t.site bulkhead ticket deadline scope
    rw [hLook] at hRoute
    have hComes := hPasses.keeps (fun _ s _ _ _ h => Flight.OnRoute.pass h s) hRoute
    obtain ⟨hIndex, -⟩ := List.getElem?_eq_some_iff.mp hFlight
    exact ⟨hComes.unseen, rfl, List.getElem?_set_self hIndex⟩

/-- At first the request waits, or the rest of the chain had nothing to wait for. -/
theorem Arrived.start (h : l.Arrived begun index) : l.Fate begun index begun := by
  have hEnclosed := l.enclosed
  have hSite := h.site
  have hFlight := h.flight
  generalize hAlone : l.alone = alone at hEnclosed
  generalize l.whole = whole at hEnclosed hSite hFlight
  cases hEnclosed with
  | @waits s g hPending =>
    have hFirst : l.restAfter [] = g := congrArg Prod.snd hAlone
    rw [← hFirst] at hPending hFlight
    exact .waits hFlight hPending
  | ends s g c =>
    rw [passOn_eq] at hSite hFlight
    exact .atOnce hAlone hSite (noted_passOn hSite) hFlight

theorem Arrived.fate {sent : List Http.Request} (h : l.Arrived begun index)
    (hLater : Reachable begun sent t') : l.Fate begun index t' := by
  induction hLater with
  | start => exact h.start
  | move hReached m ih => exact ih.move ⟨_, hReached⟩ m

/-! ## What the handler sees -/

/-- The handler sees the id if no further logging stage gives the request another one. -/
theorem Arrived.shows (h : l.Arrived begun index)
    (hLast : .requestLogging ∉ l.rest ∨ l.given = some l.id.bytes) {later : List Http.Request}
    (hLater : Reachable begun later t') :
    ∃ f, t'.flights[index]? = some f ∧ Flight.Shows l.id f := by
  induction hLater with
  | start =>
    refine ⟨_, h.flight, ?_⟩
    rw [whole_eq]
    refine Flight.Carries.enter ⟨?_, rfl, fun hAhead ids => ?_⟩ l.inner
    · intro sight hSight
      cases h.unseen.symm.trans hSight
    · have hKept : Http.Headers.get? l.identified.headers requestIdHeader = some l.id.bytes :=
        hLast.resolve_left (not_not_intro hAhead)
      rw [hKept, RequestId.assign_bytes]
  | @move _ r _ m ih =>
    obtain ⟨f, hFlight, hShows⟩ := ih
    rcases move_getElem? hFlight m with hSame | rfl | rfl
    · exact ⟨f, hSame, hShows⟩
    · exact ⟨_, onFlight_getElem?_self hFlight _, hShows.poll r.site⟩
    · exact ⟨_, onFlight_getElem?_self hFlight _, hShows.abort r.site⟩

/-- The id that a logging stage gives is the one that the handler sees, if the stage is the last of
its kind. -/
structure Came (start : Traffic) (l : Logged) (index : Nat) (t : Traffic) : Prop where
  last : .requestLogging ∉ l.rest
  comes : ∃ sent before m begun,
    Reachable start sent before ∧ l.ComesBy before m index begun ∧ begun.Leads t

theorem Came.move {start : Traffic} (h : l.Came start index t) (m : Move) :
    l.Came start index (t.move m) := by
  obtain ⟨sent, before, m', begun, hBefore, hComes, hLeads⟩ := h.comes
  exact ⟨h.last, sent, before, m', begun, hBefore, hComes, hLeads.move m⟩

theorem Came.seen {p : Pipeline} {edge : Edge} {site : Site} {f : Flight} {sight : Sight}
    (h : l.Came (.create p edge site) index t) (hFlight : t.flights[index]? = some f)
    (hSight : f.sight = some sight) : sight.id = some l.id := by
  obtain ⟨sent, before, m, begun, hBefore, hComes, later, hLater⟩ := h.comes
  obtain ⟨g, hSame, hShows⟩ := (hComes.arrived hBefore).shows (.inl h.last) hLater
  rw [hFlight] at hSame
  cases hSame
  exact hShows.seen sight hSight

end Logged

open Traffic

/-- A pipeline with a logging stage. -/
def observed : Traffic :=
  .create ⟨[⟨0, "panic_recovery", .panicRecovery⟩, ⟨50, "request_logging", .requestLogging⟩]⟩
    .direct (.create .none .standalone)

end Gatehouse.Pipeline
