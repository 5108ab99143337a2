import Gatehouse.Pipeline.Flight
import Gatehouse.Proofs.Scope.Causes

/-!
# The way inwards, stage by stage

A request that enters a pipeline meets one stage after the other. What a stage makes of it is one
of five things (`Passage`): the request goes on, it waits for a slot, it is turned away with a
rejection that is noted, it ends, or its wait for a slot is over because its scope has ended. The
way inwards is the sequence of these.

* `enter_cons`: the first stage, and what follows from it.
* `enter_keeps`: what every stage keeps holds of the whole way.
* `pollActivity_queued`: a request in line looks again as it did when it joined.
-/

namespace Gatehouse.Pipeline

@[simp] theorem Site.cancelled?_eq_cause? (s : Site) (scope : Scope) :
    s.cancelled? scope = s.cause? scope :=
  Scope.cancelled?_eq_cause? ..

/-- What a stage makes of a request that comes to it. -/
inductive Passage where
  | inwards (flight : Flight) (site : Site) (request : Http.Request)
  | waits (flight : Flight) (site : Site)
  | rejected (flight : Flight) (site : Site) (failure : Failure) (event : Entry)
  | ends (flight : Flight) (site : Site) (completion : Completion)
  /-- The scope ended the wait for a slot. -/
  | lost (flight : Flight) (site : Site) (cause : Cause)

/-- What follows from it, where `rest` are the stages further in. -/
def Passage.follow (rest : List Interceptor) : Passage → Site × Flight
  | .inwards f site r => f.enter site r rest
  | .waits f site => (site, f)
  | .rejected f site failure event => f.reject site failure event
  | .ends f site c => f.complete site c
  | .lost f site cause => f.complete site (.outcome (.error (.ofCause cause)))

namespace Flight

/-- A look at a ticket of the bulkhead. -/
def look (f : Flight) (site : Site) (b : Bulkhead) (ticket deadline : Nat) (scope : Scope)
    (rest : List Interceptor) (r : Http.Request) : Passage :=
  let (progress, b, journal) := b.poll ticket deadline site.now (site.cancelled? scope)
  let site := (site.setBulkhead b).note journal
  match progress with
  | .waits => .waits { f with activity := .queued ticket deadline scope rest r } site
  | .holds => .inwards (f.push .slot) site r
  | .refused (.full capacity) =>
    .rejected f site .bulkheadFull (.warn "Bulkhead full, rejecting request"
      [("capacity", .number capacity)])
  | .refused (.ended cause) => .lost f site cause

/-- What the stages do that ask one of the gates. -/
def meetGate (f : Flight) (site : Site) (r : Http.Request) (rest : List Interceptor) :
    Interceptor → Passage
  | .rateLimit =>
    match site.gates.limiter with
    | none => .inwards f site r
    | some l =>
      let (granted, l) := l.tryAcquire site.now
      if granted then .inwards f (site.setLimiter l) r
      else .rejected f (site.setLimiter l) .rateLimited
        (.debug "Rate limit exceeded" [("path", .text r.path)])
  | .circuitBreaker =>
    match site.gates.breaker with
    | none => .inwards f site r
    | some b =>
      let (scope, site) := site.scopeOf r
      let (answer, b, journal) := b.tryAcquire site.now
      let site := (site.setBreaker b).note journal
      match answer with
      | .ok admission => .inwards (f.push (.call admission scope)) site r
      | .error state => .rejected f site (.breakerOpen b.name)
        (.debug "Circuit breaker rejected request"
          [("breaker", .text b.name), ("state", .text state.name)])
  | .bulkhead =>
    match site.gates.bulkhead with
    | none => .inwards f site r
    | some b =>
      let (scope, site) := site.scopeOf r
      f.look site b.enter.2 b.enter.1 (site.now + b.enter.2.acquireTimeout) scope rest r
  | _ => .inwards f site r

/-- What a stage does with a request that it does not let by as a probe. -/
def meet (f : Flight) (site : Site) (r : Http.Request) (rest : List Interceptor) :
    Interceptor → Passage
  | .panicRecovery => .inwards (f.push (.recovery r.method r.path)) site r
  | .timeout limit =>
    let (parent, site) := site.scopeOf r
    let (scope, tokens) := parent.childUntil (site.now + limit) site.directory.tokens
    .inwards (f.push (.timeout limit scope)) (site.setTokens tokens) { r with scope := some scope }
  | .requestLogging =>
    let (id, ids) :=
      Http.RequestId.assign (Http.Headers.get? r.headers Http.requestIdHeader) site.ids
    .inwards (f.push (.logging id r.method r.path site.now)) { site with ids := ids }
      { r with id := some id }
  | .schemaValidation v =>
    let f := f.marked v.label
    match v.check r with
    | .accepted => .inwards f site r
    | .rejected failure =>
      .ends f (site.note [.debug "Request failed validation"
        [("path", .text r.path), ("error", .text failure.toText)]]) (.outcome (.error failure))
    | .panicked payload => .ends { f with frames := pastUnarmed f.frames } site (.panic payload)
  | .errorTranslation translate => .inwards (f.push (.translation translate)) site r
  | .mark label _ rejection =>
    match rejection with
    | some failure => .ends (f.marked label) site (.outcome (.error failure))
    | none => .inwards (f.marked label) site r
  | gate => f.meetGate site r rest gate

/-- What becomes of a request at a stage. -/
def pass (f : Flight) (site : Site) (r : Http.Request) (stage : Interceptor)
    (rest : List Interceptor) : Passage :=
  if Http.isProbePath r.path && stage.bypassesProbes then .inwards f site r
  else f.meet site r rest stage

theorem enter_nil (f : Flight) (site : Site) (r : Http.Request) :
    f.enter site r [] = f.arrive site r := by
  rw [enter]

/-- A look in line is what the request would do on its own. -/
theorem look_follow (f : Flight) (site : Site) (b : Bulkhead) (ticket deadline : Nat)
    (scope : Scope) (rest : List Interceptor) (r : Http.Request) :
    (f.look site b ticket deadline scope rest r).follow rest =
      let polled := b.poll ticket deadline site.now (site.cancelled? scope)
      let after := (site.setBulkhead polled.2.1).note polled.2.2
      match polled.1 with
      | .waits => (after, { f with activity := .queued ticket deadline scope rest r })
      | .holds => (f.push .slot).enter after r rest
      | .refused reason => f.refuse after reason := by
  unfold look
  cases hPoll : (b.poll ticket deadline site.now (site.cancelled? scope)).1 with
  | waits => simp only [hPoll, Passage.follow]
  | holds => simp only [hPoll, Passage.follow]
  | refused reason =>
    cases reason <;> simp only [hPoll, Passage.follow, refuse]

theorem enter_cons (f : Flight) (site : Site) (r : Http.Request) (stage : Interceptor)
    (rest : List Interceptor) :
    f.enter site r (stage :: rest) = (f.pass site r stage rest).follow rest := by
  rw [enter.eq_def]
  unfold pass
  by_cases hProbe : (Http.isProbePath r.path && stage.bypassesProbes) = true
  · simp only [hProbe, if_true]
    rfl
  · simp only [hProbe, if_false, Bool.false_eq_true]
    cases stage with
    | panicRecovery => rfl
    | timeout limit => rfl
    | requestLogging => rfl
    | errorTranslation translate => rfl
    | schemaValidation v =>
      simp only [meet]
      cases v.check r <;> rfl
    | mark label bypasses rejection =>
      simp only [meet]
      cases rejection <;> rfl
    | rateLimit =>
      simp only [meet, meetGate]
      cases site.gates.limiter with
      | none => rfl
      | some l =>
        cases hGranted : (l.tryAcquire site.now).1 <;> simp only [hGranted] <;> rfl
    | circuitBreaker =>
      simp only [meet, meetGate]
      cases site.gates.breaker with
      | none => rfl
      | some b =>
        cases hAnswer : (b.tryAcquire (site.scopeOf r).2.now).1 <;> simp only [hAnswer] <;> rfl
    | bulkhead =>
      simp only [meet, meetGate]
      cases site.gates.bulkhead with
      | none => rfl
      | some b => exact (look_follow ..).symm

/-- A request in line looks for its slot as it did when it joined the line. -/
theorem pollActivity_queued {f : Flight} {ticket deadline : Nat} {scope : Scope}
    {rest : List Interceptor} {r : Http.Request}
    (hQueued : f.activity = .queued ticket deadline scope rest r) (site : Site) :
    f.pollActivity site =
      match site.gates.bulkhead with
      | none => (site, f)
      | some b => (f.look site b ticket deadline scope rest r).follow rest := by
  unfold pollActivity
  simp only [hQueued]
  cases site.gates.bulkhead with
  | none => rfl
  | some b =>
    have hLook := look_follow f site b ticket deadline scope rest r
    have hSame : { f with activity := .queued ticket deadline scope rest r } = f := by
      rw [← hQueued]
    rw [hSame] at hLook
    exact hLook.symm

end Flight

/-- A stage keeps what holds on the way inwards, or leads to what is to hold after it. -/
def Passage.Keeps (Inside : Flight → Site → Http.Request → List Interceptor → Prop)
    (After : Site × Flight → Prop) (rest : List Interceptor) : Passage → Prop
  | .inwards f site r => Inside f site r rest
  | passage => After (passage.follow rest)

namespace Flight

variable {Inside : Flight → Site → Http.Request → List Interceptor → Prop}
  {After : Site × Flight → Prop}

/-- What every stage keeps holds of the whole way inwards. -/
theorem enter_keeps
    (hPass : ∀ f site r stage rest, Inside f site r (stage :: rest) →
      (f.pass site r stage rest).Keeps Inside After rest)
    (hArrive : ∀ f site r, Inside f site r [] → After (f.arrive site r))
    (f : Flight) (site : Site) (r : Http.Request) (stages : List Interceptor)
    (h : Inside f site r stages) : After (f.enter site r stages) := by
  induction stages generalizing f site r with
  | nil =>
    rw [enter_nil]
    exact hArrive f site r h
  | cons stage rest ih =>
    have hStage := hPass f site r stage rest h
    rw [enter_cons]
    cases hMeet : f.pass site r stage rest with
    | inwards f' site' r' =>
      rw [hMeet] at hStage
      exact ih f' site' r' hStage
    | waits | rejected | ends | lost =>
      rw [hMeet] at hStage
      exact hStage

theorem follow_keeps {rest : List Interceptor}
    (hEnter : ∀ f site r, Inside f site r rest → After (f.enter site r rest))
    {passage : Passage} (h : passage.Keeps Inside After rest) : After (passage.follow rest) := by
  cases passage with
  | inwards f site r => exact hEnter f site r h
  | waits | rejected | ends | lost => exact h

end Flight

end Gatehouse.Pipeline
