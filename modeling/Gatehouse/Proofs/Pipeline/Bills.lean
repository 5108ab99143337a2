import Gatehouse.Proofs.Pipeline.Service

/-!
# What a request is charged

A request that is looked at is charged what is counted meanwhile. While it waits it is charged
nothing. When it ends it has been charged once, for the outcome that its caller is given, unless
its wait for a slot was ended by its scope: then it ends with the failure of the scope and is
charged nothing at all.

* `Flight.Billed`: the invariant of a request and its bill.
* `bills_enter`, `billed_poll`, `billed_abort`: the operations on a request.
-/

namespace Gatehouse.Pipeline

/-! ## Lost waits -/

/-- Whether, on the way inwards, the scope of the request ends its wait for a slot. -/
def Flight.forsaken (f : Flight) (s : Site) (r : Http.Request) : List Interceptor → Bool
  | [] => false
  | stage :: rest =>
    match f.pass s r stage rest with
    | .inwards f s r => f.forsaken s r rest
    | .lost _ _ _ => true
    | _ => false

def Passage.forsaken (rest : List Interceptor) : Passage → Bool
  | .inwards f s r => f.forsaken s r rest
  | .lost _ _ _ => true
  | _ => false

theorem Flight.forsaken_cons (f : Flight) (s : Site) (r : Http.Request) (stage : Interceptor)
    (rest : List Interceptor) :
    f.forsaken s r (stage :: rest) = (f.pass s r stage rest).forsaken rest := by
  rw [Flight.forsaken]
  cases f.pass s r stage rest <;> rfl

/-- Whether the scope of a request in line ends its wait when it is looked at. -/
def Flight.forsakenInLine (f : Flight) (s : Site) : Bool :=
  match f.activity with
  | .queued ticket deadline scope rest r =>
    match s.gates.bulkhead with
    | none => false
    | some b => (f.look s b ticket deadline scope rest r).forsaken rest
  | _ => false

/-! ## The order of the stages -/

/-- The stages between recovery and logging. -/
def Interceptor.isGate : Interceptor → Bool
  | .timeout _ => true
  | .rateLimit => true
  | .circuitBreaker => true
  | .bulkhead => true
  | _ => false

def Interceptor.isInner : Interceptor → Bool
  | .schemaValidation _ => true
  | .errorTranslation _ => true
  | _ => false

/-- Gates are ahead, and then the logging stage with what is inside of it. -/
inductive Ahead : List Interceptor → Prop where
  | logging {inner : List Interceptor} (h : ∀ i ∈ inner, i.isInner = true) :
      Ahead (.requestLogging :: inner)
  | gate {stage : Interceptor} {rest : List Interceptor} (h : stage.isGate = true)
      (ahead : Ahead rest) : Ahead (stage :: rest)

/-- How far a request has come: the stages it is inside of, and those ahead of it. -/
inductive Course : List Frame → List Interceptor → Prop where
  | door {stages : List Interceptor} (ahead : Ahead stages) : Course [] (.panicRecovery :: stages)
  | outside {frames : List Frame} {stages : List Interceptor} (outside : Outside frames)
      (ahead : Ahead stages) : Course frames stages
  | inside {frames : List Frame} {stages : List Interceptor} (inside : Inside frames)
      (h : ∀ i ∈ stages, i.isInner = true) : Course frames stages

theorem Course.inside_of_nil {frames : List Frame} (h : Course frames []) : Inside frames := by
  cases h with
  | outside _ ahead => cases ahead
  | inside inside _ => exact inside

/-! ## Bills -/

structure Bill where
  charges : List Measurement
  lost : Bool

/-- The bill of a request that has not ended. -/
def Bill.blank : Bill := ⟨[], false⟩

/-- The bill of a request that ended with an outcome. -/
def Bill.Settles (b : Bill) (o : Http.Outcome) : Prop :=
  (b.lost = false ∧ CountedOnce o b.charges) ∨
    (b.lost = true ∧ b.charges = [] ∧ ∃ cause, o = .error (.ofCause cause))

/-- The bill of a request is right, wherever the request has come to. -/
def Flight.Billed (f : Flight) (b : Bill) : Prop :=
  match f.activity with
  | .queued _ _ _ rest _ => b = .blank ∧ Outside f.frames ∧ Ahead rest
  | .awaitingEnd _ => b = .blank ∧ Inside f.frames
  | .working _ _ => b = .blank ∧ Inside f.frames
  | .ended _ c => ∃ o, c = f.edge.deliver f.method (.outcome o) ∧ b.Settles o
  | .aborted => b = .blank

/-- What was charged since a site, together with a lost wait, is the bill of a request. -/
def Bills (s : Site) (lost : Bool) (after : Site × Flight) : Prop :=
  ∃ counts, s.Charged after.1 counts ∧ after.2.Billed ⟨counts, lost⟩

theorem Bills.of_charged {s s' : Site} {lost : Bool} {after : Site × Flight}
    (h : Bills s' lost after) (hQuiet : s.Charged s' []) : Bills s lost after := by
  obtain ⟨counts, hCharged, hBilled⟩ := h
  exact ⟨counts, hQuiet.next hCharged, hBilled⟩

namespace Flight

variable {f : Flight}

/-! ### In the handler, and on the way out -/

theorem bills_complete_of {s s' : Site} {c : Completion} {o : Http.Outcome}
    {counts : List Measurement} {lost : Bool}
    (hOutcome : (ascend s' c f.frames).2 = .outcome o)
    (hCharged : s.Charged (ascend s' c f.frames).1 counts)
    (hSettles : Bill.Settles ⟨counts, lost⟩ o) : Bills s lost (f.complete s' c) :=
  ⟨counts, hCharged, o, congrArg (f.edge.deliver f.method) hOutcome, hSettles⟩

theorem bills_complete (h : Inside f.frames) (s : Site) (c : Completion) :
    Bills s false (f.complete s c) := by
  obtain ⟨o, counts, hOutcome, hCharged, hOnce⟩ := ascend_inside h s c
  exact bills_complete_of hOutcome hCharged (.inl ⟨rfl, hOnce⟩)

theorem bills_complete_lost (h : Outside f.frames) (s : Site) (cause : Cause) :
    Bills s true (f.complete s (.outcome (.error (.ofCause cause)))) := by
  obtain ⟨hOutcome, hCharged⟩ := ascend_outside h s (.error (.ofCause cause))
  exact bills_complete_of hOutcome hCharged (.inr ⟨rfl, rfl, cause, rfl⟩)

theorem bills_reject (h : Outside f.frames) (s : Site) (failure : Failure) (event : LogEvent) :
    Bills s false (f.reject s failure (.log event)) := by
  have hNote := s.charged_note (rejection (.log event) failure)
  obtain ⟨hOutcome, hCharged⟩ :=
    ascend_outside h (s.note (rejection (.log event) failure)) (.error failure)
  exact bills_complete_of hOutcome (hNote.last hCharged) (.inl ⟨rfl, .inr ⟨failure, rfl, rfl⟩⟩)

/-- Inside of the logging stage the service counts nothing. -/
theorem serves_bills (s₀ : Site) :
    Serves (fun s inner => s₀.Charged s [] ∧ Inside inner) (Bills s₀ false) where
  ends := fun c h => (bills_complete h.2 _ c).of_charged h.1
  waits := by
    intro s f hIn h
    refine ⟨[], h.1, ?_⟩
    cases hActivity : f.activity with
    | awaitingEnd | working =>
      simp only [Billed, hActivity]
      exact ⟨rfl, h.2⟩
    | queued | ended | aborted =>
      rw [hActivity] at hIn
      cases hIn
  aside := fun _ hCharged h => ⟨h.1.next hCharged, h.2⟩

/-! ### On the way inwards -/

end Flight

/-- What a stage may make of a request, charged nothing so far: it is turned away or loses its wait
outside of the logging stage, and it ends inside. -/
def Passage.Leads (s₀ : Site) (rest : List Interceptor) : Passage → Prop
  | .inwards f s _ => s₀.Charged s [] ∧ Course f.frames rest
  | .waits f s => s₀.Charged s [] ∧ f.Billed .blank
  | .rejected f s _ event => s₀.Charged s [] ∧ Outside f.frames ∧ ∃ e, event = .log e
  | .ends f s _ => s₀.Charged s [] ∧ Inside f.frames
  | .lost f s _ => s₀.Charged s [] ∧ Outside f.frames

namespace Flight

variable {f : Flight} {s₀ s : Site} {r : Http.Request} {rest : List Interceptor}

theorem charges_poll (b : Bulkhead) (ticket deadline now : Nat) (cause : Option Cause) :
    Journal.charges (b.poll ticket deadline now cause).2.2 = [] := by
  cases hTake : b.take? ticket with
  | some taken =>
    rw [Bulkhead.poll_of_take hTake]
    rfl
  | none =>
    rw [Bulkhead.poll_of_take_none hTake]
    split
    · rfl
    · cases cause <;> rfl

theorem leads_look (hCharged : s₀.Charged s []) (hOutside : Outside f.frames) (hAhead : Ahead rest)
    (b : Bulkhead) (ticket deadline : Nat) (scope : Scope) (r : Http.Request) :
    (f.look s b ticket deadline scope rest r).Leads s₀ rest := by
  have hPoll := charges_poll b ticket deadline s.now (s.cancelled? scope)
  unfold look
  revert hPoll
  generalize b.poll ticket deadline s.now (s.cancelled? scope) = polled
  obtain ⟨progress, b', journal⟩ := polled
  intro hPoll
  have hAfter : s₀.Charged ((s.setBulkhead b').note journal) [] :=
    hCharged.next ⟨journal, rfl, hPoll⟩
  cases progress with
  | waits => exact ⟨hAfter, rfl, hOutside, hAhead⟩
  | holds => exact ⟨hAfter, .outside (.gate rfl hOutside) hAhead⟩
  | refused reason =>
    cases reason with
    | full capacity => exact ⟨hAfter, hOutside, _, rfl⟩
    | ended cause => exact ⟨hAfter, hOutside⟩

theorem leads_meetGate (hCharged : s₀.Charged s []) (hOutside : Outside f.frames)
    (hAhead : Ahead rest) (r : Http.Request) (stage : Interceptor) :
    (f.meetGate s r rest stage).Leads s₀ rest := by
  have hScope := hCharged.next (s.charged_scopeOf r)
  cases stage with
  | rateLimit =>
    simp only [meetGate]
    cases s.gates.limiter with
    | none => exact ⟨hCharged, .outside hOutside hAhead⟩
    | some l =>
      simp only
      split
      · exact ⟨hCharged, .outside hOutside hAhead⟩
      · exact ⟨hCharged, hOutside, _, rfl⟩
  | circuitBreaker =>
    simp only [meetGate]
    cases s.gates.breaker with
    | none => exact ⟨hCharged, .outside hOutside hAhead⟩
    | some b =>
      have hTried : Journal.charges (b.tryAcquire (s.scopeOf r).2.now).2.2 = [] := by
        rw [Breaker.CircuitBreaker.tryAcquire_eq]
        exact Breaker.CircuitBreaker.charges_report _ _
      revert hTried
      simp only
      generalize b.tryAcquire (s.scopeOf r).2.now = tried
      obtain ⟨answer, b', journal⟩ := tried
      intro hTried
      have hAfter : s₀.Charged (((s.scopeOf r).2.setBreaker b').note journal) [] :=
        hScope.next ⟨journal, rfl, hTried⟩
      cases answer with
      | ok admission => exact ⟨hAfter, .outside (.gate rfl hOutside) hAhead⟩
      | error state => exact ⟨hAfter, hOutside, _, rfl⟩
  | bulkhead =>
    simp only [meetGate]
    cases s.gates.bulkhead with
    | none => exact ⟨hCharged, .outside hOutside hAhead⟩
    | some b => exact leads_look hScope hOutside hAhead _ _ _ _ r
  | panicRecovery | timeout | requestLogging | schemaValidation | errorTranslation | mark =>
    exact ⟨hCharged, .outside hOutside hAhead⟩

theorem pastUnarmed_of_inside {frames : List Frame} (h : Inside frames) :
    pastUnarmed frames = frames := by
  cases h <;> rfl

/-- A stage inside of the logging stage ends a request or lets it go on. -/
theorem leads_inner (hCharged : s₀.Charged s []) (hInside : Inside f.frames)
    (hInner : ∀ i ∈ rest, i.isInner = true) {stage : Interceptor} (h : stage.isInner = true)
    (r : Http.Request) : (f.meet s r rest stage).Leads s₀ rest := by
  cases stage with
  | schemaValidation v =>
    simp only [meet]
    cases v.check r with
    | accepted => exact ⟨hCharged, .inside hInside hInner⟩
    | rejected failure => exact ⟨hCharged.next (s.charged_note _), hInside⟩
    | panicked payload =>
      refine ⟨hCharged, ?_⟩
      simp only [marked, pastUnarmed_of_inside hInside]
      exact hInside
  | errorTranslation translate => exact ⟨hCharged, .inside (.translation translate hInside) hInner⟩
  | panicRecovery | timeout | rateLimit | circuitBreaker | bulkhead | requestLogging | mark =>
    cases h

/-- A gate outside of the logging stage; probes pass it by. -/
theorem leads_gate (hCharged : s₀.Charged s []) (hOutside : Outside f.frames)
    (hAhead : Ahead rest) {stage : Interceptor} (h : stage.isGate = true) (r : Http.Request) :
    (f.pass s r stage rest).Leads s₀ rest := by
  unfold pass
  split
  · exact ⟨hCharged, .outside hOutside hAhead⟩
  · cases stage with
    | timeout limit =>
      exact ⟨hCharged.next (s.charged_scopeOf r), .outside (.gate rfl hOutside) hAhead⟩
    | rateLimit => exact leads_meetGate hCharged hOutside hAhead r .rateLimit
    | circuitBreaker => exact leads_meetGate hCharged hOutside hAhead r .circuitBreaker
    | bulkhead => exact leads_meetGate hCharged hOutside hAhead r .bulkhead
    | panicRecovery | requestLogging | schemaValidation | errorTranslation | mark => cases h

theorem pass_of_not_bypassed {stage : Interceptor} (h : stage.bypassesProbes = false)
    (f : Flight) (s : Site) (r : Http.Request) (rest : List Interceptor) :
    f.pass s r stage rest = f.meet s r rest stage := by
  simp [pass, h]

theorem leads_pass {stage : Interceptor} (hCharged : s₀.Charged s [])
    (h : Course f.frames (stage :: rest)) (r : Http.Request) :
    (f.pass s r stage rest).Leads s₀ rest := by
  generalize hFrames : f.frames = frames at h
  cases h with
  | door ahead =>
    rw [pass_of_not_bypassed rfl]
    refine ⟨hCharged, .outside ?_ ahead⟩
    simp only [push, hFrames]
    exact .recovery _ _
  | outside outside ahead =>
    rw [← hFrames] at outside
    cases ahead with
    | logging hInner =>
      rw [pass_of_not_bypassed rfl]
      exact ⟨hCharged, .inside (.logging _ _ _ _ outside) hInner⟩
    | gate hGate ahead => exact leads_gate hCharged outside ahead hGate r
  | inside inside hInner =>
    rw [← hFrames] at inside
    have hStage := hInner stage List.mem_cons_self
    have hRest : ∀ i ∈ rest, i.isInner = true := fun i hi => hInner i (List.mem_cons_of_mem _ hi)
    rw [pass_of_not_bypassed (by cases stage <;> first | rfl | cases hStage)]
    exact leads_inner hCharged inside hRest hStage r

/-- What follows from a stage, once it is known what follows from going on. -/
theorem bills_follow
    (hEnter : ∀ {f : Flight} {s : Site}, s₀.Charged s [] → Course f.frames rest →
      ∀ r, Bills s₀ (f.forsaken s r rest) (f.enter s r rest))
    {passage : Passage} (h : passage.Leads s₀ rest) :
    Bills s₀ (passage.forsaken rest) (passage.follow rest) := by
  cases passage with
  | inwards f s r => exact hEnter h.1 h.2 r
  | waits f s => exact ⟨[], h.1, h.2⟩
  | rejected f s failure event =>
    obtain ⟨hCharged, hOutside, e, rfl⟩ := h
    exact (bills_reject hOutside s failure e).of_charged hCharged
  | ends f s c => exact (bills_complete h.2 s c).of_charged h.1
  | lost f s cause => exact (bills_complete_lost h.2 s cause).of_charged h.1

/-- The whole way inwards: by the stages that are ahead. -/
theorem bills_enter {stages : List Interceptor} (hCharged : s₀.Charged s [])
    (h : Course f.frames stages) (r : Http.Request) :
    Bills s₀ (f.forsaken s r stages) (f.enter s r stages) := by
  induction stages generalizing f s r with
  | nil =>
    rw [enter_nil]
    exact (serves_bills s₀).arrive ⟨hCharged, h.inside_of_nil⟩ r
  | cons stage rest ih =>
    have hLeads := leads_pass hCharged h r
    rw [enter_cons, forsaken_cons]
    exact bills_follow ih hLeads

/-! ### At an instant -/

theorem Billed.eq_blank {b : Bill} (h : f.Billed b) (hPending : f.isPending = true) :
    b = .blank := by
  unfold Billed at h
  unfold isPending at hPending
  cases hActivity : f.activity with
  | queued | awaitingEnd | working =>
    rw [hActivity] at h
    exact h.1
  | ended | aborted =>
    rw [hActivity] at hPending
    cases hPending

theorem bills_pollActivity (h : f.Billed .blank) (hPending : f.isPending = true) (s : Site) :
    Bills s (f.forsakenInLine s) (f.pollActivity s) := by
  unfold isPending at hPending
  cases hActivity : f.activity with
  | queued ticket deadline scope rest r =>
    have hBilled := h
    simp only [Billed, hActivity] at hBilled
    obtain ⟨-, hOutside, hAhead⟩ := hBilled
    rw [pollActivity_queued hActivity]
    simp only [forsakenInLine, hActivity]
    cases s.gates.bulkhead with
    | none => exact ⟨[], .refl s, h⟩
    | some b =>
      have hLeads := leads_look (.refl s) hOutside hAhead b ticket deadline scope r
      exact bills_follow (fun hCharged hCourse => bills_enter hCharged hCourse) hLeads
  | awaitingEnd | working =>
    simp only [Billed, hActivity] at h
    simp only [forsakenInLine, hActivity]
    exact (serves_bills s).pollActivity ⟨.refl s, h.2⟩ (by rw [hActivity]; rfl)
  | ended | aborted =>
    rw [hActivity] at hPending
    cases hPending

theorem charged_discardActivity (f : Flight) (s : Site) : s.Charged (f.discardActivity s) [] := by
  unfold discardActivity
  split
  · exact Site.charged_onBulkhead s fun _ => rfl
  · exact .refl s

/-- An expired timeout is outside of the logging stage, whether the request waits in line or has
come to its handler. -/
theorem Billed.outside_of_expired {b : Bill} (h : f.Billed b) (hPending : f.isPending = true)
    {e : Expired} (hExpired : expired? s f.frames = some e) : Outside e.outer := by
  have hSplit := expired?_split hExpired
  unfold Billed at h
  unfold isPending at hPending
  cases hActivity : f.activity with
  | queued ticket deadline scope rest r =>
    simp only [hActivity] at h
    rw [hSplit] at h
    exact outside_of_append h.2.1
  | awaitingEnd | working =>
    simp only [hActivity] at h
    rw [hSplit] at h
    exact outside_of_inside h.2
  | ended | aborted =>
    rw [hActivity] at hPending
    cases hPending

theorem bills_pollTimeouts (h : f.Billed .blank) (hPending : f.isPending = true) (s : Site) :
    Bills s false (f.pollTimeouts s) := by
  unfold pollTimeouts
  cases hExpired : expired? s f.frames with
  | none => exact ⟨[], .refl s, h⟩
  | some e =>
    have hOutside := h.outside_of_expired hPending hExpired
    have hDropped := (f.charged_discardActivity s).next (discardAll_charged _ e.inner)
    refine (bills_reject ?_ _ _ _).of_charged (hDropped.next (.of_journal rfl))
    exact hOutside

theorem bills_poll (h : f.Billed .blank) (hPending : f.isPending = true) (s : Site) :
    Bills s (f.forsakenInLine s) (f.poll s) := by
  have hActivity := bills_pollActivity h hPending s
  unfold poll
  simp only
  split
  · rename_i hStill
    obtain ⟨counts, hCharged, hBilled⟩ := hActivity
    have hBlank := hBilled.eq_blank hStill
    have hCounts : counts = [] := congrArg Bill.charges hBlank
    have hLost : f.forsakenInLine s = false := congrArg Bill.lost hBlank
    rw [hBlank] at hBilled
    rw [hCounts] at hCharged
    rw [hLost]
    exact (bills_pollTimeouts hBilled hStill _).of_charged hCharged
  · exact hActivity

theorem poll_of_not_pending (hEnded : f.isPending = false) (s : Site) :
    f.poll s = (s, f) ∧ f.forsakenInLine s = false := by
  unfold isPending at hEnded
  unfold poll forsakenInLine
  cases hActivity : f.activity with
  | queued | awaitingEnd | working =>
    rw [hActivity] at hEnded
    cases hEnded
  | ended | aborted => simp [pollActivity, isPending, hActivity]

/-- A bill after more was charged. -/
theorem billed_poll {b : Bill} (h : f.Billed b) (s : Site) :
    ∃ counts, s.Charged (f.poll s).1 counts ∧
      (f.poll s).2.Billed ⟨b.charges ++ counts, b.lost || f.forsakenInLine s⟩ := by
  cases hPending : f.isPending with
  | true =>
    have hBlank := h.eq_blank hPending
    subst hBlank
    exact bills_poll h hPending s
  | false =>
    obtain ⟨hPoll, hLost⟩ := poll_of_not_pending hPending s
    rw [hPoll, hLost]
    refine ⟨[], .refl s, ?_⟩
    rw [List.append_nil, Bool.or_false]
    exact h

theorem billed_abort {b : Bill} (h : f.Billed b) (s : Site) :
    ∃ counts, s.Charged (f.abort s).1 counts ∧
      (f.abort s).2.Billed ⟨b.charges ++ counts, b.lost || false⟩ := by
  unfold abort
  split
  · rename_i hPending
    have hBlank := h.eq_blank hPending
    subst hBlank
    exact ⟨[], (f.charged_discardActivity s).next (discardAll_charged _ _), rfl⟩
  · refine ⟨[], .refl s, ?_⟩
    rw [List.append_nil, Bool.or_false]
    exact h

end Flight

end Gatehouse.Pipeline
