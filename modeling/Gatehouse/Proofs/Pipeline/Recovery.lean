import Gatehouse.Pipeline.Rules
import Gatehouse.Proofs.Pipeline.Assembly
import Gatehouse.Proofs.Pipeline.Bills
import Gatehouse.Proofs.Pipeline.Moves
import Mathlib.Logic.Relation

/-!
# Panics are recovered

The recovery stage guards everything that happens while the answer from further inside is waited
for. A panic unwinds the frames of the request until it comes to a recovery frame, where it becomes
a failure and is noted; the failure then goes on outwards. It reaches the caller as it is if there
is no translation further out, which is the case where no translation stage stands outside of a
further recovery stage (`Sheltered`).

What a stage does before it hands anything back to wait for happens while the stages around it are
still handing on. A panic of that kind goes past a recovery stage that is directly around it, and
where that one is the outermost stage it leaves the pipeline.

* `Guarded`: the frames of a request inside of an outermost recovery stage.
* `rescued_of_guarded`: wherever in them a panic is raised, it is stopped, and noted once.
* `caught_of_guarded`: it ends as that failure where no translation is in its way.
* `Flight.Shielded`: the invariant of a request, and `comes_enter`, `comes_poll`: what becomes of
  one that goes inwards, and of one that waits.
* `Flight.slips`: the requests that a panic ends all the same, and no others.
* `Place.Reached`: the places between two stages that requests can come to.
* `panics_recovered`: for all traffic.
-/

namespace Gatehouse.Pipeline

/-! ## Recovery and translation -/

def Interceptor.isRecovery : Interceptor → Bool
  | .panicRecovery => true
  | _ => false

def Interceptor.isTranslation : Interceptor → Bool
  | .errorTranslation _ => true
  | _ => false

/-- No translation stage stands outside of a recovery stage. -/
def Sheltered (stages : List Interceptor) : Prop :=
  stages.Pairwise fun outer inner => outer.isTranslation = true → inner.isRecovery = false

def Frame.isRecovery : Frame → Bool
  | .recovery _ _ => true
  | _ => false

def Frame.isTranslation : Frame → Bool
  | .translation _ => true
  | _ => false

/-- Outermost is a recovery stage, and in a pipeline that is `sheltered` there is no translation
around any other one. -/
inductive Guarded (sheltered : Prop) : List Frame → Prop where
  | door (method path : String) : Guarded sheltered [.recovery method path]
  | frame {frame : Frame} {outer : List Frame} (h : frame.isRecovery = false)
      (guarded : Guarded sheltered outer) : Guarded sheltered (frame :: outer)
  | further {outer : List Frame} (method path : String)
      (plain : sheltered → ∀ frame ∈ outer, frame.isTranslation = false)
      (guarded : Guarded sheltered outer) : Guarded sheltered (.recovery method path :: outer)

variable {sheltered : Prop}

theorem Guarded.ne_nil {frames : List Frame} (h : Guarded sheltered frames) : frames ≠ [] := by
  cases h <;> simp

theorem Guarded.tail {frame : Frame} {outer : List Frame}
    (h : Guarded sheltered (frame :: outer)) : outer = [] ∨ Guarded sheltered outer := by
  cases h with
  | door => exact .inl rfl
  | frame _ guarded => exact .inr guarded
  | further _ _ _ guarded => exact .inr guarded

theorem Guarded.of_append {inner outer : List Frame} (h : Guarded sheltered (inner ++ outer))
    (hOuter : outer ≠ []) : Guarded sheltered outer := by
  induction inner with
  | nil => exact h
  | cons frame inner ih =>
    rcases h.tail with hNil | hRest
    · exact absurd (List.append_eq_nil_iff.mp hNil).2 hOuter
    · exact ih hRest

/-- Around a timeout there is a recovery stage. -/
theorem Guarded.of_timeout {inner outer : List Frame} {limit : Nat} {scope : Scope}
    (h : Guarded sheltered (inner ++ .timeout limit scope :: outer)) : Guarded sheltered outer := by
  cases h.of_append (by simp) with
  | frame _ guarded => exact guarded

/-! ## What rises through the frames -/

/-- Recovered panics among some counts. -/
def recoveries (counts : List Measurement) : Nat := counts.count (.rejection .panicRecovered)

theorem recoveries_append (counts more : List Measurement) :
    recoveries (counts ++ more) = recoveries counts + recoveries more := List.count_append

/-- A panic passes every frame but those of recovery stages, and is not counted. -/
theorem rise_panic {frame : Frame} (h : frame.isRecovery = false) (s : Site) (payload : Panic) :
    (frame.rise s (.panic payload)).2 = .panic payload ∧
      s.Charged (frame.rise s (.panic payload)).1 [] := by
  cases frame with
  | timeout limit scope => exact rise_gate rfl s _
  | call admission scope => exact rise_gate rfl s _
  | slot => exact rise_gate rfl s _
  | logging id method path started => exact ⟨rfl, .refl s⟩
  | translation translate => exact ⟨rfl, .refl s⟩
  | recovery method path => cases h

/-- A recovered panic passes every frame but translations; the logging stage counts a request. -/
theorem rise_recovered {frame : Frame} (h : frame.isTranslation = false) (s : Site) :
    (frame.rise s (.outcome (.error .panicRecovered))).2 = .outcome (.error .panicRecovered) ∧
      ∃ counts, s.Charged (frame.rise s (.outcome (.error .panicRecovered))).1 counts ∧
        recoveries counts = 0 := by
  have hGate : frame.isGate = true →
      (frame.rise s (.outcome (.error .panicRecovered))).2 = .outcome (.error .panicRecovered) ∧
        ∃ counts, s.Charged (frame.rise s (.outcome (.error .panicRecovered))).1 counts ∧
          recoveries counts = 0 := by
    intro hIs
    obtain ⟨hSame, hQuiet⟩ := rise_gate hIs s (.outcome (.error .panicRecovered))
    exact ⟨hSame, [], hQuiet, rfl⟩
  cases frame with
  | timeout | call | slot => exact hGate rfl
  | recovery method path => exact ⟨rfl, [], .refl s, rfl⟩
  | logging id method path started =>
    refine ⟨rfl, _, ⟨_, rfl, rfl⟩, ?_⟩
    unfold Frame.completionEvent
    split <;> rfl
  | translation translate => cases h

/-- A failure of a recovered panic passes some frames without a translation as it is. -/
theorem ascend_recovered {frames : List Frame}
    (h : ∀ frame ∈ frames, frame.isTranslation = false) (s : Site) :
    (ascend s (.outcome (.error .panicRecovered)) frames).2 = .outcome (.error .panicRecovered) ∧
      ∃ counts, s.Charged (ascend s (.outcome (.error .panicRecovered)) frames).1 counts ∧
        recoveries counts = 0 := by
  induction frames generalizing s with
  | nil => exact ⟨rfl, [], .refl s, rfl⟩
  | cons frame frames ih =>
    obtain ⟨hSame, counts, hFirst, hNone⟩ := rise_recovered (h frame List.mem_cons_self) s
    simp only [ascend, hSame]
    obtain ⟨hOutcome, more, hRest, hNoMore⟩ :=
      ih (fun other hMem => h other (List.mem_cons_of_mem frame hMem)) _
    refine ⟨hOutcome, counts ++ more, hFirst.trans hRest, ?_⟩
    rw [recoveries_append, hNone, hNoMore]

/-- A panic that rises through some frames passes those that are no recovery stage, and the first
recovery stage makes a failure of it and notes it, once. Whatever is further out only sees that
failure. -/
def Rescued (s : Site) (payload : Panic) (frames : List Frame) : Prop :=
  ∃ inner method path outer s', frames = inner ++ .recovery method path :: outer ∧
    (∀ frame ∈ inner, frame.isRecovery = false) ∧
    s.Charged s' [.rejection .panicRecovered] ∧
    ascend s (.panic payload) frames = ascend s' (.outcome (.error .panicRecovered)) outer

/-- A panic that rises through some frames ends as a failure and is noted once. -/
def Caught (s : Site) (payload : Panic) (frames : List Frame) : Prop :=
  (ascend s (.panic payload) frames).2 = .outcome (.error .panicRecovered) ∧
    ∃ counts, s.Charged (ascend s (.panic payload) frames).1 counts ∧ recoveries counts = 1

theorem rescued_door (s : Site) (payload : Panic) (method path : String) (outer : List Frame) :
    Rescued s payload (.recovery method path :: outer) := by
  refine ⟨[], method, path, outer, _, rfl, ?_, s.charged_note _, rfl⟩
  intro frame hNone
  cases hNone

theorem rescued_of_guarded {frames : List Frame} (h : Guarded sheltered frames) (s : Site)
    (payload : Panic) : Rescued s payload frames := by
  induction h generalizing s with
  | door method path => exact rescued_door s payload method path []
  | further method path plain guarded ih => exact rescued_door s payload method path _
  | @frame frame outer hFrame guarded ih =>
    obtain ⟨hSame, hQuiet⟩ := rise_panic hFrame s payload
    obtain ⟨inner, method, path, further, s', rfl, hInner, hNoted, hAscend⟩ :=
      ih (frame.rise s (.panic payload)).1
    refine ⟨frame :: inner, method, path, further, s', rfl, ?_, hQuiet.next hNoted, ?_⟩
    · intro other hOther
      rcases List.mem_cons.mp hOther with rfl | hOld
      · exact hFrame
      · exact hInner other hOld
    · simp only [ascend, hSame]
      exact hAscend

/-- Around the first recovery stage of guarded frames there is no translation. -/
theorem Guarded.plain {inner outer : List Frame} {method path : String}
    (h : Guarded sheltered (inner ++ .recovery method path :: outer)) (hSheltered : sheltered) :
    ∀ frame ∈ outer, frame.isTranslation = false := by
  cases h.of_append (List.cons_ne_nil _ outer) with
  | door => exact fun frame hMem => by cases hMem
  | frame hFrame => cases hFrame
  | further _ _ plain => exact plain hSheltered

theorem caught_of_guarded {frames : List Frame} (h : Guarded sheltered frames)
    (hSheltered : sheltered) (s : Site) (payload : Panic) : Caught s payload frames := by
  obtain ⟨inner, method, path, outer, s', rfl, -, hNoted, hAscend⟩ :=
    rescued_of_guarded h s payload
  obtain ⟨hOutcome, counts, hRest, hNone⟩ := ascend_recovered (h.plain hSheltered) s'
  unfold Caught
  rw [hAscend]
  refine ⟨hOutcome, _, hNoted.trans hRest, ?_⟩
  rw [recoveries_append, hNone]
  rfl

/-- Wherever in these frames a panic is raised, by what is inside of all of them or by one of
them, this becomes of it. -/
def Throughout (fate : Site → Panic → List Frame → Prop) (frames : List Frame) : Prop :=
  ∀ outer, outer <:+ frames → outer ≠ [] → ∀ s payload, fate s payload outer

theorem throughout_rescued {frames : List Frame} (h : Guarded sheltered frames) :
    Throughout Rescued frames := by
  rintro outer ⟨inner, rfl⟩ hOuter s payload
  exact rescued_of_guarded (h.of_append hOuter) s payload

theorem throughout_caught {frames : List Frame} (h : Guarded sheltered frames)
    (hSheltered : sheltered) : Throughout Caught frames := by
  rintro outer ⟨inner, rfl⟩ hOuter s payload
  exact caught_of_guarded (h.of_append hOuter) hSheltered s payload

/-- Whatever rises through guarded frames, no panic leaves them. -/
theorem ascend_guarded {frames : List Frame} (h : Guarded sheltered frames) (s : Site)
    (c : Completion) : ∃ o, (ascend s c frames).2 = .outcome o := by
  induction h generalizing s c with
  | door method path =>
    cases c with
    | outcome o => exact ⟨o, rfl⟩
    | panic payload => exact ⟨_, rfl⟩
  | frame hFrame guarded ih => exact ih _ _
  | further method path plain guarded ih => exact ih _ _

/-! ## Frames and stages -/

/-- The frames that a stage leaves behind, of those that a request was inside of when it came to
the stage. -/
def Passage.Leaves (frames : List Frame) (stage : Interceptor) (rest : List Interceptor) :
    Passage → Prop
  | .inwards f _ _ => f.frames = frames ∨ ∃ frame, f.frames = frame :: frames ∧
      frame.isRecovery = stage.isRecovery ∧ frame.isTranslation = stage.isTranslation
  | .waits f _ => f.frames = frames ∧
      ∃ ticket deadline scope r, f.activity = .queued ticket deadline scope rest r
  | .rejected f _ _ _ => f.frames = frames
  | .ends f _ (.outcome _) => f.frames = frames
  | .ends f _ (.panic _) => f.frames = pastUnarmed frames
  | .lost f _ _ => f.frames = frames

namespace Flight

theorem leaves_look (f : Flight) (s : Site) (b : Bulkhead) (ticket deadline : Nat) (scope : Scope)
    (rest : List Interceptor) (r : Http.Request) :
    (f.look s b ticket deadline scope rest r).Leaves f.frames .bulkhead rest := by
  unfold look
  generalize b.poll ticket deadline s.now (s.cancelled? scope) = polled
  obtain ⟨progress, b', journal⟩ := polled
  cases progress with
  | waits => exact ⟨rfl, ticket, deadline, scope, r, rfl⟩
  | holds => exact .inr ⟨.slot, rfl, rfl, rfl⟩
  | refused reason => cases reason <;> rfl

theorem leaves_meetGate (f : Flight) (s : Site) (r : Http.Request) (stage : Interceptor)
    (rest : List Interceptor) : (f.meetGate s r rest stage).Leaves f.frames stage rest := by
  cases stage with
  | rateLimit =>
    simp only [meetGate]
    cases s.gates.limiter with
    | none => exact .inl rfl
    | some l =>
      simp only
      split
      · exact .inl rfl
      · rfl
  | circuitBreaker =>
    simp only [meetGate]
    cases s.gates.breaker with
    | none => exact .inl rfl
    | some b =>
      cases hAnswer : (b.tryAcquire (s.scopeOf r).2.now).1 with
      | ok admission =>
        simp only [hAnswer]
        exact .inr ⟨_, rfl, rfl, rfl⟩
      | error state =>
        simp only [hAnswer]
        rfl
  | bulkhead =>
    simp only [meetGate]
    cases s.gates.bulkhead with
    | none => exact .inl rfl
    | some b => exact leaves_look f _ _ _ _ _ rest r
  | panicRecovery | timeout | requestLogging | schemaValidation | errorTranslation | mark =>
    exact .inl rfl

theorem leaves_pass (f : Flight) (s : Site) (r : Http.Request) (stage : Interceptor)
    (rest : List Interceptor) : (f.pass s r stage rest).Leaves f.frames stage rest := by
  unfold pass
  split
  · exact .inl rfl
  · cases stage with
    | panicRecovery | timeout | requestLogging | errorTranslation =>
      exact .inr ⟨_, rfl, rfl, rfl⟩
    | rateLimit => exact leaves_meetGate f s r .rateLimit rest
    | circuitBreaker => exact leaves_meetGate f s r .circuitBreaker rest
    | bulkhead => exact leaves_meetGate f s r .bulkhead rest
    | schemaValidation v =>
      simp only [meet]
      cases v.check r with
      | accepted => exact .inl rfl
      | rejected failure => rfl
      | panicked payload => rfl
    | mark label bypasses rejection =>
      simp only [meet]
      cases rejection with
      | none => exact .inl rfl
      | some failure => rfl

end Flight

/-- The frames of a request and the stages that are ahead of it. -/
structure Approach (sheltered : Prop) (frames : List Frame) (stages : List Interceptor) :
    Prop where
  guarded : Guarded sheltered frames
  ahead : sheltered → Sheltered stages
  /-- Inside of a translation there is no recovery stage. -/
  clear : sheltered →
    ∀ frame ∈ frames, frame.isTranslation = true → ∀ i ∈ stages, i.isRecovery = false

theorem Approach.next {frames frames' : List Frame} {stage : Interceptor}
    {rest : List Interceptor} (h : Approach sheltered frames (stage :: rest))
    (hLeaves : frames' = frames ∨ ∃ frame, frames' = frame :: frames ∧
      frame.isRecovery = stage.isRecovery ∧ frame.isTranslation = stage.isTranslation) :
    Approach sheltered frames' rest := by
  obtain ⟨hGuarded, hAhead, hClear⟩ := h
  have hRest : sheltered → Sheltered rest := fun hIs => (hAhead hIs).tail
  have hClearRest : sheltered → ∀ frame ∈ frames, frame.isTranslation = true →
      ∀ i ∈ rest, i.isRecovery = false :=
    fun hIs frame hFrame hMakes i hi =>
      hClear hIs frame hFrame hMakes i (List.mem_cons_of_mem stage hi)
  rcases hLeaves with rfl | ⟨frame, rfl, hRecovery, hTranslation⟩
  · exact ⟨hGuarded, hRest, hClearRest⟩
  · refine ⟨?_, hRest, ?_⟩
    · cases hIs : frame.isRecovery with
      | false => exact .frame hIs hGuarded
      | true =>
        have hPlain : sheltered → ∀ other ∈ frames, other.isTranslation = false := by
          intro hSheltered other hOther
          rw [Bool.eq_false_iff]
          intro hTranslates
          have hNot := hClear hSheltered other hOther hTranslates stage List.mem_cons_self
          rw [← hRecovery, hIs] at hNot
          cases hNot
        cases frame with
        | recovery method path => exact .further method path hPlain hGuarded
        | timeout | call | slot | logging | translation => cases hIs
    · intro hSheltered other hOther hIs i hi
      rcases List.mem_cons.mp hOther with rfl | hOld
      · exact (List.pairwise_cons.mp (hAhead hSheltered)).1 i hi (hTranslation ▸ hIs)
      · exact hClearRest hSheltered other hOld hIs i hi

namespace Flight

/-- A request that waits is inside of a recovery stage, and the stages ahead of it keep that. -/
def Shielded (sheltered : Prop) (f : Flight) : Prop :=
  match f.activity with
  | .queued _ _ _ rest _ => Approach sheltered f.frames rest
  | .awaitingEnd _ => Guarded sheltered f.frames
  | .working _ _ => Guarded sheltered f.frames
  | .ended _ _ => True
  | .aborted => True

/-- Whether, on the way inwards, a stage panics before there is anything that the outermost recovery
stage could wait for. -/
def slips (f : Flight) (s : Site) (r : Http.Request) : List Interceptor → Bool
  | [] => false
  | stage :: rest =>
    match f.pass s r stage rest with
    | .inwards f s r => f.slips s r rest
    | .ends f _ (.panic _) => f.frames.isEmpty
    | _ => false

/-- A request that has ended with a panic. -/
def Panicked (f : Flight) : Prop := ∃ now payload, f.activity = .ended now (.panic payload)

/-- What an operation on a request comes to: a panic leaves it exactly if it slipped out. -/
structure Comes (sheltered : Prop) (slipped : Bool) (now : Site × Flight) : Prop where
  shielded : now.2.Shielded sheltered
  panicked_iff : now.2.Panicked ↔ slipped = true

variable {f : Flight} {s : Site} {rest : List Interceptor}

theorem deliver_outcome (e : Edge) (method : String) (o : Http.Outcome) :
    ∃ o', e.deliver method (.outcome o) = .outcome o' := by
  cases e with
  | direct => exact ⟨o, rfl⟩
  | rendered => exact ⟨_, rfl⟩
  | routed routes => exact ⟨_, rfl⟩

theorem comes_complete (h : Guarded sheltered f.frames) (s : Site) (c : Completion) :
    Comes sheltered false (f.complete s c) := by
  refine ⟨trivial, ?_⟩
  simp only [Bool.false_eq_true, iff_false]
  rintro ⟨t, payload, hEnded⟩
  obtain ⟨o, hOutcome⟩ := ascend_guarded h s c
  obtain ⟨o', hDelivered⟩ := deliver_outcome f.edge f.method o
  simp only [complete, hOutcome, hDelivered, Activity.ended.injEq, reduceCtorEq, and_false]
    at hEnded

theorem comes_reject (h : Guarded sheltered f.frames) (s : Site) (failure : Failure)
    (event : Entry) : Comes sheltered false (f.reject s failure event) := comes_complete h _ _

theorem comes_waiting {now : Site × Flight} (h : now.2.Shielded sheltered)
    (hPending : now.2.isPending = true) : Comes sheltered false now := by
  refine ⟨h, ?_⟩
  simp only [Bool.false_eq_true, iff_false]
  rintro ⟨t, payload, hEnded⟩
  simp [isPending, hEnded] at hPending

theorem serves_comes : Serves (fun _ inner => Guarded sheltered inner)
    (Comes sheltered false) where
  ends := fun c h => comes_complete h _ c
  waits := by
    intro s f hIn h
    cases hActivity : f.activity with
    | awaitingEnd | working =>
      refine comes_waiting ?_ ?_
      · simpa [Shielded, hActivity] using h
      · simp [isPending, hActivity]
    | queued | ended | aborted =>
      rw [hActivity] at hIn
      cases hIn
  aside := fun _ _ h => h

/-! ## On the way inwards -/

/-- What a panicking stage leaves is guarded by a recovery stage further out, or by nothing. -/
theorem guarded_pastUnarmed {frames : List Frame} (h : Guarded sheltered frames) :
    pastUnarmed frames = [] ∨ Guarded sheltered (pastUnarmed frames) := by
  cases h with
  | door => exact .inl rfl
  | further method path plain guarded => exact .inr guarded
  | @frame frame outer hFrame guarded =>
    right
    cases frame with
    | recovery method path => cases hFrame
    | timeout | call | slot | logging | translation => exact .frame rfl guarded

/-- The end of a request at a stage. -/
theorem comes_ends {frames : List Frame} {stage : Interceptor} {c : Completion}
    (hGuarded : Guarded sheltered frames) (h : (Passage.ends f s c).Leaves frames stage rest) :
    Comes sheltered (match c with | .panic _ => f.frames.isEmpty | _ => false)
      (f.complete s c) := by
  cases c with
  | outcome o =>
    have hFrames : f.frames = frames := h
    exact comes_complete (hFrames ▸ hGuarded) s _
  | panic payload =>
    have hFrames : f.frames = pastUnarmed frames := h
    rcases guarded_pastUnarmed hGuarded with hNil | hSafe
    · rw [← hFrames] at hNil
      refine ⟨trivial, ?_⟩
      simp [hNil, Panicked, complete, ascend, Edge.deliver]
    · rw [← hFrames] at hSafe
      rw [List.isEmpty_eq_false_iff.mpr hSafe.ne_nil]
      exact comes_complete hSafe s _

/-- By the stages that are ahead. -/
theorem comes_enter {stages : List Interceptor} (h : Approach sheltered f.frames stages)
    (s : Site) (r : Http.Request) :
    Comes sheltered (f.slips s r stages) (f.enter s r stages) := by
  induction stages generalizing f s r with
  | nil =>
    rw [enter_nil]
    exact serves_comes.arrive h.guarded r
  | cons stage rest ih =>
    have hLeaves := leaves_pass f s r stage rest
    rw [enter_cons, slips]
    cases hPass : f.pass s r stage rest with
    | inwards f' s' r' =>
      rw [hPass] at hLeaves
      exact ih (h.next hLeaves) s' r'
    | waits f' s' =>
      rw [hPass] at hLeaves
      obtain ⟨hFrames, ticket, deadline, scope, r', hActivity⟩ := hLeaves
      have hNext := h.next (.inl hFrames)
      refine comes_waiting ?_ ?_
      · simpa [Passage.follow, Shielded, hActivity] using hNext
      · simp [Passage.follow, isPending, hActivity]
    | rejected f' s' failure event =>
      rw [hPass] at hLeaves
      have hFrames : f'.frames = f.frames := hLeaves
      exact comes_reject (hFrames ▸ h.guarded) s' failure event
    | ends f' s' c =>
      rw [hPass] at hLeaves
      have hEnds := comes_ends h.guarded hLeaves
      cases c <;> exact hEnds
    | lost f' s' cause =>
      rw [hPass] at hLeaves
      have hFrames : f'.frames = f.frames := hLeaves
      exact comes_complete (hFrames ▸ h.guarded) s' _

/-- Whoever comes through the outermost recovery stage. -/
theorem approach_door (hFresh : f.frames = []) (hRest : sheltered → Sheltered rest)
    (method path : String) :
    Approach sheltered (f.push (.recovery method path)).frames rest := by
  rw [push, hFresh]
  refine ⟨.door method path, hRest, ?_⟩
  intro hSheltered frame hFrame hIs
  rw [List.mem_singleton] at hFrame
  subst hFrame
  cases hIs

/-- The first stage of all is a recovery stage. -/
theorem comes_sent (hFresh : f.frames = []) (hRest : sheltered → Sheltered rest) (s : Site)
    (r : Http.Request) :
    Comes sheltered (f.slips s r (.panicRecovery :: rest))
      (f.enter s r (.panicRecovery :: rest)) := by
  have hPass : f.pass s r .panicRecovery rest = .inwards (f.push (.recovery r.method r.path)) s r :=
    pass_of_not_bypassed rfl f s r rest
  rw [enter_cons, slips, hPass]
  exact comes_enter (approach_door hFresh hRest r.method r.path) s r

/-! ## At an instant -/

theorem length_pastUnarmed (frames : List Frame) :
    frames.length ≤ (pastUnarmed frames).length + 1 := by
  unfold pastUnarmed
  split
  · exact Nat.le_refl _
  · exact Nat.le_succ _

/-- Only what the outermost recovery stage alone is around can slip out. -/
theorem slips_eq_false (h : 2 ≤ f.frames.length) (s : Site) (r : Http.Request)
    (stages : List Interceptor) : f.slips s r stages = false := by
  induction stages generalizing f s r with
  | nil => rfl
  | cons stage rest ih =>
    have hLeaves := leaves_pass f s r stage rest
    rw [slips]
    cases hPass : f.pass s r stage rest with
    | inwards f' s' r' =>
      rw [hPass] at hLeaves
      refine ih ?_ s' r'
      rcases hLeaves with hSame | ⟨frame, hMore, -⟩
      · rw [hSame]
        exact h
      · rw [hMore, List.length_cons]
        omega
    | ends f' s' c =>
      rw [hPass] at hLeaves
      cases c with
      | outcome o => rfl
      | panic payload =>
        have hFrames : f'.frames = pastUnarmed f.frames := hLeaves
        have hLength := length_pastUnarmed f.frames
        rw [← hFrames] at hLength
        rw [List.isEmpty_eq_false_iff]
        intro hNil
        rw [hNil, List.length_nil] at hLength
        omega
    | waits | rejected | lost => rfl

/-- Whoever gets its slot in line is inside of the bulkhead and of what was around it before. -/
theorem approach_slot (h : Approach sheltered f.frames rest) :
    Approach sheltered (f.push .slot).frames rest := by
  refine ⟨.frame rfl h.guarded, h.ahead, ?_⟩
  intro hSheltered frame hFrame hIs
  rcases List.mem_cons.mp hFrame with rfl | hOld
  · cases hIs
  · exact h.clear hSheltered frame hOld hIs

theorem length_push_slot (h : Guarded sheltered f.frames) : 2 ≤ (f.push .slot).frames.length := by
  have hSome := List.length_pos_iff.mpr h.ne_nil
  simp only [push, List.length_cons]
  omega

/-- A look at a ticket in line. -/
theorem comes_look (h : Approach sheltered f.frames rest) (s : Site) (b : Bulkhead)
    (ticket deadline : Nat) (scope : Scope) (r : Http.Request) :
    Comes sheltered false ((f.look s b ticket deadline scope rest r).follow rest) := by
  unfold look
  generalize b.poll ticket deadline s.now (s.cancelled? scope) = polled
  obtain ⟨progress, b', journal⟩ := polled
  cases progress with
  | waits => exact comes_waiting h rfl
  | holds =>
    have hEnter := comes_enter (approach_slot h) ((s.setBulkhead b').note journal) r
    rw [slips_eq_false (length_push_slot h.guarded)] at hEnter
    exact hEnter
  | refused reason =>
    cases reason with
    | full capacity => exact comes_reject h.guarded _ _ _
    | ended cause => exact comes_complete h.guarded _ _

theorem comes_pollActivity (h : f.Shielded sheltered) (hPending : f.isPending = true)
    (s : Site) : Comes sheltered false (f.pollActivity s) := by
  have hShielded := h
  unfold Shielded at h
  unfold isPending at hPending
  cases hActivity : f.activity with
  | queued ticket deadline scope rest r =>
    simp only [hActivity] at h
    rw [pollActivity_queued hActivity]
    cases s.gates.bulkhead with
    | none =>
      refine comes_waiting hShielded ?_
      simp [isPending, hActivity]
    | some b => exact comes_look h s b ticket deadline scope r
  | awaitingEnd | working =>
    simp only [hActivity] at h
    exact serves_comes.pollActivity h (by rw [hActivity]; rfl)
  | ended | aborted =>
    rw [hActivity] at hPending
    cases hPending

/-- A request that waits is inside of a recovery stage. -/
theorem Shielded.guarded (h : f.Shielded sheltered) (hPending : f.isPending = true) :
    Guarded sheltered f.frames := by
  unfold Shielded at h
  unfold isPending at hPending
  cases hActivity : f.activity with
  | queued ticket deadline scope rest r =>
    simp only [hActivity] at h
    exact h.guarded
  | awaitingEnd | working =>
    simp only [hActivity] at h
    exact h
  | ended | aborted =>
    rw [hActivity] at hPending
    cases hPending

theorem comes_pollTimeouts (h : f.Shielded sheltered) (hPending : f.isPending = true)
    (s : Site) : Comes sheltered false (f.pollTimeouts s) := by
  unfold pollTimeouts
  cases hExpired : expired? s f.frames with
  | none => exact comes_waiting h hPending
  | some e =>
    have hGuarded := h.guarded hPending
    rw [expired?_split hExpired] at hGuarded
    refine comes_reject ?_ _ _ _
    exact hGuarded.of_timeout

theorem comes_poll (h : f.Shielded sheltered) (hPending : f.isPending = true) (s : Site) :
    Comes sheltered false (f.poll s) := by
  have hActivity := comes_pollActivity h hPending s
  unfold poll
  simp only
  split
  · rename_i hStill
    exact comes_pollTimeouts hActivity.shielded hStill _
  · exact hActivity

end Flight

/-! ## All places on the way inwards -/

/-- A request that has come to some stages. -/
structure Place where
  flight : Flight
  site : Site
  request : Http.Request
  stages : List Interceptor

/-- A stage lets the request go on. -/
inductive Place.Next : Place → Place → Prop where
  | pass {f f' : Flight} {s s' : Site} {r r' : Http.Request} {stage : Interceptor}
      {rest : List Interceptor} (h : f.pass s r stage rest = .inwards f' s' r') :
      Next ⟨f, s, r, stage :: rest⟩ ⟨f', s', r', rest⟩

/-- Where a request sets out, at whatever site: it is sent, or it is given its slot in line. -/
inductive Place.Starts (t : Traffic) : Place → Prop where
  | sent (f : Flight) (s : Site) (r : Http.Request) (fresh : f.frames = []) :
      Starts t ⟨f, s, r, t.interceptors⟩
  | slot {f : Flight} (mem : f ∈ t.flights) {ticket deadline : Nat} {scope : Scope}
      {rest : List Interceptor} {r : Http.Request}
      (queued : f.activity = .queued ticket deadline scope rest r) (s : Site) :
      Starts t ⟨f.push .slot, s, r, rest⟩

/-- The places that the requests of the traffic can come to. -/
def Place.Reached (t : Traffic) (place : Place) : Prop :=
  ∃ start, Place.Starts t start ∧ Relation.ReflTransGen Place.Next start place

/-- A place is outside of all stages, or safe. -/
def Place.Safe (rest : List Interceptor) (place : Place) : Prop :=
  place.flight.frames = [] ∧ place.stages = .panicRecovery :: rest ∨
    Approach (Sheltered rest) place.flight.frames place.stages

theorem Place.Next.safe {rest : List Interceptor} {place next : Place}
    (hNext : Next place next) (h : place.Safe rest) : next.Safe rest := by
  obtain @⟨f, f', s, s', r, r', stage, ahead, hPass⟩ := hNext
  right
  rcases h with ⟨hFresh, hStages⟩ | hApproach
  · simp only at hFresh hStages
    cases hStages
    rw [Flight.pass_of_not_bypassed rfl] at hPass
    cases hPass
    exact Flight.approach_door hFresh id _ _
  · have hLeaves := Flight.leaves_pass f s r stage ahead
    rw [hPass] at hLeaves
    exact hApproach.next hLeaves

/-! ## Traffic -/

/-- Outermost is a recovery stage, and every request is inside of it. -/
structure Traffic.Shielded (rest : List Interceptor) (t : Traffic) : Prop where
  outermost : t.interceptors = .panicRecovery :: rest
  flights : ∀ f ∈ t.flights, f.Shielded (Sheltered rest)

namespace Traffic.Shielded

variable {rest : List Interceptor} {t : Traffic}

theorem safe_of_reached (h : t.Shielded rest) {place : Place} (hReached : place.Reached t) :
    place.Safe rest := by
  obtain ⟨start, hStarts, hSteps⟩ := hReached
  have hStart : start.Safe rest := by
    cases hStarts with
    | sent f s r fresh => exact .inl ⟨fresh, h.outermost⟩
    | @slot f mem ticket deadline scope ahead r queued s =>
      have hFlight := h.flights f mem
      simp only [Flight.Shielded, queued] at hFlight
      exact .inr (Flight.approach_slot hFlight)
  induction hSteps with
  | refl => exact hStart
  | tail _ hNext ih => exact hNext.safe ih

/-- One request changes, and the others stay as they are. -/
theorem onFlight (h : t.Shielded rest) {op : Flight → Site → Site × Flight}
    (hOp : ∀ {f : Flight} {s : Site},
      f.Shielded (Sheltered rest) → (op f s).2.Shielded (Sheltered rest)) (i : Nat) :
    (t.onFlight i op).Shielded rest := by
  unfold Traffic.onFlight
  cases hFlight : t.flights[i]? with
  | none => exact h
  | some f =>
    refine ⟨h.outermost, ?_⟩
    intro f' hMem
    rcases List.mem_or_eq_of_mem_set hMem with hOld | rfl
    · exact h.flights f' hOld
    · exact hOp (h.flights f (List.mem_of_getElem? hFlight))

end Traffic.Shielded

namespace Flight

theorem shielded_poll {f : Flight} {s : Site} (h : f.Shielded sheltered) :
    (f.poll s).2.Shielded sheltered := by
  cases hPending : f.isPending with
  | true => exact (comes_poll h hPending s).shielded
  | false =>
    rw [(poll_of_not_pending hPending s).1]
    exact h

theorem shielded_abort {f : Flight} {s : Site} (h : f.Shielded sheltered) :
    (f.abort s).2.Shielded sheltered := by
  unfold abort
  split
  · exact trivial
  · exact h

end Flight

/-- The step lemma. -/
theorem shielded_move {rest : List Interceptor} {t : Traffic} (h : t.Shielded rest) (m : Move) :
    (t.move m).Shielded rest := by
  cases m with
  | clock | calendar | scope | readiness | observe => exact ⟨h.outermost, h.flights⟩
  | send id r plan =>
    refine ⟨h.outermost, ?_⟩
    intro f hMem
    rcases List.mem_append.mp hMem with hOld | hNew
    · exact h.flights f hOld
    · rw [List.mem_singleton.mp hNew, h.outermost]
      exact (Flight.comes_sent rfl (fun hSheltered => hSheltered) t.site r).shielded
  | poll i => exact h.onFlight Flight.shielded_poll i
  | abort i => exact h.onFlight Flight.shielded_abort i

/-- The run lemma. -/
theorem shielded_reachable {rest : List Interceptor} {start t : Traffic}
    {sent : List Http.Request} (hStart : start.Shielded rest) (h : Reachable start sent t) :
    t.Shielded rest := by
  induction h with
  | start => exact hStart
  | move h m ih => exact shielded_move ih m

/-! ## No panic leaves -/

namespace Flight

/-- A request that is just being sent. -/
def fresh (t : Traffic) (id : String) (r : Http.Request) (plan : HandlerPlan) : Flight :=
  ⟨id, t.edge, r.method, plan, [], none, [], .aborted⟩

theorem poll_of_panicked {f : Flight} {s : Site} (h : f.Shielded sheltered)
    (hPanicked : (f.poll s).2.Panicked) : (f.poll s).2 = f := by
  cases hPending : f.isPending with
  | true => cases (comes_poll h hPending s).panicked_iff.mp hPanicked
  | false => rw [(poll_of_not_pending hPending s).1]

theorem abort_of_panicked {f : Flight} {s : Site} (hPanicked : (f.abort s).2.Panicked) :
    (f.abort s).2 = f := by
  obtain ⟨now, payload, hPanic⟩ := hPanicked
  unfold abort at hPanic ⊢
  split at hPanic
  · cases hPanic
  · rename_i hEnded
    rw [if_neg hEnded]

end Flight

theorem Traffic.panicked_of_onFlight {rest : List Interceptor} {t : Traffic}
    (h : t.Shielded rest) {op : Flight → Site → Site × Flight}
    (hOp : ∀ {f : Flight} {s : Site}, f.Shielded (Sheltered rest) →
      (op f s).2.Panicked → (op f s).2 = f)
    {i j : Nat} {f : Flight} (hFlight : (t.onFlight i op).flights[j]? = some f)
    (hPanicked : f.Panicked) : t.flights[j]? = some f := by
  unfold onFlight at hFlight
  cases hOld : t.flights[i]? with
  | none =>
    simp only [hOld] at hFlight
    exact hFlight
  | some g =>
    simp only [hOld] at hFlight
    rw [List.getElem?_set] at hFlight
    split at hFlight
    · rename_i hSame
      split at hFlight
      · cases hFlight
        rw [hOp (h.flights g (List.mem_of_getElem? hOld)) hPanicked, ← hSame]
        exact hOld
      · cases hFlight
    · exact hFlight

/-- A request that is sent ends with a panic exactly if it slips out. -/
theorem Traffic.Shielded.sent {rest : List Interceptor} {t : Traffic} (h : t.Shielded rest)
    (id : String) (r : Http.Request) (plan : HandlerPlan) :
    ∃ f, (t.move (.send id r plan)).flights = t.flights ++ [f] ∧
      (f.Panicked ↔ (Flight.fresh t id r plan).slips t.site r t.interceptors = true) := by
  refine ⟨((Flight.fresh t id r plan).enter t.site r t.interceptors).2, rfl, ?_⟩
  rw [h.outermost]
  have hFresh : (Flight.fresh t id r plan).frames = [] := rfl
  have hComes := Flight.comes_sent hFresh (fun h : Sheltered rest => h) t.site r
  exact hComes.panicked_iff

/-- A request that has ended with a panic had ended so before, or it has just been sent. -/
theorem panicked_of_move {rest : List Interceptor} {t : Traffic} (h : t.Shielded rest) {m : Move}
    {i : Nat} {f : Flight} (hFlight : (t.move m).flights[i]? = some f) (hPanicked : f.Panicked) :
    t.flights[i]? = some f ∨
      i = t.flights.length ∧ ∃ id r plan, m = .send id r plan := by
  cases m with
  | clock | calendar | scope | readiness | observe => exact .inl hFlight
  | poll j => exact .inl (Traffic.panicked_of_onFlight h Flight.poll_of_panicked hFlight hPanicked)
  | abort j =>
    exact .inl
      (Traffic.panicked_of_onFlight h (fun _ => Flight.abort_of_panicked) hFlight hPanicked)
  | send id r plan =>
    obtain ⟨f', hFlights, -⟩ := h.sent id r plan
    rw [hFlights, List.getElem?_append] at hFlight
    split at hFlight
    · exact .inl hFlight
    · rename_i hNew
      obtain ⟨hIndex, -⟩ := List.getElem?_eq_some_iff.mp hFlight
      rw [List.length_singleton] at hIndex
      exact .inr ⟨by omega, id, r, plan, rfl⟩

theorem pastUnarmed_suffix (frames : List Frame) : pastUnarmed frames <:+ frames := by
  unfold pastUnarmed
  split
  · exact List.suffix_cons _ _
  · exact List.suffix_rfl

/-- What a panicking stage leaves guards nothing exactly if the outermost recovery stage is alone
around that stage. -/
theorem Guarded.pastUnarmed_ne_nil_iff {frames : List Frame} (h : Guarded sheltered frames) :
    pastUnarmed frames ≠ [] ↔ ∀ method path, frames ≠ [.recovery method path] := by
  cases h with
  | door method path => simp [pastUnarmed]
  | further method path plain guarded => simp [pastUnarmed, guarded.ne_nil]
  | @frame frame outer hFrame guarded =>
    cases frame with
    | recovery method path => cases hFrame
    | timeout | call | slot | logging | translation => simp [pastUnarmed]

theorem not_rescued_nil (s : Site) (payload : Panic) : ¬ Rescued s payload [] := by
  rintro ⟨inner, method, path, outer, s', hFrames, -⟩
  simp at hFrames

/-- A panic that is caught is what the caller is told, as far as the edge lets it through. -/
theorem Caught.complete {f : Flight} {s : Site} {payload : Panic} (h : Caught s payload f.frames) :
    ∃ now, (f.complete s (.panic payload)).2.activity =
      .ended now (f.edge.deliver f.method (.outcome (.error .panicRecovered))) := by
  refine ⟨(ascend s (.panic payload) f.frames).1.now, ?_⟩
  unfold Flight.complete
  simp only [h.1]

/-- A recovery stage is outermost. Then every request that waits is inside of frames in which each
panic is stopped by the recovery stage that is next to it, and noted once; where no translation
stage stands outside of a further recovery stage, that failure is what the request ends with. The
same holds at every place on the way inwards. A stage or an endpoint that panics there before
anything can be waited for is rescued too, unless it is the outermost recovery stage alone that is
around it. That is how a panic leaves the pipeline: a request ends with one exactly if it slips out
when it is sent. -/
theorem panics_recovered {p : Pipeline} {rest : List Interceptor}
    (hOutermost : p.interceptors = .panicRecovery :: rest)
    {edge : Edge} {site : Site} {sent : List Http.Request} {t : Traffic}
    (h : Reachable (.create p edge site) sent t) :
    (∀ f ∈ t.flights, f.isPending = true → Throughout Rescued f.frames ∧
      (Sheltered rest → Throughout Caught f.frames ∧
        ∀ s payload, Caught s payload f.frames ∧
          ∃ now, (f.complete s (.panic payload)).2.activity =
            .ended now (f.edge.deliver f.method (.outcome (.error .panicRecovered))))) ∧
    (∀ place : Place, place.Reached t → place.flight.frames ≠ [] →
      Throughout Rescued place.flight.frames ∧
      (Sheltered rest → Throughout Caught place.flight.frames) ∧
      ∀ s payload, (Rescued s payload (pastUnarmed place.flight.frames) ↔
        ∀ method path, place.flight.frames ≠ [.recovery method path]) ∧
        (Sheltered rest → Rescued s payload (pastUnarmed place.flight.frames) →
          Caught s payload (pastUnarmed place.flight.frames))) ∧
    (∀ (m : Move) (i : Nat) (f : Flight), (t.move m).flights[i]? = some f → f.Panicked →
      t.flights[i]? = some f ∨ i = t.flights.length ∧ ∃ id r plan, m = .send id r plan) ∧
    ∀ (id : String) (r : Http.Request) (plan : HandlerPlan),
      ∃ f, (t.move (.send id r plan)).flights = t.flights ++ [f] ∧
        (f.Panicked ↔ (Flight.fresh t id r plan).slips t.site r t.interceptors = true) := by
  have hStart : Traffic.Shielded rest (.create p edge site) :=
    ⟨hOutermost, fun f hMem => by cases hMem⟩
  have hShielded := shielded_reachable hStart h
  refine ⟨?_, ?_, fun m i f => panicked_of_move hShielded, hShielded.sent⟩
  · intro f hMem hPending
    have hGuarded := (hShielded.flights f hMem).guarded hPending
    refine ⟨throughout_rescued hGuarded, fun hSheltered => ?_⟩
    refine ⟨throughout_caught hGuarded hSheltered, fun s payload => ?_⟩
    have hCaught := caught_of_guarded hGuarded hSheltered s payload
    exact ⟨hCaught, hCaught.complete⟩
  · intro place hReached hInside
    have hGuarded : Guarded (Sheltered rest) place.flight.frames := by
      rcases hShielded.safe_of_reached hReached with ⟨hNil, -⟩ | hApproach
      · exact absurd hNil hInside
      · exact hApproach.guarded
    have hRescued := throughout_rescued hGuarded
    have hSuffix := pastUnarmed_suffix place.flight.frames
    refine ⟨hRescued, throughout_caught hGuarded, fun s payload => ⟨?_, ?_⟩⟩
    · rw [← hGuarded.pastUnarmed_ne_nil_iff]
      constructor
      · intro hIs hNil
        rw [hNil] at hIs
        exact not_rescued_nil s payload hIs
      · exact fun hSome => hRescued _ hSuffix hSome s payload
    · intro hSheltered hIs
      refine throughout_caught hGuarded hSheltered _ hSuffix ?_ s payload
      intro hNil
      rw [hNil] at hIs
      exact not_rescued_nil s payload hIs

/-- A pipeline whose translation stage is inside of its timeout and its recovery stage. -/
def shelteredStages : List Interceptor :=
  [.panicRecovery, .timeout 20, .errorTranslation .plain]

def noGates : Site := .create .none .standalone

/-- A handler at work, which is going to panic. -/
def doomed : Traffic :=
  [Move.send "a" ⟨"GET", "/work", [], none, none⟩ ⟨false, false, 3, false, .panic .other⟩,
    .clock 3].foldl Traffic.move ⟨shelteredStages, .direct, noGates, []⟩

theorem reachable_doomed :
    Reachable (.create (.build (shelteredStages.map noGates.gates.register)) .direct noGates)
      [⟨"GET", "/work", [], none, none⟩] doomed := by
  have hStages : (Pipeline.build (shelteredStages.map noGates.gates.register)).interceptors =
      shelteredStages := interceptors_build_of_pairwise noGates.gates (by decide)
  unfold Traffic.create
  rw [hStages]
  exact (Reachable.start.move (.send "a" _ _)).move (.clock 3)

/-- The failure that a request has ended with. -/
def Flight.failure? (f : Flight) : Option Failure :=
  match f.activity with
  | .ended _ (.outcome (.error failure)) => some failure
  | _ => none

theorem panics_recovered_doomed :
    (∃ f ∈ doomed.flights, f.frames ≠ [] ∧ ∀ s payload, Caught s payload f.frames) ∧
      (doomed.move (.poll 0)).flights.map Flight.failure? = [some .panicRecovered] := by
  have hOutermost : (Pipeline.build (shelteredStages.map noGates.gates.register)).interceptors =
      .panicRecovery :: [.timeout 20, .errorTranslation .plain] :=
    interceptors_build_of_pairwise noGates.gates (by decide)
  have hSheltered : Sheltered [.timeout 20, .errorTranslation .plain] := by
    simp [Sheltered, Interceptor.isRecovery]
  obtain ⟨hWaiting, -, -, -⟩ := panics_recovered hOutermost reachable_doomed
  have hPending : (doomed.flights[0]?).map Flight.isPending = some true := by decide +kernel
  obtain ⟨f, hFlight, hIs⟩ := Option.map_eq_some_iff.mp hPending
  have hMem := List.mem_of_getElem? hFlight
  obtain ⟨-, hCaught⟩ := hWaiting f hMem hIs
  obtain ⟨-, hCaught⟩ := hCaught hSheltered
  refine ⟨⟨f, hMem, ?_, fun s payload => (hCaught s payload).1⟩, by decide +kernel⟩
  intro hNil
  have hSame := (hCaught noGates .other).1.1
  rw [hNil] at hSame
  cases hSame

/-- A validator right inside of the outermost recovery stage panics past it. -/
theorem panic_slips_out {v : Validator} {r : Http.Request} {payload : Panic}
    (hPanics : v.check r = .panicked payload) {f : Flight} (hFresh : f.frames = []) (s : Site)
    (rest : List Interceptor) :
    (f.enter s r (.panicRecovery :: .schemaValidation v :: rest)).2.activity =
      .ended s.now (.panic payload) := by
  have hDoor : f.pass s r .panicRecovery (.schemaValidation v :: rest) =
      .inwards (f.push (.recovery r.method r.path)) s r := Flight.pass_of_not_bypassed rfl f s r _
  rw [Flight.enter_cons, hDoor, Passage.follow, Flight.enter_cons, Flight.pass_of_not_bypassed rfl]
  simp [Flight.meet, hPanics, Passage.follow, Flight.complete, Flight.marked, Flight.push, hFresh,
    pastUnarmed, ascend, Edge.deliver]

/-- A validator that panics on every request. -/
def explosive : Validator := ⟨"orders", fun _ => .panicked (.text "index out of bounds")⟩

/-- Its panic is not recovered by a recovery stage around it. -/
theorem not_always_recovered :
    ¬ ∀ (rest : List Interceptor) (v : Validator) (id : String) (r : Http.Request)
      (plan : HandlerPlan) (payload : Panic), v.check r = .panicked payload →
        ((⟨.panicRecovery :: .schemaValidation v :: rest, .direct, noGates, []⟩ : Traffic).move
          (.send id r plan)).flights.map Flight.failure? = [some .panicRecovered] := by
  intro hAlways
  have hFailure := hAlways [] explosive "a" ⟨"POST", "/orders", [], none, none⟩
    ⟨false, false, 0, false, .response ⟨200, [], .text ""⟩⟩ _ rfl
  revert hFailure
  decide +kernel

end Gatehouse.Pipeline
