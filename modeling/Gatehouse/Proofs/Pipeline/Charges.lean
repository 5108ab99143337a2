import Gatehouse.Proofs.Breaker.Publication
import Gatehouse.Proofs.Pipeline.Custody
import Gatehouse.Proofs.Readiness.Reports

/-!
# What is counted on the way out

Two counters account for requests: one for those that went through the logging stage, one for
those that a stage turned away (`Measurement.isCharge`). The frames of a request have a certain
order, with the recovery stage outermost and the logging stage inside of the gates; what rises
through them is counted once, by the logging stage or, where it is a panic, by the recovery stage.

* `Site.Charged`: the journal has grown, and by which counts.
* `ascend_outside`, `ascend_inside`: what rises from outside and from inside of the logging stage.
-/

namespace Gatehouse

/-- Whether a measurement counts a request. -/
def Measurement.isCharge : Measurement → Bool
  | .request _ _ => true
  | .rejection _ => true
  | _ => false

/-- The counts of requests among some entries. -/
def Journal.charges (j : Journal) : List Measurement := j.measurements.filter Measurement.isCharge

namespace Journal

theorem charges_append (j k : Journal) : charges (j ++ k) = charges j ++ charges k := by
  simp [charges, measurements, List.filterMap_append]

theorem charges_of_quiet {j : Journal} (h : j.measurements = []) : charges j = [] := by
  rw [charges, h]
  rfl

theorem charges_eq_nil {j : Journal} (h : ∀ e ∈ j, ∀ m, e = .measure m → m.isCharge = false) :
    charges j = [] := by
  unfold charges measurements
  rw [List.filter_eq_nil_iff]
  intro m hm
  obtain ⟨e, he, hEq⟩ := List.mem_filterMap.mp hm
  cases e with
  | log event => cases hEq
  | measure m' =>
    cases hEq
    rw [h _ he _ rfl]
    exact Bool.false_ne_true

end Journal

/-- Changes of a breaker are reported, and no request is counted. -/
theorem Breaker.CircuitBreaker.charges_report (name : String) (ts : List Breaker.Transition) :
    Journal.charges (ts.flatMap (report name)) = [] := by
  refine Journal.charges_eq_nil ?_
  intro e he m hm
  obtain ⟨t, -, ht⟩ := List.mem_flatMap.mp he
  subst hm
  simp only [report, List.mem_cons, List.not_mem_nil, or_false, reduceCtorEq, false_or,
    Entry.measure.injEq] at ht
  rcases ht with rfl | rfl <;> rfl

namespace Readiness

/-- A coordinator measures nothing, and so counts no request. -/
theorem charges_perform (c : Coordinator) (moment : Nat) (command : Command) :
    Journal.charges (c.perform moment command).2.2 = [] :=
  Journal.charges_of_quiet (measurements_perform c moment command)

theorem charges_step (c : Coordinator) (moment : Nat) (p : Probe) :
    Journal.charges (Probe.step c moment p).2.2 = [] := by
  cases p with
  | arrived =>
    unfold Probe.step
    cases c.mode <;> rfl
  | notifying =>
    have hNotify : Journal.charges (c.notify moment).2.2 = [] := charges_perform c moment .notify
    simp only [Probe.step]
    cases hAnswer : (c.notify moment).1 with
    | ok => exact hNotify
    | error e =>
      simp only
      rw [Journal.charges_append, hNotify]
      rfl
  | reporting => rfl
  | answered status => rfl

theorem charges_run (c : Coordinator) (moment : Nat) :
    Journal.charges (Probe.run c moment).2.2 = [] := by
  have hAll : ∀ c c' c'' p p' p'', Journal.charges
      ((Probe.step c moment p).2.2 ++ (Probe.step c' moment p').2.2 ++
        (Probe.step c'' moment p'').2.2) = [] := by
    intro c c' c'' p p' p''
    rw [Journal.charges_append, Journal.charges_append, charges_step, charges_step, charges_step]
    rfl
  unfold Probe.run
  simp only
  split <;> exact hAll _ _ _ _ _ _

end Readiness

namespace Pipeline

namespace Site

/-- The journal of a site has grown, by certain counts of requests. -/
def Charged (s s' : Site) (counts : List Measurement) : Prop :=
  ∃ entries, s'.journal = s.journal ++ entries ∧ Journal.charges entries = counts

variable {s s' s'' : Site} {counts counts' : List Measurement}

theorem Charged.of_journal (h : s'.journal = s.journal) : s.Charged s' [] :=
  ⟨[], by rw [h, List.append_nil], rfl⟩

theorem Charged.refl (s : Site) : s.Charged s [] := .of_journal rfl

theorem Charged.trans (h : s.Charged s' counts) (h' : s'.Charged s'' counts') :
    s.Charged s'' (counts ++ counts') := by
  obtain ⟨entries, hEntries, hCounts⟩ := h
  obtain ⟨entries', hEntries', hCounts'⟩ := h'
  refine ⟨entries ++ entries', ?_, ?_⟩
  · rw [hEntries', hEntries, List.append_assoc]
  · rw [Journal.charges_append, hCounts, hCounts']

/-- Nothing was counted before. -/
theorem Charged.next (h : s.Charged s' []) (h' : s'.Charged s'' counts) : s.Charged s'' counts :=
  h.trans h'

/-- Nothing is counted afterwards. -/
theorem Charged.last (h : s.Charged s' counts) (h' : s'.Charged s'' []) :
    s.Charged s'' counts := by
  have hBoth := h.trans h'
  rwa [List.append_nil] at hBoth

theorem charged_note (s : Site) (entries : Journal) :
    s.Charged (s.note entries) (Journal.charges entries) := ⟨entries, rfl, rfl⟩

theorem Charged.charges_drop (h : s.Charged s' counts) :
    Journal.charges (s'.journal.drop s.journal.length) = counts := by
  obtain ⟨entries, hEntries, hCounts⟩ := h
  rw [hEntries, List.drop_left, hCounts]

theorem Charged.charges_journal (h : s.Charged s' counts) :
    Journal.charges s'.journal = Journal.charges s.journal ++ counts := by
  obtain ⟨entries, hEntries, hCounts⟩ := h
  rw [hEntries, Journal.charges_append, hCounts]

theorem journal_scopeOf (s : Site) (r : Http.Request) : (s.scopeOf r).2.journal = s.journal := by
  unfold scopeOf
  split <;> rfl

theorem charged_scopeOf (s : Site) (r : Http.Request) : s.Charged (s.scopeOf r).2 [] :=
  .of_journal (journal_scopeOf s r)

theorem charged_onBreaker (s : Site)
    {f : Breaker.CircuitBreaker → Breaker.CircuitBreaker × Journal}
    (hf : ∀ c, Journal.charges (f c).2 = []) : s.Charged (s.onBreaker f) [] := by
  unfold onBreaker
  cases s.gates.breaker with
  | none => exact .refl s
  | some c => exact ⟨(f c).2, rfl, hf c⟩

theorem charged_onBulkhead (s : Site) {f : Bulkhead → Bulkhead × Journal}
    (hf : ∀ b, Journal.charges (f b).2 = []) : s.Charged (s.onBulkhead f) [] := by
  unfold onBulkhead
  cases s.gates.bulkhead with
  | none => exact .refl s
  | some b => exact ⟨(f b).2, rfl, hf b⟩

theorem charged_record (s : Site) (a : Breaker.Admission)
    (v : Breaker.CircuitBreaker → Breaker.Verdict) :
    s.Charged (s.onBreaker fun c => c.record a (v c) s.now) [] := by
  refine charged_onBreaker s ?_
  intro c
  rw [Breaker.CircuitBreaker.record_eq]
  exact Breaker.CircuitBreaker.charges_report _ _

theorem charged_drop (s : Site) (a : Breaker.Admission) :
    s.Charged (s.onBreaker fun c => c.drop a) [] := by
  refine charged_onBreaker s ?_
  intro c
  rw [Breaker.CircuitBreaker.drop_eq]
  exact Breaker.CircuitBreaker.charges_report _ _

theorem charged_release (s : Site) : s.Charged (s.onBulkhead Bulkhead.release) [] :=
  charged_onBulkhead s fun _ => rfl

end Site

/-! ## The order of the frames -/

def Frame.isGate : Frame → Bool
  | .timeout _ _ => true
  | .call _ _ => true
  | .slot => true
  | _ => false

/-- Outside of the logging stage there are gates, and the recovery stage. -/
inductive Outside : List Frame → Prop where
  | recovery (method path : String) : Outside [.recovery method path]
  | gate {frame : Frame} {outer : List Frame} (h : frame.isGate = true) (outside : Outside outer) :
      Outside (frame :: outer)

/-- Inside of it there are translations. -/
inductive Inside : List Frame → Prop where
  | logging {outer : List Frame} (id : Http.RequestId) (method path : String) (started : Nat)
      (outside : Outside outer) : Inside (.logging id method path started :: outer)
  | translation {outer : List Frame} (translate : Translator) (inside : Inside outer) :
      Inside (.translation translate :: outer)

/-- Whatever a gate was told to hold, it lets a completion pass. -/
theorem rise_gate {frame : Frame} (h : frame.isGate = true) (s : Site) (c : Completion) :
    (frame.rise s c).2 = c ∧ s.Charged (frame.rise s c).1 [] := by
  cases frame with
  | timeout limit scope => exact ⟨rfl, .refl s⟩
  | slot => exact ⟨rfl, Site.charged_release s⟩
  | call admission scope =>
    cases c with
    | outcome o => exact ⟨rfl, Site.charged_record s admission _⟩
    | panic payload => exact ⟨rfl, Site.charged_record s admission fun _ => .failure⟩
  | recovery | logging | translation => cases h

theorem discard_charged (s : Site) (frame : Frame) : s.Charged (frame.discard s) [] := by
  cases frame with
  | call admission scope => exact Site.charged_drop s admission
  | slot => exact Site.charged_release s
  | recovery | timeout | logging | translation => exact .refl s

theorem discardAll_charged (s : Site) (frames : List Frame) :
    s.Charged (discardAll s frames) [] := by
  induction frames generalizing s with
  | nil => exact .refl s
  | cons frame frames ih => exact (discard_charged s frame).next (ih _)

/-- Outside of the logging stage an outcome is not counted again. -/
theorem ascend_outside {frames : List Frame} (h : Outside frames) (s : Site) (o : Http.Outcome) :
    (ascend s (.outcome o) frames).2 = .outcome o ∧
      s.Charged (ascend s (.outcome o) frames).1 [] := by
  induction h generalizing s with
  | recovery method path => exact ⟨rfl, .refl s⟩
  | gate hGate outside ih =>
    obtain ⟨hSame, hQuiet⟩ := rise_gate hGate s (.outcome o)
    simp only [ascend, hSame]
    obtain ⟨hOutcome, hRest⟩ := ih (Frame.rise s _ (.outcome o)).1
    exact ⟨hOutcome, hQuiet.next hRest⟩

/-- A panic is counted by the recovery stage. -/
theorem ascend_outside_panic {frames : List Frame} (h : Outside frames) (s : Site)
    (payload : Panic) :
    (ascend s (.panic payload) frames).2 = .outcome (.error .panicRecovered) ∧
      s.Charged (ascend s (.panic payload) frames).1 [.rejection .panicRecovered] := by
  induction h generalizing s with
  | recovery method path => exact ⟨rfl, Site.charged_note s _⟩
  | gate hGate outside ih =>
    obtain ⟨hSame, hQuiet⟩ := rise_gate hGate s (.panic payload)
    simp only [ascend, hSame]
    obtain ⟨hOutcome, hRest⟩ := ih (Frame.rise s _ (.panic payload)).1
    exact ⟨hOutcome, hQuiet.next hRest⟩

theorem status_identify (id : Http.RequestId) (o : Http.Outcome) :
    Http.Outcome.status (Frame.identify id o) = Http.Outcome.status o := by
  unfold Frame.identify
  split
  · split <;> rfl
  · rfl

/-- What ends with an outcome was counted once: as a request with the status of the outcome, or as
the rejection that the outcome tells of. -/
def CountedOnce (o : Http.Outcome) (counts : List Measurement) : Prop :=
  (∃ method, counts = [.request method (Http.Outcome.status o)]) ∨
    ∃ failure, o = .error failure ∧ counts = [.rejection failure.kind]

/-- Whatever rises from inside of the logging stage ends with an outcome and is counted once. -/
theorem ascend_inside {frames : List Frame} (h : Inside frames) (s : Site) (c : Completion) :
    ∃ o counts, (ascend s c frames).2 = .outcome o ∧ s.Charged (ascend s c frames).1 counts ∧
      CountedOnce o counts := by
  have hPanic : ∀ {outer : List Frame}, Outside outer → ∀ payload,
      ∃ o counts, (ascend s (.panic payload) outer).2 = .outcome o ∧
        s.Charged (ascend s (.panic payload) outer).1 counts ∧ CountedOnce o counts := by
    intro outer hOutside payload
    obtain ⟨hOutcome, hCharged⟩ := ascend_outside_panic hOutside s payload
    exact ⟨_, _, hOutcome, hCharged, .inr ⟨.panicRecovered, rfl, rfl⟩⟩
  induction h generalizing c with
  | logging id method path started outside =>
    cases c with
    | panic payload => exact hPanic outside payload
    | outcome o =>
      obtain ⟨hOutcome, hQuiet⟩ := ascend_outside outside
        (Frame.rise s (.logging id method path started) (.outcome o)).1 (Frame.identify id o)
      refine ⟨Frame.identify id o, [.request method (Http.Outcome.status o)], hOutcome, ?_, ?_⟩
      · refine Site.Charged.last ?_ hQuiet
        refine ⟨_, rfl, ?_⟩
        unfold Frame.completionEvent
        split <;> rfl
      · exact .inl ⟨method, by rw [status_identify]⟩
  | translation translate inside ih =>
    cases c with
    | panic payload => exact ih _
    | outcome o =>
      cases o with
      | ok response => exact ih _
      | error failure => exact ih _

theorem Outside.tail {frame : Frame} {outer : List Frame} (h : Outside (frame :: outer)) :
    outer = [] ∨ Outside outer := by
  cases h with
  | recovery => exact .inl rfl
  | gate _ outside => exact .inr outside

theorem outside_of_append {inner outer : List Frame} {limit : Nat} {scope : Scope}
    (h : Outside (inner ++ .timeout limit scope :: outer)) : Outside outer := by
  induction inner with
  | nil =>
    cases h with
    | gate _ outside => exact outside
  | cons frame inner ih =>
    rcases h.tail with hNil | hRest
    · simp at hNil
    · exact ih hRest

/-- A timeout is outside of the logging stage. -/
theorem outside_of_inside {inner outer : List Frame} {limit : Nat} {scope : Scope}
    (h : Inside (inner ++ .timeout limit scope :: outer)) : Outside outer := by
  induction inner with
  | nil => cases h
  | cons frame inner ih =>
    cases h with
    | logging _ _ _ _ outside => exact outside_of_append outside
    | translation _ inside => exact ih inside

end Pipeline

end Gatehouse
