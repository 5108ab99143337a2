import Gatehouse.Proofs.Pipeline.Assembly
import Gatehouse.Proofs.Pipeline.Bills
import Gatehouse.Proofs.Pipeline.Moves

/-!
# Every request is counted, except where its scope ends its wait for a slot

Through a pipeline with recovery and logging and any other usual stages go any requests in any
interleaving, and an observer charges each request what is counted while it enters, is looked at,
or is dropped. Every count is charged to a request. A request that has ended was charged once, for
its outcome, if and only if its wait for a slot was not ended by its scope; in that case it was
charged nothing, although the caller is given the failure of the scope.

* `Audit`: traffic with the bills of its requests.
* `course_build`: the usual stages stand in the order that the bills need.
* `charged_once_iff`: the statement.
-/

namespace Gatehouse.Pipeline

/-- Whether in a move the scope of a request ends its wait for a slot. -/
def Traffic.forsakes (t : Traffic) : Move → Bool
  | .send id r plan =>
    Flight.forsaken ⟨id, t.edge, r.method, plan, [], none, [], .aborted⟩ t.site r t.interceptors
  | .poll index => (t.flights[index]?).any fun f => f.forsakenInLine t.site
  | _ => false

structure Audit where
  traffic : Traffic
  bills : List Bill

namespace Audit

def start (t : Traffic) : Audit := ⟨t, []⟩

/-- What a move counts. -/
def counts (a : Audit) (m : Move) : List Measurement :=
  Journal.charges ((a.traffic.move m).site.journal.drop a.traffic.site.journal.length)

/-- Charges what a move counts to the request that the move concerns. -/
def move (a : Audit) (m : Move) : Audit :=
  { traffic := a.traffic.move m
    bills := match m with
      | .send _ _ _ => a.bills ++ [⟨a.counts m, a.traffic.forsakes m⟩]
      | .poll index | .abort index =>
        a.bills.modify index fun b => ⟨b.charges ++ a.counts m, b.lost || a.traffic.forsakes m⟩
      | _ => a.bills }

def run (a : Audit) (moves : List Move) : Audit := moves.foldl move a

end Audit

/-! ## The order of the usual stages -/

/-- A stage of the kinds that services use. -/
def Interceptor.isUsual : Interceptor → Bool
  | .mark _ _ _ => false
  | _ => true

theorem isGate_of_between {i : Interceptor} (hUsual : i.isUsual = true) (hPos : 0 < i.priority)
    (hLt : i.priority < 50) : i.isGate = true := by
  cases i <;> simp_all [Interceptor.isUsual, Interceptor.priority, Interceptor.isGate]

theorem isInner_of_lt {i : Interceptor} (hUsual : i.isUsual = true) (hLt : 50 < i.priority) :
    i.isInner = true := by
  cases i <;> simp_all [Interceptor.isUsual, Interceptor.priority, Interceptor.isInner]

theorem priority_nonneg {i : Interceptor} : 0 ≤ i.priority := by
  cases i <;> simp [Interceptor.priority]

theorem ahead_of_pairwise {stages : List Interceptor} (hUsual : ∀ i ∈ stages, i.isUsual = true)
    (hPos : ∀ i ∈ stages, 0 < i.priority)
    (hOrder : stages.Pairwise fun a b => a.priority < b.priority)
    (hLogging : Interceptor.requestLogging ∈ stages) : Ahead stages := by
  induction stages with
  | nil => cases hLogging
  | cons stage rest ih =>
    obtain ⟨hFirst, hRest⟩ := List.pairwise_cons.mp hOrder
    have hUsualRest : ∀ i ∈ rest, i.isUsual = true :=
      fun i hi => hUsual i (List.mem_cons_of_mem _ hi)
    rcases List.mem_cons.mp hLogging with hHere | hLater
    · subst hHere
      exact .logging fun i hi => isInner_of_lt (hUsualRest i hi) (hFirst i hi)
    · have hLt : stage.priority < 50 := hFirst _ hLater
      have hGate := isGate_of_between (hUsual stage List.mem_cons_self)
        (hPos stage List.mem_cons_self) hLt
      have hPosRest : ∀ i ∈ rest, 0 < i.priority := fun i hi => hPos i (List.mem_cons_of_mem _ hi)
      exact .gate hGate (ih hUsualRest hPosRest hRest hLater)

theorem course_of_pairwise {stages : List Interceptor} (hUsual : ∀ i ∈ stages, i.isUsual = true)
    (hOrder : stages.Pairwise fun a b => a.priority < b.priority)
    (hRecovery : Interceptor.panicRecovery ∈ stages)
    (hLogging : Interceptor.requestLogging ∈ stages) : Course [] stages := by
  cases stages with
  | nil => cases hRecovery
  | cons stage rest =>
    obtain ⟨hFirst, hRest⟩ := List.pairwise_cons.mp hOrder
    rcases List.mem_cons.mp hRecovery with hHere | hLater
    · subst hHere
      have hInRest : Interceptor.requestLogging ∈ rest := by
        rcases List.mem_cons.mp hLogging with hSame | hIn
        · cases hSame
        · exact hIn
      exact .door (ahead_of_pairwise (fun i hi => hUsual i (List.mem_cons_of_mem _ hi)) hFirst
        hRest hInRest)
    · have hLt : stage.priority < 0 := hFirst _ hLater
      have hNonneg := priority_nonneg (i := stage)
      omega

/-- Recovery stands outermost, and logging inside of the gates. -/
theorem course_build (g : Gates) {stages : List Interceptor}
    (hPlaces : (stages.map Interceptor.priority).Nodup) (hUsual : ∀ i ∈ stages, i.isUsual = true)
    (hRecovery : Interceptor.panicRecovery ∈ stages)
    (hLogging : Interceptor.requestLogging ∈ stages) :
    Course [] (Pipeline.build (stages.map g.register)).interceptors := by
  have hPerm := interceptors_build_perm g stages
  refine course_of_pairwise ?_ (interceptors_build_pairwise g hPlaces) ?_ ?_
  · intro i hi
    exact hUsual i (List.mem_filter.mp (hPerm.mem_iff.mp hi)).1
  · exact hPerm.mem_iff.mpr (List.mem_filter.mpr ⟨hRecovery, rfl⟩)
  · exact hPerm.mem_iff.mpr (List.mem_filter.mpr ⟨hLogging, rfl⟩)

/-! ## The invariant -/

/-- Every bill is right, and what was counted since the `before` is on the bills. -/
structure Audited (stages : List Interceptor) (before : List Measurement) (a : Audit) : Prop where
  interceptors : a.traffic.interceptors = stages
  billed : List.Forall₂ Flight.Billed a.traffic.flights a.bills
  total : (Journal.charges a.traffic.site.journal).Perm (before ++ a.bills.flatMap (·.charges))

variable {stages : List Interceptor} {before : List Measurement} {a : Audit}

theorem audited_start (t : Traffic) :
    Audited t.interceptors (Journal.charges t.site.journal) (.start { t with flights := [] }) := by
  refine ⟨rfl, .nil, ?_⟩
  rw [Audit.start, List.flatMap_nil, List.append_nil]

theorem audited_quiet (h : Audited stages before a) {site : Site}
    (hQuiet : a.traffic.site.Charged site []) :
    Audited stages before { a with traffic := { a.traffic with site := site } } := by
  refine ⟨h.interceptors, h.billed, ?_⟩
  rw [hQuiet.charges_journal, List.append_nil]
  exact h.total

theorem charged_observe (s : Site) : s.Charged (Traffic.observe s).2 [] := by
  have hState : ∀ c : Breaker.CircuitBreaker, Journal.charges (c.state s.now).2.2 = [] := by
    intro c
    rw [Breaker.CircuitBreaker.state_eq]
    exact Breaker.CircuitBreaker.charges_report _ _
  have hCounts : ∀ c : Breaker.CircuitBreaker, Journal.charges (c.counts s.now).2.2 = [] := by
    intro c
    rw [Breaker.CircuitBreaker.counts_eq]
    exact Breaker.CircuitBreaker.charges_report _ _
  unfold Traffic.observe
  cases s.gates.breaker with
  | none => exact .refl s
  | some b =>
    refine ⟨(b.state s.now).2.2 ++ ((b.state s.now).2.1.counts s.now).2.2, rfl, ?_⟩
    rw [Journal.charges_append, hState, hCounts]
    rfl

theorem flatMap_modify_perm {bills : List Bill} {index : Nat} (h : index < bills.length)
    (counts : List Measurement) (lost : Bill → Bool) :
    ((bills.modify index fun b => ⟨b.charges ++ counts, lost b⟩).flatMap (·.charges)).Perm
      (bills.flatMap (·.charges) ++ counts) := by
  induction bills generalizing index with
  | nil => cases h
  | cons b bills ih =>
    cases index with
    | zero =>
      simp only [List.modify_zero_cons, List.flatMap_cons, List.append_assoc]
      exact List.perm_append_comm.append_left _
    | succ index =>
      simp only [List.modify_succ_cons, List.flatMap_cons, List.append_assoc]
      exact (ih (Nat.lt_of_succ_lt_succ h)).append_left _

/-- What keeps the bill of one request right keeps all of them right. -/
theorem audited_onFlight (h : Audited stages before a) {m : Move} {index : Nat}
    (op : Flight → Site → Site × Flight) (hMove : a.traffic.move m = a.traffic.onFlight index op)
    (hBills : (a.move m).bills = a.bills.modify index fun b =>
      ⟨b.charges ++ a.counts m, b.lost || a.traffic.forsakes m⟩)
    (hOp : ∀ f b, a.traffic.flights[index]? = some f → f.Billed b → ∃ counts,
      a.traffic.site.Charged (op f a.traffic.site).1 counts ∧
      (op f a.traffic.site).2.Billed ⟨b.charges ++ counts, b.lost || a.traffic.forsakes m⟩) :
    Audited stages before (a.move m) := by
  have hParts : a.move m = ⟨a.traffic.onFlight index op, a.bills.modify index fun b =>
      ⟨b.charges ++ a.counts m, b.lost || a.traffic.forsakes m⟩⟩ := by
    rw [← hMove, ← hBills]
    rfl
  rw [hParts]
  cases hFlight : a.traffic.flights[index]? with
  | none =>
    have hSame : a.traffic.onFlight index op = a.traffic := by
      simp [Traffic.onFlight, hFlight]
    have hNone : a.bills.length ≤ index := by
      rw [← h.billed.length_eq]
      exact List.getElem?_eq_none_iff.mp hFlight
    rw [hSame, List.modify_eq_self hNone]
    exact h
  | some f =>
    have hIndex : index < a.bills.length := by
      rw [← h.billed.length_eq]
      exact (List.getElem?_eq_some_iff.mp hFlight).1
    obtain ⟨f', hf', hBefore⟩ := exists_beside h.billed (List.getElem?_eq_getElem hIndex)
    rw [hFlight] at hf'
    cases hf'
    obtain ⟨counts, hCharged, hBilled⟩ := hOp f _ hFlight hBefore
    have hAfter : a.traffic.onFlight index op =
        { a.traffic with
          site := (op f a.traffic.site).1
          flights := a.traffic.flights.set index (op f a.traffic.site).2 } := by
      simp [Traffic.onFlight, hFlight]
    have hCounts : a.counts m = counts := by
      rw [Audit.counts, hMove, hAfter]
      exact hCharged.charges_drop
    rw [hAfter, hCounts]
    refine ⟨h.interceptors, ?_, ?_⟩
    · simp only [List.set_eq_modify]
      refine forall₂_modify h.billed ?_
      intro f' b hf hb
      rw [List.getElem?_eq_getElem hIndex] at hb
      cases hb
      exact hBilled
    · rw [hCharged.charges_journal]
      refine (h.total.append_right counts).trans ?_
      rw [List.append_assoc]
      exact (flatMap_modify_perm hIndex counts _).symm.append_left before

theorem audited_send (h : Audited stages before a) (hCourse : Course [] stages) (id : String)
    (r : Http.Request) (plan : HandlerPlan) :
    Audited stages before (a.move (.send id r plan)) := by
  let f : Flight := ⟨id, a.traffic.edge, r.method, plan, [], none, [], .aborted⟩
  have hEnter : Bills a.traffic.site (f.forsaken a.traffic.site r stages)
      (f.enter a.traffic.site r stages) := Flight.bills_enter (.refl _) hCourse r
  rw [← h.interceptors] at hEnter
  obtain ⟨counts, hCharged, hBilled⟩ := hEnter
  have hCounts : a.counts (.send id r plan) = counts := hCharged.charges_drop
  unfold Audit.move
  rw [hCounts]
  refine ⟨h.interceptors, forall₂_concat h.billed hBilled, ?_⟩
  have hJournal : Journal.charges (a.traffic.move (.send id r plan)).site.journal =
      Journal.charges a.traffic.site.journal ++ counts := hCharged.charges_journal
  rw [hJournal, List.flatMap_append, ← List.append_assoc]
  simpa using h.total.append_right counts

theorem audited_move (h : Audited stages before a) (hCourse : Course [] stages) (m : Move) :
    Audited stages before (a.move m) := by
  cases m with
  | send id r plan => exact audited_send h hCourse id r plan
  | poll index =>
    refine audited_onFlight h Flight.poll rfl rfl ?_
    intro f b hFlight hBilled
    have hLost : a.traffic.forsakes (.poll index) = f.forsakenInLine a.traffic.site := by
      simp [Traffic.forsakes, hFlight]
    rw [hLost]
    exact Flight.billed_poll hBilled a.traffic.site
  | abort index =>
    refine audited_onFlight h Flight.abort rfl rfl ?_
    intro f b hFlight hBilled
    exact Flight.billed_abort hBilled a.traffic.site
  | observe => exact audited_quiet h (charged_observe _)
  | readiness command =>
    refine audited_quiet h ⟨_, rfl, ?_⟩
    exact Readiness.charges_perform _ _ command
  | clock | calendar | scope => exact audited_quiet h (.of_journal rfl)

theorem audited_run (h : Audited stages before a) (hCourse : Course [] stages)
    (moves : List Move) : Audited stages before (a.run moves) := by
  induction moves generalizing a with
  | nil => exact h
  | cons m moves ih => exact ih (audited_move h hCourse m)

/-! ## The statement -/

theorem Bill.Settles.countedOnce_iff {b : Bill} {o : Http.Outcome} (h : b.Settles o) :
    CountedOnce o b.charges ↔ b.lost = false := by
  rcases h with ⟨hKept, hOnce⟩ | ⟨hLost, hCharges, -⟩
  · exact ⟨fun _ => hKept, fun _ => hOnce⟩
  · rw [hCharges, hLost]
    constructor
    · rintro (⟨method, hEq⟩ | ⟨failure, -, hEq⟩) <;> cases hEq
    · intro hEq
      cases hEq

/-- For every pipeline of usual stages, each at most once, with recovery and logging among them,
and for every order of moves: all counts are charged to requests, one that has not ended or was
dropped by its caller is charged nothing, and one that has ended was charged once, for its outcome,
exactly if its scope did not end its wait for a slot; otherwise it was charged nothing. -/
theorem charged_once_iff (site : Site) (stages : List Interceptor)
    (hPlaces : (stages.map Interceptor.priority).Nodup) (hUsual : ∀ i ∈ stages, i.isUsual = true)
    (hRecovery : Interceptor.panicRecovery ∈ stages)
    (hLogging : Interceptor.requestLogging ∈ stages) (edge : Edge) (moves : List Move) :
    let a := (Audit.start (.create (.build (stages.map site.gates.register)) edge site)).run moves
    a.traffic.flights.length = a.bills.length ∧
      (Journal.charges a.traffic.site.journal).Perm
        (Journal.charges site.journal ++ a.bills.flatMap (·.charges)) ∧
      ∀ (i : Nat) (f : Flight) (b : Bill), a.traffic.flights[i]? = some f → a.bills[i]? = some b →
        (∀ now c, f.activity = .ended now c → ∃ o, c = f.edge.deliver f.method (.outcome o) ∧
          (CountedOnce o b.charges ↔ b.lost = false) ∧
          (b.lost = true → b.charges = [] ∧ ∃ cause, o = .error (.ofCause cause))) ∧
        ((∀ now c, f.activity ≠ .ended now c) → b.charges = []) := by
  intro a
  have hCourse := course_build site.gates hPlaces hUsual hRecovery hLogging
  have hAudited : Audited _ _ a :=
    audited_run (audited_start (.create (.build (stages.map site.gates.register)) edge site))
      hCourse moves
  refine ⟨hAudited.billed.length_eq, hAudited.total, ?_⟩
  intro i f b hf hb
  obtain ⟨f', hf', hBilled⟩ := exists_beside hAudited.billed hb
  rw [hf] at hf'
  cases hf'
  unfold Flight.Billed at hBilled
  refine ⟨?_, ?_⟩
  · intro now c hActivity
    simp only [hActivity] at hBilled
    obtain ⟨o, hDelivered, hSettles⟩ := hBilled
    refine ⟨o, hDelivered, hSettles.countedOnce_iff, ?_⟩
    intro hLost
    rcases hSettles with ⟨hKept, -⟩ | ⟨-, hCharges, hCause⟩
    · rw [hLost] at hKept
      cases hKept
    · exact ⟨hCharges, hCause⟩
  · intro hNever
    cases hActivity : f.activity with
    | ended now c => exact absurd hActivity (hNever now c)
    | queued | awaitingEnd | working =>
      simp only [hActivity] at hBilled
      rw [hBilled.1]
      rfl
    | aborted =>
      simp only [hActivity] at hBilled
      rw [hBilled]
      rfl

def oneSlot : Site := .create ⟨none, none, some ⟨1, 100, 1, 0, [], [], 0⟩⟩ .standalone

def strictStages : List Interceptor := [.panicRecovery, .timeout 20, .bulkhead, .requestLogging]

/-- The first request takes the slot; the deadline of the second passes while it is in line. -/
def lateInLine : List Move :=
  [.scope (.createWithTimeout "brief" 5),
    .send "a" ⟨"GET", "/work", [], none, none⟩
      ⟨false, false, 10, false, .response ⟨200, [], .text ""⟩⟩,
    .send "b" ⟨"GET", "/work", [], some ⟨⟨1, [0]⟩, some 5⟩, none⟩
      ⟨false, false, 0, false, .response ⟨200, [], .text ""⟩⟩,
    .clock 5, .poll 0, .poll 1, .clock 10, .poll 0]

/-- Moves of traffic through a pipeline of these stages. -/
def strictRun (moves : List Move) : Audit :=
  (Audit.start (.create (.build (strictStages.map oneSlot.gates.register)) .direct oneSlot)).run
    moves

theorem strictRun_eq (moves : List Move) :
    strictRun moves = (Audit.start ⟨strictStages, .direct, oneSlot, []⟩).run moves := by
  have hStages : (Pipeline.build (strictStages.map oneSlot.gates.register)).interceptors =
      strictStages := interceptors_build_of_pairwise oneSlot.gates (by decide)
  unfold strictRun Traffic.create
  rw [hStages]

/-- Whether a request has ended with an outcome, so that its caller was answered. -/
def Flight.isAnswered (f : Flight) : Bool :=
  match f.activity with
  | .ended _ _ => true
  | _ => false

theorem Flight.exists_of_isAnswered {f : Flight} (h : f.isAnswered = true) :
    ∃ now c, f.activity = .ended now c := by
  unfold isAnswered at h
  cases hActivity : f.activity with
  | ended now c => exact ⟨now, c, rfl⟩
  | queued | awaitingEnd | working | aborted =>
    rw [hActivity] at h
    cases h

/-- Who had the slot was charged once. -/
theorem charged_once_iff_late_in_line :
    ∃ b, (strictRun lateInLine).bills[0]? = some b ∧ ∃ o, CountedOnce o b.charges := by
  obtain ⟨-, -, hEach⟩ := charged_once_iff oneSlot strictStages (by decide) (by decide)
    (by simp [strictStages]) (by simp [strictStages]) .direct lateInLine
  have hAnswered : ((strictRun lateInLine).traffic.flights[0]?).map Flight.isAnswered =
      some true := by
    rw [strictRun_eq]
    decide +kernel
  have hKept : ((strictRun lateInLine).bills[0]?).map (·.lost) = some false := by
    rw [strictRun_eq]
    decide +kernel
  obtain ⟨f, hf, hEnded⟩ := Option.map_eq_some_iff.mp hAnswered
  obtain ⟨b, hb, hLost⟩ := Option.map_eq_some_iff.mp hKept
  obtain ⟨now, c, hActivity⟩ := Flight.exists_of_isAnswered hEnded
  obtain ⟨o, -, hIff, -⟩ := (hEach 0 f b hf hb).1 now c hActivity
  exact ⟨b, hb, o, hIff.mpr hLost⟩

/-- Who waited in line until the deadline was answered and charged nothing. -/
theorem not_always_charged_once :
    ¬ ∀ (moves : List Move) (i : Nat) (f : Flight) (b : Bill),
      (strictRun moves).traffic.flights[i]? = some f → (strictRun moves).bills[i]? = some b →
        ∀ now c, f.activity = .ended now c → b.charges.length = 1 := by
  intro hAlways
  have hAnswered : ((strictRun lateInLine).traffic.flights[1]?).map Flight.isAnswered =
      some true := by
    rw [strictRun_eq]
    decide +kernel
  have hNothing : ((strictRun lateInLine).bills[1]?).map (·.charges) = some [] := by
    rw [strictRun_eq]
    decide +kernel
  obtain ⟨f, hf, hEnded⟩ := Option.map_eq_some_iff.mp hAnswered
  obtain ⟨b, hb, hCharges⟩ := Option.map_eq_some_iff.mp hNothing
  obtain ⟨now, c, hActivity⟩ := Flight.exists_of_isAnswered hEnded
  have hOnce := hAlways lateInLine 1 f b hf hb now c hActivity
  rw [hCharges] at hOnce
  cases hOnce

end Gatehouse.Pipeline
