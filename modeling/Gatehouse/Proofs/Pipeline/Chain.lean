import Gatehouse.Proofs.Pipeline.Passage
import Mathlib.Data.List.Sort

/-!
# The chain of a pipeline

A pipeline is sorted by priority, and stages of equal priority stay in the order in which they were
registered. This leaves no choice, so that registrations which differ in nothing else give the same
pipeline. A request then goes through the chain from the outside to the inside. What stands in a
chain may be anything that takes a request and the rest of the chain. If it passes the request on
once, to a path that is still the same, then every stage that does not let the request by is asked
once and in turn, and so is what stands at the end.

* `build_eq_build_iff`: which registrations give the same pipeline.
* `run_eq_through`: a chain runs the stages that do not let the request by.
* `run_recorded`: who was asked, in a chain of stages that pass requests on.
* `enter_eq_through`: the way inwards is a chain.
-/

namespace Gatehouse.Pipeline

/-! ## Sorted by priority -/

/-- The enabled stages of some registrations, in the order in which they were registered. -/
def enabled (registrations : List Registration) : List Stage :=
  registrations.filterMap Registration.stage?

def Stage.sorts (a b : Stage) : Bool := a.priority ≤ b.priority

theorem Stage.sorts_trans (a b c : Stage) (hab : a.sorts b = true) (hbc : b.sorts c = true) :
    a.sorts c = true :=
  decide_eq_true (Int.le_trans (of_decide_eq_true hab) (of_decide_eq_true hbc))

theorem Stage.sorts_total (a b : Stage) : (a.sorts b || b.sorts a) = true := by
  rcases Int.le_total a.priority b.priority with hLe | hLe <;> simp [sorts, hLe]

/-- The stages of one priority, in the order in which they stand. -/
def ofPriority (p : Int) (stages : List Stage) : List Stage := stages.filter (·.priority = p)

/-- The order of priorities, and the order of the stages of each, say what the whole order is. -/
theorem eq_of_ofPriority_eq {xs ys : List Stage}
    (hxs : xs.Pairwise fun a b => a.priority ≤ b.priority)
    (hys : ys.Pairwise fun a b => a.priority ≤ b.priority)
    (h : ∀ p, ofPriority p xs = ofPriority p ys) : xs = ys := by
  induction xs generalizing ys with
  | nil =>
    cases ys with
    | nil => rfl
    | cons y ys =>
      have hEmpty := h y.priority
      simp [ofPriority] at hEmpty
  | cons x xs ih =>
    cases ys with
    | nil =>
      have hEmpty := h x.priority
      simp [ofPriority] at hEmpty
    | cons y ys =>
      rw [List.pairwise_cons] at hxs hys
      have hMem : ∀ {a : Stage}, a ∈ x :: xs ↔ a ∈ y :: ys := by
        intro a
        have hAt := congrArg (a ∈ ·) (h a.priority)
        simpa [ofPriority] using hAt
      -- each head is no later than the other one
      have hLe : x.priority ≤ y.priority := by
        rcases List.mem_cons.mp (hMem.mpr List.mem_cons_self) with rfl | hIn
        · exact Int.le_refl _
        · exact hxs.1 y hIn
      have hGe : y.priority ≤ x.priority := by
        rcases List.mem_cons.mp (hMem.mp List.mem_cons_self) with rfl | hIn
        · exact Int.le_refl _
        · exact hys.1 x hIn
      have hSame : y.priority = x.priority := Int.le_antisymm hGe hLe
      have hHead : x = y := by
        have hFirst := h x.priority
        simp only [ofPriority, List.filter_cons, hSame, decide_true, if_true] at hFirst
        exact (List.cons.inj hFirst).1
      subst hHead
      rw [ih hxs.2 hys.2]
      intro p
      have hTail := h p
      unfold ofPriority at hTail ⊢
      rw [List.filter_cons, List.filter_cons] at hTail
      split at hTail
      · exact (List.cons.inj hTail).2
      · exact hTail

variable (registrations : List Registration)

theorem stages_build_perm : (build registrations).stages.Perm (enabled registrations) :=
  List.mergeSort_perm _ _

theorem stages_build_sorted :
    (build registrations).stages.Pairwise fun a b => a.priority ≤ b.priority :=
  (List.pairwise_mergeSort Stage.sorts_trans Stage.sorts_total _).imp of_decide_eq_true

/-- The stages of a priority stay in the order in which they were registered. -/
theorem ofPriority_build (p : Int) :
    ofPriority p (build registrations).stages = ofPriority p (enabled registrations) := by
  have hTied : (ofPriority p (enabled registrations)).Pairwise fun a b => a.sorts b = true := by
    rw [List.pairwise_iff_forall_sublist]
    intro a b hSublist
    have ha := List.of_mem_filter (hSublist.subset (List.mem_cons_self))
    have hb := List.of_mem_filter (hSublist.subset (List.mem_cons_of_mem _ List.mem_cons_self))
    rw [decide_eq_true_eq] at ha hb
    exact decide_eq_true (Int.le_of_eq (ha.trans hb.symm))
  have hKept := (List.sublist_mergeSort Stage.sorts_trans Stage.sorts_total hTied
    List.filter_sublist).filter (·.priority = p)
  rw [ofPriority, List.filter_filter] at hKept
  simp only [Bool.and_self] at hKept
  exact (hKept.eq_of_length ((stages_build_perm registrations).filter _).length_eq.symm).symm

/-- Two registrations give the same pipeline exactly if they agree on the order of the enabled
stages of each priority. -/
theorem build_eq_build_iff (others : List Registration) :
    build registrations = build others ↔
      ∀ p, ofPriority p (enabled registrations) = ofPriority p (enabled others) := by
  constructor
  · intro h p
    rw [← ofPriority_build, h, ofPriority_build]
  · intro h
    have hStages : (build registrations).stages = (build others).stages := by
      refine eq_of_ofPriority_eq (stages_build_sorted _) (stages_build_sorted _) fun p => ?_
      rw [ofPriority_build, ofPriority_build, h]
    exact congrArg Pipeline.mk hStages

/-! ## Chains -/

/-- A stage of any kind: it takes a request and the rest of the chain. -/
structure Link (β : Type) where
  bypassesProbes : Bool
  intercept : Http.Request → (Http.Request → β) → β

namespace Link

variable {β : Type}

/-- Whether a request to a path is not let by. -/
def sees (path : String) (l : Link β) : Bool := !(Http.isProbePath path && l.bypassesProbes)

/-- A chain, with what stands at its end. -/
def run (endpoint : Http.Request → β) : List (Link β) → Http.Request → β
  | [], r => endpoint r
  | l :: rest, r => if l.sees r.path then l.intercept r (run endpoint rest) else run endpoint rest r

/-- The stages of a chain that do not let a request by, one inside of the other. -/
def through (path : String) (endpoint : Http.Request → β) (links : List (Link β)) :
    Http.Request → β :=
  (links.filter (·.sees path)).foldr (fun l next r => l.intercept r next) endpoint

/-- What the rest of the chain does with other paths makes no difference. -/
def KeepsPath (l : Link β) : Prop :=
  ∀ r next next', (∀ r' : Http.Request, r'.path = r.path → next r' = next' r') →
    l.intercept r next = l.intercept r next'

/-- Of stages that keep the path, those are left out that let the request by. -/
theorem run_eq_through {endpoint : Http.Request → β} {links : List (Link β)}
    (h : ∀ l ∈ links, l.KeepsPath) (r : Http.Request) :
    run endpoint links r = through r.path endpoint links r := by
  induction links generalizing r with
  | nil => rfl
  | cons l rest ih =>
    have hRest := ih fun l hl => h l (List.mem_cons_of_mem _ hl)
    rw [run, through, List.filter_cons]
    split
    · refine h l List.mem_cons_self r _ _ ?_
      intro r' hPath
      rw [hRest r', hPath]
      rfl
    · exact hRest r

end Link

/-! ## Stages that pass requests on -/

/-- A stage that passes every request on once, to the same path. What it does before that says what
is passed on, and what is made of the answer. -/
structure Relay (m : Type → Type) (α : Type) where
  bypassesProbes : Bool
  before : (r : Http.Request) → m ({ onward : Http.Request // onward.path = r.path } × (α → m α))

/-- Who is asked. -/
inductive Asked (ι : Type) where
  | stage (name : ι)
  | endpoint

/-- Does the same, and notes before it who is asked. -/
abbrev Recorded (ι : Type) (m : Type → Type) := StateT (List (Asked ι)) m

def noted {ι : Type} {m : Type → Type} [Monad m] (asked : Asked ι) : Recorded ι m Unit :=
  modify (· ++ [asked])

namespace Relay

variable {ι α : Type} {m : Type → Type} [Monad m]

def link (x : Relay m α) : Link (m α) where
  bypassesProbes := x.bypassesProbes
  intercept r next := do
    let (onward, after) ← x.before r
    let answer ← next onward
    after answer

def recorded (name : ι) (x : Relay m α) : Relay (Recorded ι m) α where
  bypassesProbes := x.bypassesProbes
  before r := do
    noted (.stage name)
    let (onward, after) ← StateT.lift (x.before r)
    return (onward, fun answer => StateT.lift (after answer))

def recordedEndpoint (ι : Type) (endpoint : Http.Request → m α) (r : Http.Request) :
    Recorded ι m α := do
  noted .endpoint
  StateT.lift (endpoint r)

/-- The calls of a request that goes through all of a chain. -/
def calls (path : String) (behind : ι → Relay m α) (names : List ι) : List (Asked ι) :=
  (names.filter fun name => (behind name).link.sees path).map .stage ++ [.endpoint]

theorem link_intercept (x : Relay m α) (r : Http.Request) (next : Http.Request → m α) :
    x.link.intercept r next =
      x.before r >>= fun passed => next passed.1 >>= fun answer => passed.2 answer := rfl

theorem run_recordedEndpoint [LawfulMonad m] (endpoint : Http.Request → m α) (r : Http.Request)
    (log : List (Asked ι)) :
    (recordedEndpoint ι endpoint r).run log =
      (fun answer => (answer, log ++ [.endpoint])) <$> endpoint r := by
  simp [recordedEndpoint, noted]

theorem run_recorded_intercept [LawfulMonad m] (name : ι) (x : Relay m α) (r : Http.Request)
    (next : Http.Request → Recorded ι m α) (log : List (Asked ι)) :
    ((x.recorded name).link.intercept r next).run log =
      x.before r >>= fun passed => (next passed.1).run (log ++ [.stage name]) >>= fun inner =>
        (fun answer => (answer, inner.2)) <$> passed.2 inner.1 := by
  simp [link, recorded, noted]

/-- To note who is asked changes nothing, and it is every stage that does not let the request by,
in turn, and then what stands at the end. -/
theorem run_recorded [LawfulMonad m] (endpoint : Http.Request → m α) (behind : ι → Relay m α)
    (names : List ι) (r : Http.Request) (log : List (Asked ι)) :
    (Link.run (recordedEndpoint ι endpoint)
        (names.map fun name => ((behind name).recorded name).link) r).run log =
      (fun answer => (answer, log ++ calls r.path behind names)) <$>
        Link.run endpoint (names.map fun name => (behind name).link) r := by
  induction names generalizing r log with
  | nil => exact run_recordedEndpoint endpoint r log
  | cons name rest ih =>
    have hSees : ((behind name).recorded name).link.sees r.path = (behind name).link.sees r.path :=
      rfl
    rw [List.map_cons, List.map_cons, Link.run, Link.run, hSees, calls, List.filter_cons]
    split
    · rw [run_recorded_intercept, link_intercept]
      simp only [map_bind]
      refine bind_congr fun passed => ?_
      have hRest := ih passed.1 (log ++ [.stage name])
      rw [passed.1.2] at hRest
      rw [hRest, bind_map_left]
      refine bind_congr fun answer => ?_
      rw [calls, List.map_cons, List.cons_append, List.append_assoc]
      rfl
    · exact ih r log

end Relay

/-! ## The stages of the pipeline -/

/-- A stage of the pipeline in front of others, which a request that waits for it will still
meet. -/
def Interceptor.link (rest : List Interceptor) (i : Interceptor) :
    Link (Flight → Site → Site × Flight) where
  bypassesProbes := i.bypassesProbes
  intercept r next f site :=
    match f.meet site r rest i with
    | .inwards f site r => next r f site
    | passage => passage.follow rest

def links : List Interceptor → List (Link (Flight → Site → Site × Flight))
  | [] => []
  | i :: rest => i.link rest :: links rest

def arrival (r : Http.Request) (f : Flight) (site : Site) : Site × Flight := f.arrive site r

namespace Flight

/-- The way inwards is a chain of the stages with the handler at its end. -/
theorem enter_eq_run (f : Flight) (site : Site) (r : Http.Request) (stages : List Interceptor) :
    f.enter site r stages = Link.run arrival (links stages) r f site := by
  induction stages generalizing f site r with
  | nil =>
    rw [enter_nil]
    rfl
  | cons stage rest ih =>
    rw [enter_cons, links, Link.run, pass]
    have hSees : (stage.link rest).sees r.path =
      !(Http.isProbePath r.path && stage.bypassesProbes) := rfl
    rw [hSees]
    cases Http.isProbePath r.path && stage.bypassesProbes with
    | true => exact ih f site r
    | false =>
      simp only [Bool.not_false, if_true, Bool.false_eq_true, if_false, Interceptor.link]
      cases f.meet site r rest stage with
      | inwards f site r => exact ih f site r
      | waits | rejected | ends | lost => rfl

/-- No stage changes the path of a request that it passes on. -/
theorem meet_path {f f' : Flight} {site site' : Site} {r r' : Http.Request}
    {rest : List Interceptor} {stage : Interceptor}
    (h : f.meet site r rest stage = .inwards f' site' r') : r'.path = r.path := by
  cases stage with
  | panicRecovery | timeout | requestLogging | errorTranslation =>
    cases h
    rfl
  | schemaValidation v =>
    simp only [meet] at h
    split at h <;> cases h
    rfl
  | mark label bypasses rejection =>
    cases rejection <;> cases h
    rfl
  | rateLimit =>
    simp only [meet, meetGate] at h
    split at h
    · cases h
      rfl
    · split at h <;> cases h
      rfl
  | circuitBreaker =>
    simp only [meet, meetGate] at h
    split at h
    · cases h
      rfl
    · split at h <;> cases h
      rfl
  | bulkhead =>
    simp only [meet, meetGate, look] at h
    split at h
    · cases h
      rfl
    · split at h <;> cases h
      rfl

theorem keepsPath_links (stages : List Interceptor) : ∀ l ∈ links stages, l.KeepsPath := by
  induction stages with
  | nil => nofun
  | cons stage rest ih =>
    refine List.forall_mem_cons.mpr ⟨?_, ih⟩
    intro r next next' hNext
    funext f site
    simp only [Interceptor.link]
    cases hMeet : f.meet site r rest stage with
    | inwards f' site' r' => exact congrFun₂ (hNext r' (meet_path hMeet)) f' site'
    | waits | rejected | ends | lost => rfl

theorem enter_eq_through (f : Flight) (site : Site) (r : Http.Request)
    (stages : List Interceptor) :
    f.enter site r stages = Link.through r.path arrival (links stages) r f site := by
  rw [enter_eq_run, Link.run_eq_through (keepsPath_links stages)]

end Flight

end Gatehouse.Pipeline
