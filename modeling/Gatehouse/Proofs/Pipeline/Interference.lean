import Gatehouse.Proofs.Pipeline.Agreement
import Gatehouse.Proofs.Pipeline.Occupancy

/-!
# Probes and other requests

Requests to probe paths and all others go through one pipeline in any interleaving, and neither
sees of the others more than the names that they use up and the scopes that they cancel. So each
kind can be told apart: a run of one kind alone, in which the moves of the other kind do nothing but
that, shows every request as it is in the whole run. For probes alone the pipeline need not have
any gates.

* `Abreast`: the whole run, and beside it that of one kind.
* `Abreast.Apart`: the requests of that kind are the same in both, kept by every move.
* `probes_apart`: what this says of probes and of the others.
-/

namespace Gatehouse.Pipeline

/-! ## Some elements of a list, told by another list -/

section Selected

variable {α β : Type} (keep : α → Bool)

/-- The elements that stand beside one that is kept. -/
def selected : List α → List β → List β
  | a :: as, b :: bs => if keep a then b :: selected as bs else selected as bs
  | _, _ => []

/-- The place of an element among those that are kept. -/
def rank (as : List α) (i : Nat) : Nat := (as.take i).countP keep

variable {keep} {P : α → β → Prop} {as : List α} {bs : List β} {a : α} {i : Nat}

theorem selected_concat (h : List.Forall₂ P as bs) (a : α) (b : β) :
    selected keep (as ++ [a]) (bs ++ [b]) =
      selected keep as bs ++ if keep a then [b] else [] := by
  induction h with
  | nil => simp [selected]
  | cons _ _ ih =>
    simp only [List.cons_append, selected, ih]
    split <;> rfl

theorem getElem?_selected (h : List.Forall₂ P as bs) (hKept : ∀ a, as[i]? = some a → keep a) :
    (selected keep as bs)[rank keep as i]? = bs[i]? := by
  induction h generalizing i with
  | nil => rfl
  | @cons a b as bs _ _ ih =>
    cases i with
    | zero =>
      have hHead := hKept a rfl
      simp [selected, rank, hHead]
    | succ i =>
      have hTail := ih (i := i) fun a ha => hKept a ha
      unfold rank at hTail
      cases hHead : keep a <;> simp [selected, rank, hHead, hTail]

theorem selected_set_kept (h : List.Forall₂ P as bs) (hKept : ∀ a, as[i]? = some a → keep a)
    (b : β) :
    (selected keep as bs).set (rank keep as i) b = selected keep as (bs.set i b) := by
  induction h generalizing i with
  | nil => rfl
  | @cons a b' as bs _ _ ih =>
    cases i with
    | zero =>
      have hHead := hKept a rfl
      simp [selected, rank, hHead]
    | succ i =>
      have hTail := ih (i := i) fun a ha => hKept a ha
      unfold rank at hTail
      cases hHead : keep a <;> simp [selected, rank, hHead, hTail]

theorem selected_set_left (ha : as[i]? = some a) (hLeft : keep a = false) (bs : List β) (b : β) :
    selected keep as (bs.set i b) = selected keep as bs := by
  induction as generalizing bs i with
  | nil => cases ha
  | cons a' as ih =>
    cases bs with
    | nil => rfl
    | cons b' bs =>
      cases i with
      | zero =>
        cases ha
        simp [selected, hLeft]
      | succ i =>
        have hTail := ih ha bs
        cases hHead : keep a' <;> simp [selected, hHead, hTail]

end Selected

/-! ## Without the gates -/

/-- The pipeline without the stages that bound requests or turn them away by how many there are. -/
def ungated (p : Pipeline) : Pipeline := ⟨p.stages.filter fun stage => !stage.interceptor.isGate⟩

theorem interceptors_ungated (p : Pipeline) :
    (ungated p).interceptors = p.interceptors.filter fun stage => !stage.isGate := by
  unfold ungated interceptors
  rw [List.filter_map]
  rfl

/-- For a probe, the gates might as well not be there. -/
theorem Flight.enter_ungated {r : Http.Request} (hProbe : Http.isProbePath r.path = true)
    (f : Flight) (s : Site) (stages : List Interceptor) :
    f.enter s r (stages.filter fun stage => !stage.isGate) = f.enter s r stages := by
  induction stages generalizing f s r with
  | nil => rfl
  | cons stage rest ih =>
    cases hGate : stage.isGate with
    | true =>
      rw [List.filter_cons_of_neg (by simp [hGate]), enter_cons, ih hProbe]
      simp only [pass, hProbe, bypassesProbes_of_isGate hGate, Bool.and_self, if_true,
        Passage.follow]
    | false =>
      rw [List.filter_cons_of_pos (by simp [hGate]), enter_cons, enter_cons]
      unfold pass
      split
      · exact ih hProbe f s
      · cases stage with
        | timeout | rateLimit | circuitBreaker | bulkhead => cases hGate
        | panicRecovery | errorTranslation => exact ih hProbe _ _
        | requestLogging =>
          refine ih ?_ _ _
          exact hProbe
        | schemaValidation v =>
          simp only [meet]
          cases v.check r with
          | accepted => exact ih hProbe _ _
          | rejected | panicked => rfl
        | mark label bypasses rejection =>
          simp only [meet]
          cases rejection with
          | none => exact ih hProbe _ _
          | some failure => rfl

/-! ## Runs abreast -/

/-- A run of all requests, and beside it one of some of them. -/
structure Abreast where
  sent : List Sending
  whole : Traffic
  part : Traffic

/-- Elsewhere names are taken from the same supply, and scopes are cancelled. -/
def Traffic.follow (t : Traffic) (s : Site) : Traffic :=
  { t with site := { t.site with directory := s.directory, ids := s.ids } }

namespace Abreast

/-- The request that a move is about. -/
def subject? (x : Abreast) : Move → Option Sending
  | .send _ r plan => some (x.whole.site.sending r plan)
  | .poll index => x.sent[index]?
  | .abort index => x.sent[index]?
  | _ => none

/-- The requests sent, after a move. -/
def record (x : Abreast) : Move → List Sending
  | .send _ r plan => x.sent ++ [x.whole.site.sending r plan]
  | _ => x.sent

def isOf (probes : Bool) (sending : Sending) : Bool := sending.isProbe == probes

/-- The same move where there are only the requests of one kind. -/
def among (probes : Bool) (x : Abreast) : Move → Move
  | .poll index => .poll (rank (isOf probes) x.sent index)
  | .abort index => .abort (rank (isOf probes) x.sent index)
  | m => m

/-- A move of the whole, which is one of the part too unless it is about a request of the other
kind. -/
def move (probes : Bool) (x : Abreast) (m : Move) : Abreast where
  sent := x.record m
  whole := x.whole.move m
  part :=
    if (x.subject? m).all (isOf probes) then x.part.move (x.among probes m)
    else x.part.follow (x.whole.move m).site

/-- The requests of one kind, as they are among all. -/
def flights (probes : Bool) (x : Abreast) : List Flight :=
  selected (isOf probes) x.sent x.whole.flights

/-- The requests of one kind are as they are alone. -/
structure Apart (probes : Bool) (x : Abreast) : Prop where
  flights : x.part.flights = x.flights probes
  site : x.whole.site.Agrees probes x.part.site
  edge : x.part.edge = x.whole.edge
  stages : ∀ (f : Flight) (s : Site) (r : Http.Request), Http.isProbePath r.path = probes →
    f.enter s r x.part.interceptors = f.enter s r x.whole.interceptors
  fits : List.Forall₂ Flight.Fits x.sent x.whole.flights

variable {probes : Bool} {x : Abreast}

/-! ### One step -/

/-- What becomes of a request does not depend on what it does not look at. -/
def Steady (op : Flight → Site → Site × Flight) : Prop :=
  ∀ {sending f s s'}, f.Fits sending → s.Agrees sending.isProbe s' →
    Flight.Beside sending s (op f s) (op f s')

theorem isOf_eq_false {sending : Sending} (h : isOf probes sending = false) :
    sending.isProbe = !probes :=
  Bool.eq_not.mpr (beq_eq_false_iff_ne.mp h)

/-- A request of the other kind changes nothing that this kind looks at, but for the names. -/
theorem agrees_follow {s s' s₁ : Site} {sending : Sending} (h : s.Agrees probes s')
    (hSpares : s.Spares sending s₁) (hKind : isOf probes sending = false) :
    s₁.Agrees probes { s' with directory := s₁.directory, ids := s₁.ids } := by
  have hOther := isOf_eq_false hKind
  refine ⟨h.now.trans hSpares.now.symm, h.moment.trans hSpares.moment.symm, rfl, rfl, ?_, ?_⟩
  · intro hProbes
    rw [hProbes] at hOther
    exact (h.gates hProbes).trans (hSpares.gates hOther).symm
  · intro hProbes
    rw [hProbes] at hOther
    exact (h.coordinator hProbes).trans (hSpares.coordinator hOther).symm

/-- Something is done with a request of the kind. -/
theorem apart_onFlight {op : Flight → Site → Site × Flight} (hOp : Steady op) {index : Nat}
    (h : x.Apart probes) (hKept : ∀ sending, x.sent[index]? = some sending → isOf probes sending) :
    Apart probes
      { x with
        whole := x.whole.onFlight index op
        part := x.part.onFlight (rank (isOf probes) x.sent index) op } := by
  have hPart := getElem?_selected h.fits hKept
  rw [← flights, ← h.flights] at hPart
  unfold Traffic.onFlight
  rw [hPart]
  cases hFlight : x.whole.flights[index]? with
  | none => exact h
  | some f =>
    obtain ⟨sending, hSent, hFits⟩ := exists_beside h.fits hFlight
    have hKind : sending.isProbe = probes := by simpa [isOf] using hKept sending hSent
    have hAgrees := h.site
    rw [← hKind] at hAgrees
    have hBeside := hOp hFits hAgrees
    refine ⟨?_, ?_, h.edge, h.stages, ?_⟩
    · simp only [h.flights, hBeside.same]
      exact selected_set_kept h.fits hKept _
    · rw [← hKind]
      exact hBeside.sites.agrees
    · exact forall₂_set h.fits hSent hBeside.fits

/-- Something is done with a request of the other kind. -/
theorem apart_aside {op : Flight → Site → Site × Flight} (hOp : Steady op) {index : Nat}
    {sending : Sending} (h : x.Apart probes) (hSent : x.sent[index]? = some sending)
    (hKind : isOf probes sending = false) :
    Apart probes
      { x with
        whole := x.whole.onFlight index op
        part := x.part.follow (x.whole.onFlight index op).site } := by
  unfold Traffic.onFlight
  cases hFlight : x.whole.flights[index]? with
  | none =>
    have hAgrees := agrees_follow h.site (.refl sending x.whole.site) hKind
    exact ⟨h.flights, hAgrees, h.edge, h.stages, h.fits⟩
  | some f =>
    obtain ⟨sending', hSent', hFits⟩ := exists_beside h.fits hFlight
    rw [hSent] at hSent'
    cases hSent'
    have hBeside := hOp hFits (.refl sending.isProbe x.whole.site)
    refine ⟨?_, agrees_follow h.site hBeside.sites.spares hKind, h.edge, h.stages, ?_⟩
    · refine h.flights.trans ?_
      exact (selected_set_left hSent hKind _ _).symm
    · exact forall₂_set h.fits hSent hBeside.fits

/-- The request as it is when it is sent, and what it does on its way in. -/
theorem beside_send {s' : Site} (x : Abreast) (id : String) (r : Http.Request)
    (plan : HandlerPlan) (hAgrees : x.whole.site.Agrees (Http.isProbePath r.path) s') :
    let f : Flight := ⟨id, x.whole.edge, r.method, plan, [], none, [], .aborted⟩
    Flight.Beside (x.whole.site.sending r plan) x.whole.site
      (f.enter x.whole.site r x.whole.interceptors) (f.enter s' r x.whole.interceptors) := by
  intro f
  exact Flight.beside_sent (f := f) hAgrees rfl _

theorem apart_send (h : x.Apart probes) (id : String) (r : Http.Request) (plan : HandlerPlan) :
    (x.move probes (.send id r plan)).Apart probes := by
  have hSelected : ∀ f, selected (isOf probes) (x.sent ++ [x.whole.site.sending r plan])
      (x.whole.flights ++ [f]) = _ := selected_concat h.fits _
  cases hKind : isOf probes (x.whole.site.sending r plan) with
  | true =>
    have hProbe : Http.isProbePath r.path = probes := by
      simpa [isOf, Sending.isProbe, Site.sending] using hKind
    have hAgrees := h.site
    rw [← hProbe] at hAgrees
    have hBeside := beside_send x id r plan hAgrees
    simp only [move, subject?, record, among, Option.all_some, hKind, if_true, Traffic.move,
      Traffic.send]
    refine ⟨?_, ?_, h.edge, h.stages, forall₂_concat h.fits hBeside.fits⟩
    · simp only [flights, hSelected, hKind, if_true, h.flights, h.edge, h.stages _ _ r hProbe,
        hBeside.same]
    · simp only [h.edge, h.stages _ _ r hProbe]
      rw [← hProbe]
      exact hBeside.sites.agrees
  | false =>
    have hBeside := beside_send x id r plan (.refl _ _)
    simp only [move, subject?, record, Option.all_some, hKind, Bool.false_eq_true, if_false,
      Traffic.move, Traffic.send]
    refine ⟨?_, agrees_follow h.site hBeside.sites.spares hKind, h.edge, h.stages,
      forall₂_concat h.fits hBeside.fits⟩
    simp only [flights, hSelected, hKind, Bool.false_eq_true, if_false, List.append_nil]
    exact h.flights

theorem steady_poll : Steady Flight.poll := Flight.beside_poll

theorem steady_abort : Steady Flight.abort := Flight.beside_abort

/-- A move of one request that is there already. -/
theorem apart_handled {op : Flight → Site → Site × Flight} (hOp : Steady op) (h : x.Apart probes)
    (index : Nat) :
    Apart probes
      { sent := x.sent
        whole := x.whole.onFlight index op
        part :=
          if (x.sent[index]?).all (isOf probes) then
            x.part.onFlight (rank (isOf probes) x.sent index) op
          else x.part.follow (x.whole.onFlight index op).site } := by
  split
  · next hKept =>
    refine apart_onFlight hOp h ?_
    intro sending hSent
    rw [hSent] at hKept
    exact hKept
  · next hLeft =>
    cases hSent : x.sent[index]? with
    | none =>
      rw [hSent] at hLeft
      exact absurd rfl hLeft
    | some sending =>
      rw [hSent] at hLeft
      exact apart_aside hOp h hSent (by simpa using hLeft)

/-- Both sites change, and no request does anything. -/
theorem apart_sites {s s' : Site} (h : x.Apart probes) (hAgrees : s.Agrees probes s') :
    Apart probes { x with
      whole := { x.whole with site := s }
      part := { x.part with site := s' } } :=
  ⟨h.flights, hAgrees, h.edge, h.stages, h.fits⟩

/-- To look at the breaker changes nothing but the breaker. -/
theorem agrees_observe {s s' : Site} (h : s.Agrees probes s') :
    (Traffic.observe s).2.Agrees probes (Traffic.observe s').2 := by
  have hObserve : ∀ s : Site, ∃ entries, (Traffic.observe s).2 =
      ({ s with gates := (Traffic.observe s).2.gates } : Site).note entries := by
    intro s
    unfold Traffic.observe
    cases s.gates.breaker with
    | none => exact ⟨[], by simp [Site.note]⟩
    | some b => exact ⟨_, rfl⟩
  obtain ⟨entries, hWhole⟩ := hObserve s
  obtain ⟨entries', hPart⟩ := hObserve s'
  rw [hWhole, hPart]
  refine (h.setGates ?_).note _ _
  intro hOther
  unfold Traffic.observe
  rw [h.gates hOther, h.now]
  cases hBreaker : s.gates.breaker with
  | none => exact h.gates hOther
  | some b => simp only [Site.setBreaker, Site.note, h.gates hOther]

/-- Every move keeps the requests of one kind as they are alone. -/
theorem apart_move (h : x.Apart probes) (m : Move) : (x.move probes m).Apart probes := by
  have hSite := h.site
  cases m with
  | send id r plan => exact apart_send h id r plan
  | poll index => exact apart_handled steady_poll h index
  | abort index => exact apart_handled steady_abort h index
  | observe => exact apart_sites h (agrees_observe hSite)
  | clock now =>
    refine apart_sites h ?_
    exact ⟨rfl, hSite.moment, hSite.directory, hSite.ids, hSite.gates, hSite.coordinator⟩
  | calendar moment =>
    refine apart_sites h ?_
    exact ⟨hSite.now, rfl, hSite.directory, hSite.ids, hSite.gates, hSite.coordinator⟩
  | scope command =>
    refine apart_sites h ?_
    refine ⟨hSite.now, hSite.moment, ?_, hSite.ids, hSite.gates, hSite.coordinator⟩
    rw [hSite.directory, hSite.now]
  | readiness command =>
    refine apart_sites h (Site.Agrees.note ?_ _ _)
    refine ⟨hSite.now, hSite.moment, hSite.directory, hSite.ids, hSite.gates, ?_⟩
    intro hProbes
    rw [hSite.coordinator hProbes, hSite.moment]

/-- What a request leaves alone in any move. -/
theorem spares_move (hFits : List.Forall₂ Flight.Fits x.sent x.whole.flights) {m : Move}
    {sending : Sending} (hSubject : x.subject? m = some sending) :
    x.whole.site.Spares sending (x.whole.move m).site := by
  have hHandled : ∀ {op index}, Steady op → x.sent[index]? = some sending →
      x.whole.site.Spares sending (x.whole.onFlight index op).site := by
    intro op index hOp hSent
    unfold Traffic.onFlight
    cases hFlight : x.whole.flights[index]? with
    | none => exact .refl sending x.whole.site
    | some f =>
      obtain ⟨sending', hSent', hFlightFits⟩ := exists_beside hFits hFlight
      rw [hSent] at hSent'
      cases hSent'
      exact (hOp hFlightFits (.refl _ _)).sites.spares
  cases m with
  | send id r plan =>
    cases hSubject
    exact (beside_send x id r plan (.refl _ _)).sites.spares
  | poll index => exact hHandled steady_poll hSubject
  | abort index => exact hHandled steady_abort hSubject
  | clock | calendar | scope | readiness | observe => cases hSubject

/-! ### Whole runs -/

/-- Some moves, where there are no requests at first. -/
def run (probes : Bool) (whole part : Traffic) (moves : List Move) : Abreast :=
  moves.foldl (move probes) ⟨[], whole, part⟩

theorem whole_run (probes : Bool) (whole part : Traffic) (moves : List Move) :
    (run probes whole part moves).whole = moves.foldl Traffic.move whole := by
  unfold run
  generalize ([] : List Sending) = sent
  induction moves generalizing sent whole part with
  | nil => rfl
  | cons m moves ih => exact ih _ _ _

theorem apart_run (h : x.Apart probes) (moves : List Move) :
    (moves.foldl (move probes) x).Apart probes := by
  induction moves generalizing x with
  | nil => exact h
  | cons m moves ih => exact ih (apart_move h m)

/-- There are no requests yet, and the pipelines are the same to requests of the kind. -/
theorem apart_start {p p' : Pipeline} (edge : Edge) {s s' : Site} (hAgrees : s.Agrees probes s')
    (hStages : ∀ (f : Flight) (s : Site) (r : Http.Request), Http.isProbePath r.path = probes →
      f.enter s r p'.interceptors = f.enter s r p.interceptors) (moves : List Move) :
    (run probes (.create p edge s) (.create p' edge s') moves).Apart probes :=
  apart_run ⟨rfl, hAgrees, rfl, hStages, .nil⟩ moves

end Abreast

/-- A run through a pipeline, and beside it one without the probes. -/
def withoutProbes (p : Pipeline) (edge : Edge) (site : Site) (moves : List Move) : Abreast :=
  .run false (.create p edge site) (.create p edge site) moves

/-- A run through a pipeline, and beside it one of the probes alone, without the stages that ask
the gates and with gates in any other state. -/
def probesAlone (p : Pipeline) (edge : Edge) (site : Site) (gates : Gates) (moves : List Move) :
    Abreast :=
  .run true (.create p edge site) (.create (ungated p) edge { site with gates := gates }) moves

/-- Requests go in any interleaving through a pipeline, with its gates in any state. Every probe is
what it is alone, where there are no stages that ask the gates. It leaves the gates as they are,
and cancels nothing but the scope that it came under, where its handler does so. Every other request
is what it is without the probes, and so are the gates. -/
theorem probes_apart (p : Pipeline) (edge : Edge) (site : Site) (moves : List Move) :
    (∀ gates,
      let x := probesAlone p edge site gates moves
      x.whole = moves.foldl Traffic.move (.create p edge site) ∧
        x.part.flights = x.flights true) ∧
    let x := withoutProbes p edge site moves
    x.whole = moves.foldl Traffic.move (.create p edge site) ∧
      x.part.flights = x.flights false ∧
      x.part.site.gates = x.whole.site.gates ∧
      ∀ m probe, x.subject? m = some probe → probe.isProbe = true →
        x.whole.site.Spares probe (x.whole.move m).site := by
  refine ⟨?_, ?_⟩
  · intro gates
    have hAgrees : site.Agrees true { site with gates := gates } :=
      (Site.Agrees.refl true site).setGates (by simp)
    have hStages : ∀ (f : Flight) (s : Site) (r : Http.Request), Http.isProbePath r.path = true →
        f.enter s r (ungated p).interceptors = f.enter s r p.interceptors := by
      intro f s r hProbe
      rw [interceptors_ungated]
      exact Flight.enter_ungated hProbe f s p.interceptors
    exact ⟨Abreast.whole_run .., (Abreast.apart_start edge hAgrees hStages moves).flights⟩
  · have hApart : (withoutProbes p edge site moves).Apart false :=
      Abreast.apart_start edge (.refl false site) (fun _ _ _ _ => rfl) moves
    refine ⟨Abreast.whole_run .., hApart.flights, hApart.site.gates rfl, ?_⟩
    intro m probe hSubject _
    exact Abreast.spares_move hApart.fits hSubject

/-! ## A breaker that is open, and a bulkhead that is full -/

def guarded : Pipeline := ⟨narrowStages.map fun i => ⟨i.priority, i.name, i⟩⟩

/-- The handler of `a` panics, which opens the breaker and leaves the only slot to `b`. Then `c` is
turned away, and a probe is not. -/
def tripping : List Move :=
  [.send "a" (getFor "/orders/1") (workFor 3 (.panic .other)),
    .send "b" (getFor "/orders/2") (workFor 4 (.response ⟨200, [], .text ""⟩)),
    .clock 3, .poll 0, .poll 1,
    .send "p" (getFor "/livez/database") (workFor 2 (.response ⟨200, [], .text ""⟩)),
    .send "c" (getFor "/orders/3") (workFor 1 (.response ⟨200, [], .text ""⟩)),
    .clock 5]

theorem probes_apart_tripping :
    let x := withoutProbes guarded .direct narrow tripping
    x.whole.flights.map Flight.isPending = [false, true, true, false] ∧
      x.part.flights.map Flight.isPending = [false, true, false] ∧
      (probesAlone guarded .direct narrow .none tripping).part.flights.map Flight.isPending =
        [true] ∧
      ∃ probe, x.subject? (.poll 2) = some probe ∧ probe.isProbe = true ∧
        x.whole.site.Spares probe (x.whole.move (.poll 2)).site := by
  obtain ⟨hProbes, -, hOthers, -, hSpares⟩ := probes_apart guarded .direct narrow tripping
  have hSubject : ((withoutProbes guarded .direct narrow tripping).subject? (.poll 2)).map
      Sending.isProbe = some true := by decide +kernel
  refine ⟨by decide +kernel, ?_, ?_, ?_⟩
  · rw [hOthers]
    decide +kernel
  · rw [(hProbes .none).2]
    decide +kernel
  · obtain ⟨probe, hProbe, hIsProbe⟩ := Option.map_eq_some_iff.mp hSubject
    exact ⟨probe, hProbe, hIsProbe, hSpares _ _ hProbe hIsProbe⟩

/-! ## A scope that is shared -/

/-- The first scope that is made. -/
def firstScope : Scope := ⟨⟨0, []⟩, none⟩

/-- A request under a scope that a caller has made, whose handler waits for the end of it. -/
def waiting : List Move :=
  [.scope (.create "s"),
    .send "a" { getFor "/orders/1" with scope := some firstScope }
      ⟨true, true, 0, false, .response ⟨200, [], .text ""⟩⟩]

/-- A probe under the same scope whose handler cancels it ends the other request, which would
have gone on waiting without the probe. -/
theorem not_always_apart :
    ¬ ∀ (p : Pipeline) (edge : Edge) (site : Site) (moves : List Move) (id : String)
      (r : Http.Request) (plan : HandlerPlan) (index : Nat),
      let t := moves.foldl Traffic.move (.create p edge site)
      Http.isProbePath r.path = true → index < t.flights.length →
        (((t.move (.send id r plan)).move (.poll index)).flights[index]?).map Flight.isPending =
          ((t.move (.poll index)).flights[index]?).map Flight.isPending := by
  intro h
  have hSame := h guarded .direct narrow waiting "p"
    { getFor "/livez" with scope := some firstScope }
    ⟨false, false, 0, true, .response ⟨200, [], .text ""⟩⟩ 0 (by decide) (by decide +kernel)
  revert hSame
  decide +kernel

end Gatehouse.Pipeline
