import Gatehouse.Pipeline.Traffic
import Gatehouse.Proofs.Clock
import Mathlib.Data.List.Forall2

/-!
# Traffic, one move at a time

A step of the traffic lets everything happen that follows from it at the same instant. It is made
of moves, each of which concerns the shared state or one request: the clock goes on, a scope is
cancelled, a request is sent, looked at, or dropped by its caller. Moves can be made in any order,
which gives every interleaving of the requests and not just the one that a step chooses.

* `Traffic.move`: a single move.
* `Reachable`: what traffic can come to, with the requests that were sent on the way.
* `Reachable.perform`: a whole step is a sequence of moves.
-/

namespace Gatehouse.Pipeline

/-- A single thing that happens to the traffic. -/
inductive Move where
  | clock (now : Nat)
  | calendar (moment : Nat)
  | scope (command : Scope.Command)
  | readiness (command : Readiness.Command)
  | observe
  | send (id : String) (request : Http.Request) (plan : HandlerPlan)
  | poll (index : Nat)
  | abort (index : Nat)

/-- The request that a move sends, if it sends one. -/
def Move.requests : Move → List Http.Request
  | .send _ r _ => [r]
  | _ => []

namespace Traffic

/-- Does something with one of the requests; where there is none, nothing happens. -/
def onFlight (t : Traffic) (index : Nat) (f : Flight → Site → Site × Flight) : Traffic :=
  match t.flights[index]? with
  | none => t
  | some flight =>
    let (site, flight) := f flight t.site
    { t with site := site, flights := t.flights.set index flight }

def move (t : Traffic) : Move → Traffic
  | .clock now => { t with site := { t.site with now := now } }
  | .calendar moment => { t with site := { t.site with moment := moment } }
  | .scope command =>
    { t with site := { t.site with directory := t.site.directory.perform t.site.now command } }
  | .readiness command =>
    let (_, coordinator, journal) := t.site.coordinator.perform t.site.moment command
    { t with site := { t.site with coordinator := coordinator }.note journal }
  | .observe => { t with site := (observe t.site).2 }
  | .send id r plan => t.send id r plan
  | .poll index => t.onFlight index Flight.poll
  | .abort index => t.onFlight index Flight.abort

/-- The request that a step sends, if it sends one: its scope is looked up by name. -/
def Step.requests (t : Traffic) : Step → List Http.Request
  | .send _ r name _ => [{ r with scope := name.bind t.site.directory.find? }]
  | _ => []

/-! ## Looks at all requests, and dropping them, one after the other -/

/-- Something is done with the request behind the first few. -/
theorem onFlight_append {f : Flight → Site → Site × Flight} (t : Traffic) (site : Site)
    (before : List Flight) (flight : Flight) (rest : List Flight) :
    ({ t with site := site, flights := before ++ flight :: rest } : Traffic).onFlight
        before.length f =
      { t with site := (f flight site).1, flights := before ++ (f flight site).2 :: rest } := by
  simp [onFlight]

section Keeps

variable {P : Traffic → Prop}

theorem visitAll_keeps (hPoll : ∀ t index, P t → P (t.move (.poll index))) {t : Traffic}
    {site : Site} (before : List Flight) {rest : List Flight}
    (h : P { t with site := site, flights := before ++ rest }) :
    P { t with site := (visitAll site rest).1, flights := before ++ (visitAll site rest).2 } := by
  induction rest generalizing site before with
  | nil => exact h
  | cons flight rest ih =>
    have hFirst := hPoll _ before.length h
    simp only [move, onFlight_append] at hFirst
    rw [List.append_cons] at hFirst
    have hRest := ih _ hFirst
    simp only [List.append_assoc, List.singleton_append] at hRest
    exact hRest

/-- What every look keeps is kept until no wait ends any more. -/
theorem settle_keeps (hPoll : ∀ t index, P t → P (t.move (.poll index))) {t : Traffic} (h : P t) :
    P t.settle := by
  induction t using settle.induct with
  | case1 t site flights hVisit t' hWork ih =>
    have hVisited : P t' := by
      have hAll := visitAll_keeps hPoll [] h
      simpa [hVisit] using hAll
    rw [settle]
    simp only [hVisit, hWork, if_true]
    exact ih hVisited
  | case2 t site flights hVisit hWork =>
    rw [settle]
    simp only [hVisit, hWork, if_false]
    have hAll := visitAll_keeps hPoll [] h
    simpa [hVisit] using hAll

theorem abortRest_keeps (hAbort : ∀ t index, P t → P (t.move (.abort index))) {t : Traffic}
    {id : String} {site : Site} (before : List Flight) {rest : List Flight}
    (h : P { t with site := site, flights := before ++ rest }) :
    P { t with
        site := (abortAll id site rest).1
        flights := before ++ (abortAll id site rest).2 } := by
  induction rest generalizing site before with
  | nil => exact h
  | cons flight rest ih =>
    simp only [abortAll]
    by_cases hId : flight.id = id
    · have hFirst := hAbort _ before.length h
      simp only [move, onFlight_append] at hFirst
      rw [List.append_cons] at hFirst
      have hRest := ih _ hFirst
      simp only [List.append_assoc, List.singleton_append] at hRest
      simp only [hId, if_true]
      exact hRest
    · rw [List.append_cons] at h
      have hRest := ih _ h
      simp only [List.append_assoc, List.singleton_append] at hRest
      simp only [hId, if_false]
      exact hRest

theorem abortAll_keeps (hAbort : ∀ t index, P t → P (t.move (.abort index))) {t : Traffic}
    (h : P t) (id : String) :
    P { t with
        site := (abortAll id t.site t.flights).1
        flights := (abortAll id t.site t.flights).2 } :=
  abortRest_keeps hAbort [] h

end Keeps

end Traffic

/-- What traffic can come to by moves in any order, and the requests that were sent, the earliest
first. -/
inductive Reachable (start : Traffic) : List Http.Request → Traffic → Prop where
  | start : Reachable start [] start
  | move {sent : List Http.Request} {t : Traffic} (h : Reachable start sent t) (m : Move) :
      Reachable start (sent ++ m.requests) (t.move m)

namespace Reachable

variable {start t : Traffic} {sent : List Http.Request}

/-- A move that sends nothing. -/
theorem quiet (h : Reachable start sent t) {m : Move} (hQuiet : m.requests = []) :
    Reachable start sent (t.move m) := by
  have hMove := h.move m
  rwa [hQuiet, List.append_nil] at hMove

theorem settle (h : Reachable start sent t) : Reachable start sent t.settle :=
  Traffic.settle_keeps (fun _ index h => h.quiet (m := .poll index) rfl) h

theorem abortAll (h : Reachable start sent t) (id : String) :
    Reachable start sent
      { t with
        site := (Traffic.abortAll id t.site t.flights).1
        flights := (Traffic.abortAll id t.site t.flights).2 } :=
  Traffic.abortAll_keeps (fun _ index h => h.quiet (m := .abort index) rfl) h id

theorem fire (h : Reachable start sent t) (now : Nat) :
    Reachable start sent (Traffic.fire now t) :=
  settle (h.quiet (m := .clock now) rfl)

theorem runUntil (h : Reachable start sent t) (now target : Nat) :
    Reachable start sent (Clock.runUntil Traffic.due Traffic.fire now target t) :=
  Clock.runUntil_keeps (P := Reachable start sent) (fun now _ h => h.fire now) h now target

/-- A whole step is a sequence of moves. -/
theorem perform (h : Reachable start sent t) (moment : Nat) (step : Traffic.Step) :
    Reachable start (sent ++ step.requests t) (t.perform moment step).2 := by
  have hMoment := h.quiet (m := .calendar moment) rfl
  cases step with
  | send id r name plan =>
    exact settle (hMoment.move (.send id { r with scope := name.bind t.site.directory.find? } plan))
  | scope command =>
    simp only [Traffic.Step.requests, List.append_nil]
    exact settle (hMoment.quiet (m := .scope command) rfl)
  | readiness command =>
    simp only [Traffic.Step.requests, List.append_nil]
    exact settle (hMoment.quiet (m := .readiness command) rfl)
  | abort id =>
    simp only [Traffic.Step.requests, List.append_nil]
    exact settle (abortAll hMoment id)
  | observe =>
    simp only [Traffic.Step.requests, List.append_nil]
    exact settle (hMoment.quiet (m := .observe) rfl)
  | advance d =>
    simp only [Traffic.Step.requests, List.append_nil]
    exact runUntil hMoment _ _

end Reachable

/-! ## Requests and what is noted of them

An observer keeps a list beside that of the requests. -/

section Beside

variable {α β : Type} {P : α → β → Prop} {as : List α} {bs : List β}

theorem forall₂_concat (h : List.Forall₂ P as bs) {a : α} {b : β} (hNew : P a b) :
    List.Forall₂ P (as ++ [a]) (bs ++ [b]) :=
  List.rel_append h (.cons hNew .nil)

theorem exists_beside (h : List.Forall₂ P as bs) {i : Nat} {b : β} (hb : bs[i]? = some b) :
    ∃ a, as[i]? = some a ∧ P a b := by
  induction h generalizing i with
  | nil => cases hb
  | cons hHead _ ih =>
    cases i with
    | zero =>
      cases hb
      exact ⟨_, rfl, hHead⟩
    | succ i => exact ih hb

theorem forall₂_modify (h : List.Forall₂ P as bs) {i : Nat} {u : α → α} {v : β → β}
    (hHere : ∀ a b, as[i]? = some a → bs[i]? = some b → P (u a) (v b)) :
    List.Forall₂ P (as.modify i u) (bs.modify i v) := by
  induction h generalizing i with
  | nil => cases i <;> exact .nil
  | cons hHead hTail ih =>
    cases i with
    | zero => exact .cons (hHere _ _ rfl rfl) hTail
    | succ i => exact .cons hHead (ih hHere)

theorem forall₂_set (h : List.Forall₂ P as bs) {i : Nat} {a : α} {b : β}
    (ha : as[i]? = some a) (hHere : P a b) : List.Forall₂ P as (bs.set i b) := by
  have hModified := forall₂_modify h (i := i) (u := id) (v := fun _ => b) ?_
  · rwa [List.modify_id, ← List.set_eq_modify] at hModified
  · intro a' _ ha' _
    rw [ha] at ha'
    cases ha'
    exact hHere

end Beside

end Gatehouse.Pipeline
