import Gatehouse.Proofs.Pipeline.Assembly
import Gatehouse.Proofs.Pipeline.Holdings
import Gatehouse.Proofs.Pipeline.Moves
import Mathlib.Data.List.Perm.Basic

/-!
# The slots of the bulkhead are those of the requests inside

Through a pipeline of usual stages, each of them at most once, go any requests in any
interleaving. At every instant the bulkhead counts as many slots as there are requests past its
stage that are not probes, and no more than it has. Once every request has ended, no slot is held
or promised and no trial of the breaker is under way.

* `Sound`: the invariant, over the gates and all requests.
* `sound_move`, `sound_reachable`: a move, and moves in any order.
* `in_flight_eq_inside`: what the gates hold at every instant.
-/

namespace Gatehouse.Pipeline

/-- Gates that nobody has been through. -/
structure Gates.Fresh (g : Gates) : Prop where
  bulkhead : ∀ b, g.bulkhead = some b →
    b.inFlight = 0 ∧ b.available = b.capacity ∧ b.reserved = [] ∧ b.waiting = []
  breaker : ∀ c, g.breaker = some c → c.machine.trialsInFlight = 0

/-- Whether a request has passed every stage and is being worked on. -/
def Flight.inHandler (f : Flight) : Bool :=
  match f.activity with
  | .awaitingEnd _ => true
  | .working _ _ => true
  | _ => false

/-- The requests in their handlers that are not probes. -/
def inside (sent : List Http.Request) (flights : List Flight) : Nat :=
  (sent.zip flights).countP fun (r, f) => !Http.isProbePath r.path && f.inHandler

/-! ## The invariant -/

/-- Every request is in its place, and the gates are told of what all of them hold. -/
structure Sound (capacity? : Option Nat) (stages : List Interceptor) (sent : List Http.Request)
    (t : Traffic) : Prop where
  interceptors : t.interceptors = stages
  balanced : t.site.Balanced capacity? (t.flights.flatMap Flight.frames)
    (t.flights.flatMap Flight.tickets)
  placed : List.Forall₂ (fun r f =>
    Flight.Placed capacity?.isSome (slotsAhead capacity?.isSome r stages) f) sent t.flights

variable {capacity? : Option Nat} {stages : List Interceptor} {sent : List Http.Request}
  {t : Traffic}

theorem Sound.of_site (h : Sound capacity? stages sent t) {site : Site}
    (hSite : site.Balanced capacity? (t.flights.flatMap Flight.frames)
      (t.flights.flatMap Flight.tickets)) :
    Sound capacity? stages sent { t with site := site } :=
  ⟨h.interceptors, hSite, h.placed⟩

theorem Sound.of_gates (h : Sound capacity? stages sent t) {site : Site}
    (hGates : site.gates = t.site.gates) : Sound capacity? stages sent { t with site := site } :=
  h.of_site (h.balanced.of_gates (by rw [hGates]) (by rw [hGates]))

theorem sound_observe (h : Sound capacity? stages sent t) :
    Sound capacity? stages sent (t.move .observe) := by
  have hBalanced := h.balanced
  refine h.of_site ?_
  unfold Traffic.observe
  cases hBreaker : t.site.gates.breaker with
  | none => exact hBalanced
  | some b =>
    refine ⟨hBalanced.capacity, hBalanced.bulkhead, ?_⟩
    intro c hc
    cases hc
    exact Breaker.CircuitBreaker.covered_counts
      (Breaker.CircuitBreaker.covered_state (hBalanced.breaker b hBreaker) _) _

theorem flatMap_perm {α : Type} {flights : List Flight} {index : Nat} {f : Flight}
    (h : flights[index]? = some f) (g : Flight → List α) :
    (flights.flatMap g).Perm (g f ++ (flights.eraseIdx index).flatMap g) := by
  obtain ⟨hLt, hGet⟩ := List.getElem?_eq_some_iff.mp h
  have hPerm := (List.getElem_cons_eraseIdx_perm hLt).flatMap_right g
  rw [hGet] at hPerm
  exact hPerm.symm

theorem flatMap_set_perm {α : Type} {flights : List Flight} {index : Nat}
    (h : index < flights.length) (f : Flight) (g : Flight → List α) :
    ((flights.set index f).flatMap g).Perm (g f ++ (flights.eraseIdx index).flatMap g) :=
  (List.set_perm_cons_eraseIdx h f).flatMap_right g

/-- What keeps account of one request keeps account of all. -/
theorem sound_onFlight (h : Sound capacity? stages sent t) (index : Nat)
    {op : Flight → Site → Site × Flight}
    (hOp : ∀ {whole frames tickets f s}, Accounted capacity? whole frames tickets (s, f) →
      Accounted capacity? whole frames tickets (op f s)) :
    Sound capacity? stages sent (t.onFlight index op) := by
  unfold Traffic.onFlight
  cases hFlight : t.flights[index]? with
  | none => exact h
  | some f =>
    obtain ⟨r, hSent, hPlaced⟩ := exists_beside h.placed hFlight
    have hIndex := (List.getElem?_eq_some_iff.mp hFlight).1
    have hBefore := h.balanced.perm (flatMap_perm hFlight _) (flatMap_perm hFlight _)
    have hAfter := hOp ⟨hBefore, hPlaced⟩
    refine ⟨h.interceptors, ?_, ?_⟩
    · exact hAfter.balanced.perm (flatMap_set_perm hIndex _ _).symm
        (flatMap_set_perm hIndex _ _).symm
    · exact forall₂_set h.placed hSent hAfter.placed

theorem sound_send (h : Sound capacity? stages sent t) (id : String) (r : Http.Request)
    (plan : HandlerPlan) : Sound capacity? stages (sent ++ [r]) (t.send id r plan) := by
  have hNew : Accounted capacity? (slotsAhead capacity?.isSome r stages)
      (t.flights.flatMap Flight.frames) (t.flights.flatMap Flight.tickets)
      (Flight.enter ⟨id, t.edge, r.method, plan, [], none, [], .aborted⟩ t.site r
        t.interceptors) := by
    refine Flight.accounted_enter ⟨h.balanced, ?_⟩
    rw [h.interceptors]
    exact Nat.zero_add _
  refine ⟨h.interceptors, ?_, forall₂_concat h.placed hNew.placed⟩
  refine hNew.balanced.perm ?_ ?_
  all_goals
    simp only [Traffic.send, List.flatMap_append, List.flatMap_cons, List.flatMap_nil,
      List.append_nil]
    exact List.perm_append_comm

/-- The step lemma: every move keeps the books. -/
theorem sound_move (h : Sound capacity? stages sent t) (m : Move) :
    Sound capacity? stages (sent ++ m.requests) (t.move m) := by
  cases m with
  | send id r plan => exact sound_send h id r plan
  | poll index =>
    rw [Move.requests, List.append_nil]
    · exact sound_onFlight h index Flight.accounted_poll
    · simp
  | abort index =>
    rw [Move.requests, List.append_nil]
    · exact sound_onFlight h index Flight.accounted_abort
    · simp
  | observe =>
    rw [Move.requests, List.append_nil]
    · exact sound_observe h
    · simp
  | clock | calendar | scope | readiness =>
    rw [Move.requests, List.append_nil]
    · exact h.of_gates rfl
    · simp

theorem sound_reachable {start : Traffic} (hStart : Sound capacity? stages [] start)
    (h : Reachable start sent t) : Sound capacity? stages sent t := by
  induction h with
  | start => exact hStart
  | move _ m ih => exact sound_move ih m

/-! ## The requests inside -/

/-- Of one bulkhead stage, a request holds a slot exactly in its handler, unless it is a probe. -/
theorem slots_eq {r : Http.Request} {f : Flight} (hOne : stages.countP Interceptor.isBulkhead = 1)
    (h : f.Placed true (slotsAhead true r stages)) :
    f.slots = if !Http.isProbePath r.path && f.inHandler then 1 else 0 := by
  have hAhead : slotsAhead true r stages = if !Http.isProbePath r.path then 1 else 0 := by
    simp [slotsAhead, hOne]
  unfold Flight.Placed at h
  rw [hAhead] at h
  unfold Flight.inHandler
  cases hActivity : f.activity with
  | queued ticket deadline scope rest r' =>
    simp only [hActivity] at h
    split at h
    · simp only [Bool.and_false, Bool.false_eq_true, if_false]
      omega
    · omega
  | awaitingEnd scope =>
    simp only [hActivity] at h
    simpa using h
  | working done scope =>
    simp only [hActivity] at h
    simpa using h
  | ended at_ completion =>
    simp only [hActivity] at h
    simp [Flight.slots, h]
  | aborted =>
    simp only [hActivity] at h
    simp [Flight.slots, h]

theorem countP_slots_eq_inside (hOne : stages.countP Interceptor.isBulkhead = 1)
    {flights : List Flight}
    (h : List.Forall₂ (fun r f => Flight.Placed true (slotsAhead true r stages) f) sent flights) :
    (flights.flatMap Flight.frames).countP Frame.isSlot = inside sent flights := by
  induction h with
  | nil => rfl
  | cons hPlaced _ ih =>
    have hHead := slots_eq hOne hPlaced
    unfold Flight.slots at hHead
    rw [List.flatMap_cons, List.countP_append, ih, hHead]
    unfold inside
    rw [List.zip_cons_cons, List.countP_cons, Nat.add_comm]

/-! ## Pipelines of usual stages -/

/-- Among stages of different places there is at most one bulkhead. -/
theorem countP_bulkhead_eq_one {stages : List Interceptor}
    (hPlaces : (stages.map Interceptor.priority).Nodup) (hMem : Interceptor.bulkhead ∈ stages) :
    stages.countP Interceptor.isBulkhead = 1 := by
  have hPlace : ∀ i : Interceptor, i.isBulkhead = (i.priority == 40) := by
    intro i
    cases i <;> rfl
  have hCount : stages.countP Interceptor.isBulkhead =
      (stages.map Interceptor.priority).count 40 := by
    rw [List.count, List.countP_map]
    exact List.countP_congr fun i _ => by simp [hPlace]
  have hLe := List.nodup_iff_count_le_one.mp hPlaces 40
  have hPos : 0 < stages.countP Interceptor.isBulkhead :=
    List.countP_pos_iff.mpr ⟨_, hMem, rfl⟩
  omega

theorem countP_bulkhead_build {g : Gates} (hGate : g.bulkhead.isSome = true)
    (stages : List Interceptor) :
    (Pipeline.build (stages.map g.register)).interceptors.countP Interceptor.isBulkhead =
      stages.countP Interceptor.isBulkhead := by
  rw [(interceptors_build_perm g stages).countP_eq, List.countP_filter]
  refine List.countP_congr ?_
  intro i _
  cases i <;> simp [Interceptor.isBulkhead, Gates.provides, hGate]

theorem sound_create {site : Site} (hFresh : site.gates.Fresh) (p : Pipeline) (edge : Edge) :
    Sound (site.gates.bulkhead.map (·.capacity)) p.interceptors [] (.create p edge site) := by
  refine ⟨rfl, ⟨rfl, ?_, ?_⟩, .nil⟩
  · intro b hb
    obtain ⟨hInFlight, hAvailable, hReserved, hWaiting⟩ := hFresh.bulkhead b hb
    refine ⟨⟨?_, ?_⟩, hInFlight⟩
    · rw [hReserved, hAvailable]
      exact Nat.zero_add _
    · rw [hReserved, hWaiting]
      exact List.Perm.nil
  · intro c hc
    exact Breaker.Machine.covered_of_trialsInFlight (hFresh.breaker c hc) _

/-- A request that has ended holds nothing. -/
theorem Flight.Placed.empty {gated : Bool} {whole : Nat} {f : Flight}
    (h : f.Placed gated whole) (hEnded : f.isPending = false) :
    f.frames = [] ∧ f.tickets = [] := by
  unfold Flight.Placed at h
  unfold Flight.isPending at hEnded
  unfold Flight.tickets
  cases hActivity : f.activity with
  | queued | awaitingEnd | working =>
    rw [hActivity] at hEnded
    cases hEnded
  | ended | aborted =>
    rw [hActivity] at h
    exact ⟨h, rfl⟩

/-- Requests go in any interleaving through a pipeline of usual stages, each at most once. At every
instant the slots in use are those of the requests past the bulkhead that are not probes, and fit
into its capacity. Once no request is pending, all slots are free and no trial is under way. -/
theorem in_flight_eq_inside {site : Site} (hFresh : site.gates.Fresh) {stages : List Interceptor}
    (hPlaces : (stages.map Interceptor.priority).Nodup) {edge : Edge} {sent : List Http.Request}
    {t : Traffic}
    (h : Reachable (.create (.build (stages.map site.gates.register)) edge site) sent t) :
    (∀ b, t.site.gates.bulkhead = some b →
      (Interceptor.bulkhead ∈ stages → b.inFlight = inside sent t.flights) ∧
        b.inFlight ≤ b.capacity ∧ site.gates.bulkhead.map (·.capacity) = some b.capacity) ∧
    ((∀ f ∈ t.flights, f.isPending = false) →
      (∀ b, t.site.gates.bulkhead = some b → b.inFlight = 0 ∧ b.available = b.capacity) ∧
        ∀ c, t.site.gates.breaker = some c → c.machine.trialsInFlight = 0) := by
  have hSound := sound_reachable (sound_create hFresh _ edge) h
  refine ⟨?_, ?_⟩
  · intro b hb
    have hBulkhead := hSound.balanced.bulkhead b hb
    have hCapacity := hSound.balanced.capacity
    have hSlots := hBulkhead.slots
    rw [← hBulkhead.inFlight] at hSlots
    rw [hb, Option.map_some] at hCapacity
    refine ⟨?_, by omega, hCapacity.symm⟩
    intro hMem
    have hGate : site.gates.bulkhead.isSome = true := by
      rw [← Option.isSome_map, ← hCapacity]
      rfl
    have hOne := (countP_bulkhead_build hGate stages).trans (countP_bulkhead_eq_one hPlaces hMem)
    have hPlaced := hSound.placed
    rw [← hCapacity] at hPlaced
    rw [hBulkhead.inFlight]
    exact countP_slots_eq_inside hOne hPlaced
  · intro hEnded
    have hEmpty : ∀ f ∈ t.flights, f.frames = [] ∧ f.tickets = [] := by
      intro f hf
      obtain ⟨i, hi⟩ := List.mem_iff_getElem?.mp hf
      obtain ⟨r, -, hPlaced⟩ := exists_beside hSound.placed hi
      exact hPlaced.empty (hEnded f hf)
    have hBalanced := hSound.balanced
    rw [List.flatMap_eq_nil_iff.mpr fun f hf => (hEmpty f hf).1,
      List.flatMap_eq_nil_iff.mpr fun f hf => (hEmpty f hf).2] at hBalanced
    refine ⟨?_, ?_⟩
    · intro b hb
      have hNobody := hBalanced.bulkhead b hb
      exact ⟨hNobody.inFlight, hNobody.available_eq⟩
    · intro c hc
      exact (hBalanced.breaker c hc).trialsInFlight_eq

def narrow : Site :=
  .create ⟨none, some (.create "orders" ⟨1, 10, 1, none⟩ 0), some ⟨1, 5, 1, 0, [], [], 0⟩⟩ .standalone

def narrowStages : List Interceptor :=
  [.panicRecovery, .timeout 20, .circuitBreaker, .bulkhead, .requestLogging]

def getFor (path : String) : Http.Request := ⟨"GET", path, [], none, none⟩

def workFor (duration : Nat) (result : HandlerResult) : HandlerPlan :=
  ⟨false, false, duration, false, result⟩

/-- The handler of the first request panics, which hands its slot to the second; a probe is
dropped by its caller, and the breaker turns the last request away. -/
def rush : Traffic :=
  [Move.send "a" (getFor "/orders/1") (workFor 3 (.panic .other)),
    .send "b" (getFor "/orders/2") (workFor 4 (.response ⟨200, [], .text ""⟩)),
    .send "p" (getFor "/livez") (workFor 9 (.response ⟨200, [], .text ""⟩)),
    .clock 3, .poll 0, .poll 1, .abort 2,
    .send "c" (getFor "/orders/3") (workFor 1 (.response ⟨200, [], .text ""⟩))].foldl Traffic.move
    ⟨narrowStages, .direct, narrow, []⟩

def rushed : List Http.Request :=
  [getFor "/orders/1", getFor "/orders/2", getFor "/livez", getFor "/orders/3"]

theorem reachable_rush :
    Reachable (.create (.build (narrowStages.map narrow.gates.register)) .direct narrow) rushed
      rush := by
  have hStages : (Pipeline.build (narrowStages.map narrow.gates.register)).interceptors =
      narrowStages := interceptors_build_of_pairwise narrow.gates (by decide)
  unfold Traffic.create
  rw [hStages]
  exact (((((((Reachable.start.move (.send "a" _ _)).move (.send "b" _ _)).move
    (.send "p" _ _)).move (.clock 3)).move (.poll 0)).move (.poll 1)).move (.abort 2)).move
    (.send "c" _ _)

theorem in_flight_eq_inside_rush :
    ∃ b, rush.site.gates.bulkhead = some b ∧ b.inFlight = 1 ∧
      inside rushed rush.flights = 1 := by
  have hFresh : narrow.gates.Fresh := by
    refine ⟨?_, ?_⟩
    · rintro b ⟨⟩
      exact ⟨rfl, rfl, rfl, rfl⟩
    · rintro c ⟨⟩
      rfl
  obtain ⟨hBusy, -⟩ := in_flight_eq_inside hFresh (by decide) reachable_rush
  have hInside : inside rushed rush.flights = 1 := by decide +kernel
  cases hBulkhead : rush.site.gates.bulkhead with
  | none =>
    have hSome : rush.site.gates.bulkhead.isSome = true := by decide +kernel
    rw [hBulkhead] at hSome
    cases hSome
  | some b =>
    obtain ⟨hCount, -⟩ := hBusy b hBulkhead
    refine ⟨b, rfl, ?_, hInside⟩
    rw [hCount (by simp [narrowStages]), hInside]

end Gatehouse.Pipeline
