import Gatehouse.Proofs.Pipeline.Moves
import Gatehouse.Proofs.Pipeline.Quiet

/-!
# Traffic in time

Between two looks at a request anything may happen around it: scopes are made and cancelled, other
requests are sent, looked at and dropped. Only the clock is held up. It does not go on while a
request has something left to do, nor past a timer of a request. Requests come under scopes that
have a name, or under none.

* `Traffic.Course`: any number of moves, each made at a site.
* `Traffic.Apart`: a token that belongs to one request is held by no other one.
* `Course.apart`, `Course.onward`, `Course.keeps_ended`: what stays in a course.
* `Later.perform`: a whole step, with everything that follows from it, is a course.
-/

namespace Gatehouse.Pipeline

namespace Traffic

/-- What may happen next. The clock goes on when no request has anything to do, and not past a timer
of theirs. A request comes under a scope that has a name, or under none. -/
def Admits (t : Traffic) : Move → Prop
  | .clock now =>
    t.site.now ≤ now ∧ t.Settled ∧
      ∀ f ∈ t.flights, f.isPending = true → ∀ timer ∈ f.due, now ≤ timer
  | .send _ r _ => ∀ scope ∈ r.scope, ∃ name, (name, scope) ∈ t.site.directory.named
  | _ => True

/-- What some traffic can come to, with the moves on the way and the sites they were made at. -/
inductive Course (begun : Traffic) : List (Site × Move) → Traffic → Prop where
  | begun : Course begun [] begun
  | move {history : List (Site × Move)} {t : Traffic} (h : Course begun history t) (m : Move)
      (hAdmits : t.Admits m) : Course begun (history ++ [(t.site, m)]) (t.move m)

/-- What can come of some traffic later on. -/
def Later (begun t : Traffic) : Prop := ∃ history, Course begun history t

/-- A token is kept by the request at some place for itself, if there is such a token: neither
another request has it nor a name. -/
structure Apart (kept : Option Nat) (index : Nat) (t : Traffic) : Prop where
  site : t.site.Apart kept
  flights : ∀ (i : Nat) (f : Flight), t.flights[i]? = some f →
    f.Apart (if i = index then none else kept) t.site

variable {begun p t : Traffic} {history : List (Site × Move)} {kept : Option Nat} {index : Nat}

/-! ## One request -/

theorem onFlight_of_some {i : Nat} {f : Flight} (hFlight : t.flights[i]? = some f)
    (op : Flight → Site → Site × Flight) :
    t.onFlight i op =
      { t with site := (op f t.site).1, flights := t.flights.set i (op f t.site).2 } := by
  unfold onFlight
  rw [hFlight]

theorem onFlight_of_none {i : Nat} (hFlight : t.flights[i]? = none)
    (op : Flight → Site → Site × Flight) : t.onFlight i op = t := by
  unfold onFlight
  rw [hFlight]

theorem onFlight_getElem?_self {i : Nat} {f : Flight} (hFlight : t.flights[i]? = some f)
    (op : Flight → Site → Site × Flight) :
    (t.onFlight i op).flights[i]? = some (op f t.site).2 := by
  obtain ⟨hIndex, -⟩ := List.getElem?_eq_some_iff.mp hFlight
  rw [onFlight_of_some hFlight]
  exact List.getElem?_set_self hIndex

theorem onFlight_getElem?_ne {i j : Nat} (hNe : i ≠ j) (op : Flight → Site → Site × Flight) :
    (t.onFlight i op).flights[j]? = t.flights[j]? := by
  unfold onFlight
  split
  · rfl
  · exact List.getElem?_set_ne hNe

/-- What does nothing to a request does nothing. -/
theorem onFlight_eq_self {i : Nat} {op : Flight → Site → Site × Flight}
    (h : ∀ f, t.flights[i]? = some f → op f t.site = (t.site, f)) : t.onFlight i op = t := by
  cases hFlight : t.flights[i]? with
  | none => exact onFlight_of_none hFlight op
  | some f =>
    obtain ⟨hIndex, rfl⟩ := List.getElem?_eq_some_iff.mp hFlight
    rw [onFlight_of_some hFlight, h _ hFlight, List.set_getElem_self]

/-- What a look at a request makes of the traffic. -/
theorem move_poll_of_some {f : Flight} {x : Site × Flight} (hFlight : t.flights[index]? = some f)
    (hPoll : f.poll t.site = x) :
    (t.move (.poll index)).site = x.1 ∧ (t.move (.poll index)).flights[index]? = some x.2 := by
  subst hPoll
  exact ⟨congrArg Traffic.site (onFlight_of_some hFlight Flight.poll),
    onFlight_getElem?_self hFlight Flight.poll⟩

/-- Only a look of its own, or its caller, does anything to a request. -/
theorem move_getElem? {f : Flight} (hFlight : t.flights[index]? = some f) (m : Move) :
    (t.move m).flights[index]? = some f ∨ m = .poll index ∨ m = .abort index := by
  obtain ⟨hIndex, -⟩ := List.getElem?_eq_some_iff.mp hFlight
  cases m with
  | clock | calendar | scope | readiness | observe => exact .inl hFlight
  | send id r plan => exact .inl ((List.getElem?_append_left hIndex).trans hFlight)
  | poll i =>
    by_cases hMine : i = index
    · exact .inr (.inl (by rw [hMine]))
    · exact .inl ((onFlight_getElem?_ne hMine _).trans hFlight)
  | abort i =>
    by_cases hMine : i = index
    · exact .inr (.inr (by rw [hMine]))
    · exact .inl ((onFlight_getElem?_ne hMine _).trans hFlight)

theorem abort_of_not_pending {f : Flight} (hEnded : f.isPending = false) (s : Site) :
    f.abort s = (s, f) := by
  simp [Flight.abort, hEnded]

/-- Nothing happens to a request that has ended. -/
theorem move_of_ended {f : Flight} (hFlight : t.flights[index]? = some f)
    (hEnded : f.isPending = false) :
    t.move (.poll index) = t ∧ t.move (.abort index) = t := by
  have hSelf : ∀ op : Flight → Site → Site × Flight, op f t.site = (t.site, f) →
      t.onFlight index op = t := by
    intro op hOp
    refine onFlight_eq_self fun g hg => ?_
    obtain rfl := Option.some.inj (hFlight.symm.trans hg)
    exact hOp
  exact ⟨hSelf _ (Flight.poll_of_not_pending hEnded _).1, hSelf _ (abort_of_not_pending hEnded _)⟩

theorem keeps_ended_move {f : Flight} (hFlight : t.flights[index]? = some f)
    (hEnded : f.isPending = false) (m : Move) : (t.move m).flights[index]? = some f := by
  obtain ⟨hPoll, hAbort⟩ := move_of_ended hFlight hEnded
  rcases move_getElem? hFlight m with hSame | rfl | rfl
  · exact hSame
  · rw [hPoll]
    exact hFlight
  · rw [hAbort]
    exact hFlight

/-! ## What is kept for one request -/

/-- Where nothing is kept, it does not matter for whom. -/
theorem Apart.at (h : t.Apart none index) (other : Nat) : t.Apart none other := by
  refine ⟨h.site, fun i f hFlight => ?_⟩
  have hFits := h.flights i f hFlight
  rw [ite_self] at hFits ⊢
  exact hFits

theorem Apart.of_site (h : t.Apart kept index) {s : Site} (hSite : s.Apart kept)
    (hIssued : t.site.issued ≤ s.issued)
    (hGate : s.gates.bulkhead.isSome = t.site.gates.bulkhead.isSome) :
    ({ t with site := s } : Traffic).Apart kept index :=
  ⟨hSite, fun i f hFlight => (h.flights i f hFlight).mono hIssued hGate⟩

/-- The shared state has changed in what has nothing to do with scopes. -/
theorem Apart.of_directory (h : t.Apart kept index) {s : Site}
    (hDirectory : s.directory = t.site.directory)
    (hGate : s.gates.bulkhead.isSome = t.site.gates.bulkhead.isSome) :
    ({ t with site := s } : Traffic).Apart kept index := by
  have hIssued : s.issued = t.site.issued := by
    unfold Site.issued
    rw [hDirectory]
  refine h.of_site ⟨?_, ?_, ?_⟩ (Nat.le_of_eq hIssued.symm) hGate
  · rw [hIssued]
    exact h.site.keptMade
  · unfold Site.cancelled
    rw [hIssued, hDirectory]
    exact h.site.cancelled
  · rw [hIssued, hDirectory]
    exact h.site.named

/-- Something is done to a request. If it is the one that keeps a token for itself, it goes on to
wait. -/
theorem Apart.onFlight (h : t.Apart kept index) {i : Nat} {op : Flight → Site → Site × Flight}
    (hOp : ∀ {kept f}, f.Apart kept t.site → t.site.Apart kept → Looked kept t.site (op f t.site))
    (hOwn : i = index → kept = none ∨
      ∀ f, t.flights[i]? = some f → (op f t.site).1.cancelled = t.site.cancelled) :
    (t.onFlight i op).Apart kept index := by
  cases hFlight : t.flights[i]? with
  | none =>
    rw [onFlight_of_none hFlight]
    exact h
  | some f =>
    have hFits := h.flights i f hFlight
    obtain ⟨hLooked, hSite⟩ : Looked (if i = index then none else kept) t.site (op f t.site) ∧
        (op f t.site).1.Apart kept := by
      by_cases hMine : i = index
      · rw [if_pos hMine] at hFits ⊢
        have hLooked := hOp hFits h.site.weaken
        refine ⟨hLooked, ?_⟩
        rcases hOwn hMine with rfl | hCalm
        · exact hLooked.site
        · exact h.site.of_calm hLooked.onward (hCalm f hFlight)
      · rw [if_neg hMine] at hFits ⊢
        have hLooked := hOp hFits h.site
        exact ⟨hLooked, hLooked.site⟩
    rw [onFlight_of_some hFlight]
    refine ⟨hSite, ?_⟩
    intro j g hg
    by_cases hSame : i = j
    · subst hSame
      obtain ⟨hIndex, -⟩ := List.getElem?_eq_some_iff.mp hFlight
      obtain rfl := Option.some.inj ((List.getElem?_set_self hIndex).symm.trans hg)
      exact hLooked.flight
    · have hBefore := h.flights j g ((List.getElem?_set_ne hSame).symm.trans hg)
      exact hBefore.mono hLooked.onward.issued hLooked.onward.gate

/-- A request that has just been sent. -/
def newcomer (t : Traffic) (id : String) (r : Http.Request) (plan : HandlerPlan) : Flight :=
  ⟨id, t.edge, r.method, plan, [], none, [], .aborted⟩

theorem send_eq (t : Traffic) (id : String) (r : Http.Request) (plan : HandlerPlan) :
    t.send id r plan =
      { t with
        site := ((t.newcomer id r plan).enter t.site r t.interceptors).1
        flights := t.flights ++ [((t.newcomer id r plan).enter t.site r t.interceptors).2] } := rfl

theorem Apart.incoming (h : t.Apart kept index) {r : Http.Request}
    (hNamed : ∀ scope ∈ r.scope, ∃ name, (name, scope) ∈ t.site.directory.named) (id : String)
    (plan : HandlerPlan) :
    Flight.Incoming kept t.site (t.newcomer id r plan) t.site r t.interceptors := by
  refine ⟨⟨h.site, nofun, .refl _, rfl⟩, ?_⟩
  intro scope hScope
  obtain ⟨name, hMem⟩ := hNamed scope hScope
  exact h.site.named _ hMem

theorem Apart.send (h : t.Apart kept index) {r : Http.Request}
    (hNamed : ∀ scope ∈ r.scope, ∃ name, (name, scope) ∈ t.site.directory.named) (id : String)
    (plan : HandlerPlan) : (t.send id r plan).Apart kept index := by
  have hLooked := Flight.looked_enter (h.incoming hNamed id plan)
  rw [send_eq]
  refine ⟨hLooked.site, ?_⟩
  intro i f hf
  rcases Nat.lt_or_ge i t.flights.length with hOld | hNew
  · rw [List.getElem?_append_left hOld] at hf
    exact (h.flights i f hf).mono hLooked.onward.issued hLooked.onward.gate
  · have hMem := List.mem_singleton.mp
      (List.mem_of_getElem? ((List.getElem?_append_right hNew).symm.trans hf))
    rw [hMem]
    split
    · exact hLooked.flight.weaken
    · exact hLooked.flight

theorem Apart.observe (h : t.Apart kept index) : (t.move .observe).Apart kept index := by
  refine h.of_directory ?_ ?_
  all_goals
    unfold Traffic.observe
    split <;> rfl

/-- Every move leaves the token to the request that keeps it, as long as this request waits. -/
theorem Apart.move (h : t.Apart kept index) {m : Move} (hAdmits : t.Admits m)
    (hOwn : m = .poll index → kept = none ∨
      ∀ f, t.flights[index]? = some f → (f.poll t.site).2.isPending = true) :
    (t.move m).Apart kept index := by
  cases m with
  | clock now | calendar moment => exact h.of_directory rfl rfl
  | readiness command => exact h.of_directory rfl rfl
  | observe => exact h.observe
  | scope command =>
    exact h.of_site (h.site.perform command) (Site.issued_le_perform t.site command) rfl
  | send id r plan => exact h.send hAdmits id plan
  | poll i =>
    refine h.onFlight Flight.looked_poll ?_
    rintro rfl
    rcases hOwn rfl with hNone | hPending
    · exact .inl hNone
    · refine .inr fun f hf => ?_
      have hFits := h.flights i f hf
      rw [if_pos rfl] at hFits
      exact (Flight.looked_poll hFits h.site.weaken).calm (hPending f hf)
  | abort i =>
    refine h.onFlight Flight.looked_abort ?_
    rintro rfl
    exact .inr fun f _ => (Flight.still_abort f t.site).cancelled

/-! ## What stays in a course -/

/-- The clock goes on, and tokens stay cancelled. -/
structure Onward (t t' : Traffic) : Prop where
  now : t.site.now ≤ t'.site.now
  cancelled : t.site.cancelled ⊆ t'.site.cancelled

theorem Onward.trans {t' t'' : Traffic} (h : Onward t t') (h' : Onward t' t'') : Onward t t'' :=
  ⟨Nat.le_trans h.now h'.now, List.Subset.trans h.cancelled h'.cancelled⟩

/-- Only the clock makes time pass, and nothing takes a cancellation back. -/
theorem Apart.move_site (h : t.Apart none index) {m : Move} (hAdmits : t.Admits m) :
    ((t.move m).site.now = t.site.now ∨ ∃ now, m = .clock now) ∧
      t.site.cancelled ⊆ (t.move m).site.cancelled := by
  have hLook : ∀ (i : Nat) (op : Flight → Site → Site × Flight),
      (∀ {f}, f.Apart none t.site → Looked none t.site (op f t.site)) →
        (t.onFlight i op).site.now = t.site.now ∧
          t.site.cancelled ⊆ (t.onFlight i op).site.cancelled := by
    intro i op hOp
    cases hFlight : t.flights[i]? with
    | none =>
      rw [onFlight_of_none hFlight]
      exact ⟨rfl, List.Subset.refl _⟩
    | some f =>
      have hFits := h.flights i f hFlight
      rw [ite_self] at hFits
      rw [onFlight_of_some hFlight]
      exact ⟨(hOp hFits).onward.now, (hOp hFits).onward.cancelled⟩
  cases m with
  | clock now => exact ⟨.inr ⟨now, rfl⟩, List.Subset.refl _⟩
  | calendar | readiness => exact ⟨.inl rfl, List.Subset.refl _⟩
  | observe =>
    simp only [Traffic.move, Traffic.observe]
    split <;> exact ⟨.inl rfl, List.Subset.refl _⟩
  | scope command =>
    exact ⟨.inl rfl, t.site.directory.cancelled_perform t.site.now command⟩
  | send id r plan =>
    have hLooked := Flight.looked_enter (h.incoming hAdmits id plan)
    exact ⟨.inl hLooked.onward.now, hLooked.onward.cancelled⟩
  | poll i =>
    have hPoll := hLook i Flight.poll fun hFits => Flight.looked_poll hFits h.site
    exact ⟨.inl hPoll.1, hPoll.2⟩
  | abort i =>
    have hAbort := hLook i Flight.abort fun hFits => Flight.looked_abort hFits h.site
    exact ⟨.inl hAbort.1, hAbort.2⟩

theorem Apart.onward (h : t.Apart none index) {m : Move} (hAdmits : t.Admits m) :
    Onward t (t.move m) := by
  obtain ⟨hNow, hCancelled⟩ := h.move_site hAdmits
  refine ⟨?_, hCancelled⟩
  rcases hNow with hSame | ⟨now, rfl⟩
  · exact Nat.le_of_eq hSame.symm
  · exact hAdmits.1

/-- The first sites have nothing that anyone could keep. -/
theorem apart_create (p : Pipeline) (edge : Edge) (gates : Gates) (mode : Config.TrafficMode)
    (index : Nat) : (create p edge (.create gates mode)).Apart none index := by
  refine ⟨⟨nofun, List.forall_mem_nil _, List.forall_mem_nil _⟩, ?_⟩
  intro i f hf
  rw [create, List.getElem?_nil] at hf
  cases hf

namespace Course

theorem trans {history' : List (Site × Move)} (h : Course begun history p)
    (h' : Course p history' t) : Course begun (history ++ history') t := by
  induction h' with
  | begun => rwa [List.append_nil]
  | move _ m hAdmits ih =>
    have hStep := ih.move m hAdmits
    rwa [List.append_assoc] at hStep

theorem apart (h : Course begun history t) (hBegun : begun.Apart none index) :
    t.Apart none index := by
  induction h with
  | begun => exact hBegun
  | move _ m hAdmits ih => exact ih.move hAdmits fun _ => .inl rfl

theorem onward (h : Course begun history t) (hBegun : begun.Apart none index) : Onward begun t := by
  induction h with
  | begun => exact ⟨Nat.le_refl _, List.Subset.refl _⟩
  | move h m hAdmits ih => exact ih.trans ((h.apart hBegun).onward hAdmits)

/-- A request that has ended stays as it is. -/
theorem keeps_ended (h : Course begun history t) {f : Flight}
    (hFlight : begun.flights[index]? = some f) (hEnded : f.isPending = false) :
    t.flights[index]? = some f := by
  induction h with
  | begun => exact hFlight
  | move _ m _ ih => exact keeps_ended_move ih hEnded m

end Course

/-! ## Whole steps -/

namespace Later

theorem refl (t : Traffic) : Later t t := ⟨[], .begun⟩

theorem move (h : Later begun t) (m : Move) (hAdmits : t.Admits m) : Later begun (t.move m) := by
  obtain ⟨history, hCourse⟩ := h
  exact ⟨_, hCourse.move m hAdmits⟩

theorem trans (h : Later begun p) (h' : Later p t) : Later begun t := by
  obtain ⟨history, hCourse⟩ := h
  obtain ⟨history', hCourse'⟩ := h'
  exact ⟨_, hCourse.trans hCourse'⟩

theorem apart (h : Later begun t) (hBegun : begun.Apart none index) : t.Apart none index := by
  obtain ⟨history, hCourse⟩ := h
  exact hCourse.apart hBegun

theorem onward (h : Later begun t) (hBegun : begun.Apart none index) : Onward begun t := by
  obtain ⟨history, hCourse⟩ := h
  exact hCourse.onward hBegun

theorem keeps_ended (h : Later begun t) {f : Flight} (hFlight : begun.flights[index]? = some f)
    (hEnded : f.isPending = false) : t.flights[index]? = some f := by
  obtain ⟨history, hCourse⟩ := h
  exact hCourse.keeps_ended hFlight hEnded

/-- A step, and what follows from it at the same instant, takes no time. -/
structure At (begun : Traffic) (now : Nat) (t : Traffic) : Prop where
  later : Later begun t
  now : t.site.now = now

theorem At.move {now : Nat} (h : At begun now t) (hBegun : begun.Apart none 0) (m : Move)
    (hAdmits : t.Admits m) (hClock : ∀ now, m ≠ .clock now) : At begun now (t.move m) := by
  refine ⟨h.later.move m hAdmits, ?_⟩
  rcases ((h.later.apart hBegun).move_site hAdmits).1 with hSame | ⟨then_, rfl⟩
  · exact hSame.trans h.now
  · exact absurd rfl (hClock then_)

theorem At.settle {now : Nat} (h : At begun now t) (hBegun : begun.Apart none 0) :
    At begun now t.settle :=
  settle_keeps (fun _ index h => h.move hBegun (.poll index) trivial nofun) h

theorem At.abortAll {now : Nat} (h : At begun now t) (hBegun : begun.Apart none 0) (id : String) :
    At begun now
      { t with
        site := (Traffic.abortAll id t.site t.flights).1
        flights := (Traffic.abortAll id t.site t.flights).2 } :=
  abortAll_keeps (fun _ index h => h.move hBegun (.abort index) trivial nofun) h id

end Later

/-- Where nobody has anything to do, every timer is ahead. -/
theorem Settled.due_gt (h : t.Settled) (hApart : t.Apart none 0) {timer : Nat}
    (hDue : t.due = some timer) : t.site.now < timer := by
  obtain ⟨hOwn, -⟩ := Clock.earliest_spec hDue
  obtain ⟨f, hMem, hTimer⟩ := List.mem_map.mp hOwn
  obtain ⟨i, hFlight⟩ := List.mem_iff_getElem?.mp hMem
  have hFits := hApart.flights i f hFlight
  cases hPending : f.isPending with
  | true => exact (h f hMem).due_gt hPending hFits.line hTimer
  | false =>
    have hNone : f.due = none := by
      unfold Flight.isPending at hPending
      unfold Flight.due
      rw [hFits.closed hPending]
      cases hActivity : f.activity <;> simp_all [Clock.earlier, Clock.earliest]
    rw [hNone] at hTimer
    cases hTimer

theorem due_le {f : Flight} (hMem : f ∈ t.flights) {timer : Nat} (hTimer : f.due = some timer) :
    ∃ first ∈ t.due, first ≤ timer := by
  have hListed : some timer ∈ t.flights.map Flight.due := List.mem_map.mpr ⟨f, hMem, hTimer⟩
  cases hFirst : t.due with
  | none => cases Clock.earliest_eq_none.mp hFirst _ hListed
  | some first => exact ⟨first, rfl, (Clock.earliest_spec hFirst).2 timer hListed⟩

/-- The clock may go on to the next timer of all requests. -/
theorem Settled.admits_clock (h : t.Settled) (hApart : t.Apart none 0) {now : Nat}
    (hAhead : t.site.now ≤ now) (hDue : ∀ timer ∈ t.due, timer ≤ t.site.now ∨ now ≤ timer) :
    t.Admits (.clock now) := by
  refine ⟨hAhead, h, ?_⟩
  intro f hMem _ timer hTimer
  obtain ⟨first, hFirst, hBefore⟩ := due_le hMem hTimer
  have hLater := h.due_gt hApart hFirst
  rcases hDue first hFirst with hPast | hNext <;> omega

namespace Later

/-- What the clock finds at an instant: settled traffic, where the calendar may have gone on. -/
def Ready (begun : Traffic) (moment now : Nat) (t : Traffic) : Prop :=
  ∃ p, At begun now p ∧ p.Settled ∧ (t = p ∨ t = p.move (.calendar moment))

theorem Ready.fire {moment now next : Nat} (h : Ready begun moment now t)
    (hBegun : begun.Apart none 0) (hAhead : now ≤ next)
    (hDue : ∀ timer ∈ t.due, timer ≤ now ∨ next ≤ timer) :
    At begun next (Traffic.fire next t) ∧ (Traffic.fire next t).Settled := by
  obtain ⟨p, ⟨hLater, rfl⟩, hSettled, hSame⟩ := h
  have hTimers : t.due = p.due := by rcases hSame with rfl | rfl <;> rfl
  rw [hTimers] at hDue
  have hAdmits := hSettled.admits_clock (hLater.apart hBegun) hAhead hDue
  have hMoved : At begun next (p.move (.clock next)) := ⟨hLater.move _ hAdmits, rfl⟩
  refine ⟨?_, settled_settle _⟩
  rcases hSame with rfl | rfl
  · exact hMoved.settle hBegun
  · exact (hMoved.move hBegun (.calendar moment) trivial nofun).settle hBegun

/-- A whole step, with everything that follows from it, is a course. -/
theorem perform (h : Later begun t) (hBegun : begun.Apart none 0) (hSettled : t.Settled)
    (moment : Nat) (step : Step) :
    Later begun (t.perform moment step).2 ∧ (t.perform moment step).2.Settled := by
  have hHere : At begun t.site.now t := ⟨h, rfl⟩
  have hMoment := hHere.move hBegun (.calendar moment) trivial nofun
  cases step with
  | scope command =>
    have hMove := hMoment.move hBegun (.scope command) trivial nofun
    exact ⟨(hMove.settle hBegun).later, settled_settle _⟩
  | readiness command =>
    have hMove := hMoment.move hBegun (.readiness command) trivial nofun
    exact ⟨(hMove.settle hBegun).later, settled_settle _⟩
  | send id r name plan =>
    have hNamed : (t.move (.calendar moment)).Admits
        (.send id { r with scope := name.bind t.site.directory.find? } plan) := by
      intro scope hScope
      obtain ⟨name, -, hFind⟩ := Option.bind_eq_some_iff.mp hScope
      obtain ⟨x, hx, rfl⟩ := Option.map_eq_some_iff.mp hFind
      exact ⟨x.1, List.mem_reverse.mp (List.mem_of_find?_eq_some hx)⟩
    have hMove := hMoment.move hBegun _ hNamed nofun
    exact ⟨(hMove.settle hBegun).later, settled_settle _⟩
  | abort id => exact ⟨((hMoment.abortAll hBegun id).settle hBegun).later, settled_settle _⟩
  | observe =>
    have hMove := hMoment.move hBegun .observe trivial nofun
    exact ⟨(hMove.settle hBegun).later, settled_settle _⟩
  | advance d =>
    have hFire : ∀ now next t, now ≤ next → (∀ timer ∈ due t, timer ≤ now ∨ next ≤ timer) →
        Ready begun moment now t → Ready begun moment next (fire next t) := by
      intro now next t hAhead hDue hReady
      obtain ⟨hAt, hQuiet⟩ := hReady.fire hBegun hAhead hDue
      exact ⟨_, hAt, hQuiet, .inl rfl⟩
    have hReady : Ready begun moment t.site.now (t.move (.calendar moment)) :=
      ⟨t, hHere, hSettled, .inr rfl⟩
    obtain ⟨p, ⟨hReached, -⟩, -, hSame⟩ :=
      Clock.runUntil_onward hFire (Nat.le_add_right t.site.now d) hReady
    obtain ⟨last, hLast⟩ := Clock.runUntil_ends due fire t.site.now (t.site.now + d)
      (t.move (.calendar moment))
    have hResult : (t.perform moment (.advance d)).2 =
        Clock.runUntil due fire t.site.now (t.site.now + d) (t.move (.calendar moment)) := rfl
    rw [hResult]
    refine ⟨?_, ?_⟩
    · rcases hSame with hSame | hSame
      · rw [hSame]
        exact hReached
      · rw [hSame]
        exact hReached.move _ trivial
    · rw [hLast]
      exact settled_settle _

/-- Any number of steps. -/
theorem run (h : Later begun t) (hBegun : begun.Apart none 0) (hSettled : t.Settled)
    (steps : List (Nat × Step)) :
    Later begun (steps.foldl (fun t step => (t.perform step.1 step.2).2) t) := by
  induction steps generalizing t with
  | nil => exact h
  | cons step steps ih =>
    obtain ⟨hStep, hThen⟩ := h.perform hBegun hSettled step.1 step.2
    exact ih hStep hThen

end Later

end Traffic

end Gatehouse.Pipeline
