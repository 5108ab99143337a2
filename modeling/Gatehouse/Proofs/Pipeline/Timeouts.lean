import Gatehouse.Proofs.Pipeline.Arrivals

/-!
# Timeouts

A timeout stage lets a request go on under a scope of its own, which ends when the time is up or
when the scope of the caller ends. The rest of the chain goes its way as it would alone. If it has
come to something when it is looked at, the caller is given that, whatever has become of the scope;
if it has not, and the scope has ended, the rest is dropped, its scope is cancelled, and the caller
is told the cause.

* `Bound`: a request that comes to a timeout stage, with the stages behind it.
* `Bound.ended?`: when its time is over, and why.
* `Bound.Fate`: what may become of it.
* `Watched.turn`: what one look at it comes to.
* `timeout_bounds_rest`: it is answered by the rest of the chain, or when its time is over.
-/

namespace Gatehouse.Pipeline

/-- A request that comes to a timeout stage, with the stages behind it. -/
structure Bound where
  flight : Flight
  site : Site
  request : Http.Request
  limit : Nat
  rest : List Interceptor

namespace Bound

open Traffic

/-- The scope that the request has when it comes. -/
def caller (b : Bound) : Scope := (b.site.scopeOf b.request).1

/-- The scope that the stage makes below it. -/
def made (b : Bound) : Scope × Tokens :=
  b.caller.childUntil ((b.site.scopeOf b.request).2.now + b.limit)
    (b.site.scopeOf b.request).2.directory.tokens

def scope (b : Bound) : Scope := b.made.1

def inner (b : Bound) : Site := (b.site.scopeOf b.request).2.setTokens b.made.2

/-- The stage, and the stages that the request is inside of already. -/
def frames (b : Bound) : List Frame := .timeout b.limit b.scope :: b.flight.frames

/-- The request goes on through the rest of the chain. -/
def whole (b : Bound) : Site × Flight :=
  b.flight.enter b.site b.request (.timeout b.limit :: b.rest)

/-- The rest of the chain without anything around it. -/
def alone (b : Bound) : Site × Flight :=
  Flight.enter { b.flight with frames := [] } b.inner { b.request with scope := some b.scope }
    b.rest

/-- The rest of the chain after some looks at it. -/
def restAfter (b : Bound) (looks : List Site) : Flight :=
  looks.foldl (fun g s => (g.poll s).2) b.alone.2

/-- Why the time of the request is over, if it is: the scope of its caller was cancelled, or one
above that; or the deadline of that scope has come, or the limit is reached. -/
def ended? (b : Bound) (s : Site) : Option Cause :=
  if s.directory.tokens.isCancelled b.caller.token then some .cancelled
  else if Scope.passed s.now b.caller.deadline || b.site.now + b.limit ≤ s.now then
    some .deadlineExceeded
  else none

/-- The stages around are given what the rest of the chain has come to. -/
def passOn (b : Bound) (s : Site) (g : Flight) (c : Completion) : Site × Flight :=
  Flight.complete { g with frames := b.flight.frames } s c

/-- The rest of the chain is dropped and its scope cancelled, and the stages around are told the
cause. -/
def giveUp (b : Bound) (s : Site) (g : Flight) (cause : Cause) : Site × Flight :=
  Flight.reject { g with frames := b.flight.frames }
    ((discardAll (g.discardActivity s) g.frames).cancel b.scope) (.ofCause cause)
    (.debug "Request ended before handler finished"
      [("timeout_ms", .number (Duration.toMillis b.limit)), ("cause", .text cause.message)])

/-- A move by which a request comes to the stage: it is sent, or it is given the slot for which it
was waiting. Then the traffic is such that the request has gone in as far as it can. -/
inductive ComesBy (b : Bound) (t : Traffic) : Move → Nat → Traffic → Prop where
  | sent {id : String} {r : Http.Request} {plan : HandlerPlan}
      (hPasses : (t.newcomer id r plan).Passes t.site r t.interceptors
        b.flight b.site b.request (.timeout b.limit :: b.rest)) :
      ComesBy b t (.send id r plan) t.flights.length (t.send id r plan)
  | admitted {index ticket deadline : Nat} {f g : Flight} {scope : Scope} {rest : List Interceptor}
      {r r' : Http.Request} {s : Site} {bulkhead : Bulkhead} (hFlight : t.flights[index]? = some f)
      (hQueued : f.activity = .queued ticket deadline scope rest r)
      (hGate : t.site.gates.bulkhead = some bulkhead)
      (hLook : f.look t.site bulkhead ticket deadline scope rest r = .inwards g s r')
      (hPasses : g.Passes s r' rest b.flight b.site b.request (.timeout b.limit :: b.rest)) :
      ComesBy b t (.poll index) index
        { t with site := b.whole.1, flights := t.flights.set index b.whole.2 }

/-! ## In time -/

/-- At no earlier instant was the time over, and neither the limit nor the deadline of the caller
was passed over. -/
def QuietBefore (b : Bound) (begun t : Traffic) : Prop :=
  ∀ p, Later begun p → Later p t → p.site.now < t.site.now →
    b.ended? p.site = none ∧ t.site.now ≤ b.site.now + b.limit ∧
      ∀ deadline ∈ b.caller.deadline, t.site.now ≤ deadline

/-- The request waits inside of the stage, and the rest of the chain is as it would be alone after
some looks. -/
structure Waiting (b : Bound) (index : Nat) (looks : List Site) (t : Traffic) : Prop where
  flight : t.flights[index]? = some ((b.restAfter looks).within b.frames)
  pending : (b.restAfter looks).isPending = true

/-- The request has been waiting until now. -/
structure Until (b : Bound) (begun : Traffic) (index : Nat) (looks : List Site) (t : Traffic) :
    Prop where
  later : Later begun t
  waiting : b.Waiting index looks t
  quiet : b.QuietBefore begun t

/-- What may become of the request, with all the looks at it. -/
inductive Fate (b : Bound) (begun : Traffic) (index : Nat) (looks : List Site) (t : Traffic) :
    Prop where
  /-- It waits, and its time is not over, or else somebody has something to do. -/
  | waits (hUntil : b.Until begun index looks t)
      (hSettled : t.Settled → b.ended? t.site = none ∧
        (b.restAfter looks).poll t.site = (t.site, b.restAfter looks))
  /-- The rest of the chain had nothing to wait for, and the stages around were given what it came
  to. -/
  | atOnce {s : Site} {g : Flight} {c : Completion}
      (hAlone : b.alone = Flight.complete { g with frames := [] } s c)
      (hNow : s.now = b.site.now)
      (hSite : begun.site = (b.passOn s g c).1)
      (hFlight : t.flights[index]? = some (b.passOn s g c).2)
  /-- The rest of the chain had come to something by the last look, not after the time was over. The
  stages around were given that. -/
  | returns {before after : List Site} {q : Traffic} {s : Site} {g : Flight} {c : Completion}
      (hUntil : b.Until begun index before q) (hLater : Later (q.move (.poll index)) t)
      (hLooks : looks = before ++ q.site :: after)
      (hAlone : (b.restAfter before).poll q.site = Flight.complete { g with frames := [] } s c)
      (hNow : s.now = q.site.now)
      (hSite : (q.move (.poll index)).site = (b.passOn s g c).1)
      (hFlight : t.flights[index]? = some (b.passOn s g c).2)
  /-- The rest of the chain was still waiting after the last look, and the time was over, not before
  that instant. It was dropped, and nothing more happens to it. Whatever was made from its scope is
  cancelled; the scope of the caller is as it was. -/
  | expires {before after : List Site} {q : Traffic} {s : Site} {g : Flight} {cause : Cause}
      (hUntil : b.Until begun index before q) (hLater : Later (q.move (.poll index)) t)
      (hLooks : looks = before ++ q.site :: after)
      (hAlone : (b.restAfter before).poll q.site = (s, g)) (hPending : g.isPending = true)
      (hNow : s.now = q.site.now)
      (hEnded : b.ended? q.site = some cause)
      (hSite : (q.move (.poll index)).site = (b.giveUp s g cause).1)
      (hFlight : t.flights[index]? = some (b.giveUp s g cause).2)
      (hStill : t.move (.poll index) = t ∧ t.move (.abort index) = t)
      (hBelow : ∀ d, b.scope.Derived d → t.site.cause? d = some .cancelled)
      (hAbove : (q.move (.poll index)).site.cause? b.caller = q.site.cause? b.caller)
  /-- Its caller has dropped it. -/
  | dropped {before after : List Site} {q : Traffic}
      (hUntil : b.Until begun index before q) (hLater : Later (q.move (.abort index)) t)
      (hLooks : looks = before ++ after)
      (hFlight : ∃ f, t.flights[index]? = some f ∧ f.activity = .aborted)

/-! ## The scope of the rest -/

variable {b : Bound} {s s' : Site} {t t' begun p : Traffic} {index : Nat} {m : Move}
  {looks : List Site}

/-- The deadline of the scope is the limit, or that of the caller if it is earlier. -/
theorem scope_deadline (b : Bound) : ∃ deadline, b.scope.deadline = some deadline ∧
    deadline ≤ b.site.now + b.limit ∧ (∀ d ∈ b.caller.deadline, deadline ≤ d) ∧
      ∀ now, (now < deadline ↔ now < b.site.now + b.limit ∧ ∀ d ∈ b.caller.deadline, now < d) := by
  have hNow : (b.site.scopeOf b.request).2.now = b.site.now := by
    unfold Site.scopeOf
    split <;> rfl
  unfold scope made Scope.childUntil
  rw [hNow]
  cases b.caller.deadline with
  | none => simp
  | some d =>
    refine ⟨_, rfl, Nat.min_le_right _ _, ?_, fun now => ?_⟩
    · rintro _ ⟨⟩
      exact Nat.min_le_left _ _
    · simp only [Option.mem_def, Option.some.injEq, forall_eq', Nat.lt_min]
      exact and_comm

theorem ended?_eq_none :
    b.ended? s = none ↔ s.directory.tokens.isCancelled b.caller.token = false ∧
      s.now < b.site.now + b.limit ∧ ∀ d ∈ b.caller.deadline, s.now < d := by
  rw [← Scope.passed_eq_false, ended?]
  cases s.directory.tokens.isCancelled b.caller.token <;>
    cases Scope.passed s.now b.caller.deadline <;> simp

/-- The scope of the rest has ended when the time is over, as long as nobody has cancelled it. -/
theorem cause?_scope (hNot : b.scope.token.number ∉ s.cancelled) :
    s.cause? b.scope = b.ended? s := by
  obtain ⟨deadline, hDeadline, -, -, hAhead⟩ := b.scope_deadline
  have hToken : s.directory.tokens.isCancelled b.scope.token =
      s.directory.tokens.isCancelled b.caller.token := by
    have hOwn : s.directory.tokens.cancelled.contains b.scope.token.number = false := by
      rw [List.contains_eq_mem, decide_eq_false]
      exact hNot
    change (s.directory.tokens.cancelled.contains b.scope.token.number || _) = _
    rw [hOwn, Bool.false_or]
    rfl
  have hPassed : Scope.passed s.now b.scope.deadline =
      (Scope.passed s.now b.caller.deadline || decide (b.site.now + b.limit ≤ s.now)) := by
    rw [Bool.eq_iff_iff, ← not_iff_not, Bool.not_eq_true, Bool.not_eq_true, Bool.or_eq_false_iff,
      Scope.passed_eq_false, Scope.passed_eq_false, decide_eq_false_iff_not, Nat.not_le, hDeadline]
    simp only [Option.mem_def, Option.some.injEq, forall_eq', hAhead]
    exact and_comm
  unfold Site.cause? Scope.cause? ended?
  rw [hToken, hPassed]

theorem ended?_congr (hNow : s'.now = s.now) (hCancelled : s'.cancelled = s.cancelled) :
    b.ended? s' = b.ended? s := by
  unfold ended?
  rw [Tokens.isCancelled_congr hCancelled, hNow]

/-- Where the time is not over, it was not so before. -/
theorem ended?_eq_none_of_onward (h : Onward t t') (hNone : b.ended? t'.site = none) :
    b.ended? t.site = none := by
  obtain ⟨hCancelled, hLimit, hDeadline⟩ := ended?_eq_none.mp hNone
  refine ended?_eq_none.mpr ⟨?_, Nat.lt_of_le_of_lt h.now hLimit, ?_⟩
  · refine Bool.eq_false_iff.mpr fun hBefore => ?_
    rw [Tokens.isCancelled_mono h.cancelled hBefore] at hCancelled
    cases hCancelled
  · exact fun d hd => Nat.lt_of_le_of_lt h.now (hDeadline d hd)

/-! ## Coming to the stage -/

/-- A request has come to the stage, and has gone in as far as it can. -/
structure Arrived (b : Bound) (t : Traffic) (index : Nat) (begun : Traffic) : Prop where
  incoming : Flight.Incoming none t.site b.flight b.site b.request (.timeout b.limit :: b.rest)
  nested : b.flight.Nested b.request
  entered : Http.isProbePath b.request.path = false
  before : t.Apart none index
  site : begun.site = b.whole.1
  flight : begun.flights[index]? = some b.whole.2
  others : ∀ i, i ≠ index → begun.flights[i]? = t.flights[i]?

theorem ComesBy.arrived (h : b.ComesBy t m index begun) (hAdmits : t.Admits m)
    (hApart : t.Apart none index) (hNested : ∀ f ∈ t.flights, f.NestedInLine)
    (hEntered : Http.isProbePath b.request.path = false) : b.Arrived t index begun := by
  cases h with
  | @sent id r plan hPasses =>
    have hOutside : (t.newcomer id r plan).Nested r := nofun
    refine ⟨hPasses.keeps (fun _ _ _ _ _ => Flight.Incoming.pass) (hApart.incoming hAdmits id plan),
      hPasses.nested hOutside, hEntered, hApart, ?_, ?_, ?_⟩
    · rw [send_eq, hPasses.enter_eq]
      rfl
    · rw [send_eq, hPasses.enter_eq]
      exact List.getElem?_concat_length
    · intro i hNe
      rw [send_eq]
      rcases Nat.lt_or_gt_of_ne hNe with hOld | hBeyond
      · exact List.getElem?_append_left hOld
      · rw [List.getElem?_eq_none (Nat.le_of_lt hBeyond), List.getElem?_eq_none]
        rw [List.length_append]
        exact hBeyond
  | @admitted _ ticket deadline f _ scope rest _ _ _ bulkhead hFlight hQueued _ hLook hPasses =>
    have hFits := hApart.flights index f hFlight
    rw [ite_self] at hFits
    have hIncoming := hFits.look hApart.site hQueued bulkhead
    have hNestedHere := hNested f (List.mem_of_getElem? hFlight) _ _ _ _ _ hQueued
    have hInside := hNestedHere.look t.site bulkhead ticket deadline scope rest
    rw [hLook] at hIncoming hInside
    obtain ⟨hIndex, -⟩ := List.getElem?_eq_some_iff.mp hFlight
    exact ⟨hPasses.keeps (fun _ _ _ _ _ => Flight.Incoming.pass) hIncoming,
      hPasses.nested hInside, hEntered, hApart, rfl, List.getElem?_set_self hIndex,
      fun i hNe => List.getElem?_set_ne (Ne.symm hNe)⟩

/-- What follows from the move goes on from there. -/
theorem ComesBy.later (h : b.ComesBy t m index begun) : Later begun (t.move m) := by
  cases h with
  | sent => exact .refl _
  | admitted hFlight hQueued hGate hLook hPasses =>
    rw [move_poll_of_passes hFlight hQueued hGate hLook hPasses]
    exact (Later.refl _).move (.poll index) trivial

theorem armed_frames (b : Bound) : Armed b.frames := trivial

theorem whole_eq (hEntered : Http.isProbePath b.request.path = false) :
    b.whole = (Flight.within { b.flight with frames := [] } b.frames).enter b.inner
      { b.request with scope := some b.scope } b.rest := by
  unfold whole
  rw [Flight.enter_cons, Flight.pass, hEntered]
  rfl

theorem passOn_eq (b : Bound) (s : Site) (g : Flight) (c : Completion) :
    Flight.complete { g with frames := b.frames } s c = b.passOn s g c := by
  cases c <;> rfl

theorem now_complete (f : Flight) (s : Site) (c : Completion) : (f.complete s c).1.now = s.now :=
  (Site.Still.ascend s c f.frames).now

/-- The request waits, and nobody else has its token. -/
structure Watched (b : Bound) (index : Nat) (looks : List Site) (t : Traffic) : Prop
    extends b.Waiting index looks t where
  apart : t.Apart (some b.scope.token.number) index

namespace Arrived

variable (h : b.Arrived t index begun)
include h

/-- The scope of the rest ends with those of the timeouts around it. -/
theorem inside {limit : Nat} {outer : Scope} (hMem : Frame.timeout limit outer ∈ b.frames) :
    b.scope.Inherits outer := by
  obtain ⟨scope, hScope, hInherits⟩ := (h.nested.timeout b.site b.limit _ _) limit outer hMem
  cases hScope
  exact hInherits

theorem enclosed : Enclosed b.frames b.alone b.whole := by
  rw [whole_eq h.entered]
  exact Flight.enclosed_enter b.armed_frames _ _ _ _

theorem looked : Looked none t.site b.whole := Flight.looked_enter h.incoming

theorem now_eq : begun.site.now = b.site.now := by
  rw [h.site, h.looked.onward.now, h.incoming.onward.now]

/-- The rest of the chain begins with the new scope. -/
theorem inner : Flight.Incoming none b.inner
    (Flight.within { b.flight with frames := [] } b.frames) b.inner
      { b.request with scope := some b.scope } b.rest := by
  have hHere : Flight.Incoming none t.site b.flight b.site b.request b.rest :=
    ⟨h.incoming.toHolding, h.incoming.request⟩
  have hInner : Flight.Incoming none t.site
      (Flight.within { b.flight with frames := [] } b.frames) b.inner
        { b.request with scope := some b.scope } b.rest := hHere.timeout b.limit
  exact ⟨⟨hInner.site, hInner.frames, .refl _, rfl⟩, hInner.request⟩

/-- What is so for the site, and was so for the other requests, is so for the traffic. -/
theorem spread {kept : Option Nat} (hSite : b.whole.1.Apart kept)
    (hOthers : ∀ f : Flight, f.Apart none t.site → f.Apart kept t.site) :
    begun.Apart kept index := by
  refine ⟨?_, ?_⟩
  · rw [h.site]
    exact hSite
  · intro i f hFlight
    by_cases hMine : i = index
    · rw [hMine, h.flight] at hFlight
      cases hFlight
      rw [if_pos hMine, h.site]
      exact h.looked.flight
    · rw [h.others i hMine] at hFlight
      have hFits := h.before.flights i f hFlight
      rw [ite_self] at hFits
      rw [if_neg hMine, h.site]
      exact (hOthers f hFits).mono h.looked.onward.issued h.looked.onward.gate

theorem apart : begun.Apart none index := h.spread h.looked.site fun _ hFits => hFits

/-- If the request waits, the token of the new scope is its own. -/
theorem keeps (hPending : b.whole.2.isPending = true) :
    begun.Apart (some b.scope.token.number) index := by
  obtain ⟨hScoped, -⟩ := h.incoming.scopeOf
  have hLater : t.site.issued ≤ b.scope.token.number := hScoped.onward.issued
  have hMade : b.scope.token.number < b.whole.1.issued := by
    rw [whole_eq h.entered]
    exact (Flight.looked_enter h.inner).onward.issued
  have hSite := h.before.site.keep h.looked.onward (h.looked.calm hPending) hLater hMade
  exact h.spread hSite fun _ hFits => hFits.keep hLater

/-- At first the request waits, or the rest of the chain had nothing to wait for. -/
theorem start : b.Watched index [] begun ∨
    ∃ s g c, b.alone = Flight.complete { g with frames := [] } s c ∧ s.now = b.site.now ∧
      b.whole = b.passOn s g c := by
  have hEnclosed := h.enclosed
  have hFlight := h.flight
  have hKeeps := h.keeps
  have hNow := h.looked.onward.now.trans h.incoming.onward.now.symm
  generalize hAlone : b.alone = alone at hEnclosed
  generalize b.whole = whole at hEnclosed hFlight hKeeps hNow
  cases hEnclosed with
  | @waits s g hPending =>
    have hFirst : b.restAfter [] = g := congrArg Prod.snd hAlone
    refine .inl ⟨⟨?_, ?_⟩, hKeeps hPending⟩
    · rw [hFirst]
      exact hFlight
    · rw [hFirst]
      exact hPending
  | ends s g c =>
    rw [now_complete] at hNow
    exact .inr ⟨s, g, c, rfl, hNow, b.passOn_eq s g c⟩

end Arrived

/-! ## A look -/

theorem mem_frames_within (b : Bound) (looks : List Site) :
    Frame.timeout b.limit b.scope ∈ ((b.restAfter looks).within b.frames).frames :=
  List.mem_append_right _ List.mem_cons_self

theorem restAfter_concat (b : Bound) (looks : List Site) (s : Site) :
    b.restAfter (looks ++ [s]) = ((b.restAfter looks).poll s).2 := by
  unfold restAfter
  rw [List.foldl_append]
  rfl

/-- What one look comes to. -/
inductive Turn (b : Bound) (index : Nat) (looks : List Site) (t : Traffic) : Prop where
  | goesOn (hNone : b.ended? t.site = none)
      (hAfter : b.Watched index (looks ++ [t.site]) (t.move (.poll index)))
  | returns {s : Site} {g : Flight} {c : Completion}
      (hAlone : (b.restAfter looks).poll t.site = Flight.complete { g with frames := [] } s c)
      (hNow : s.now = t.site.now)
      (hWhole : ((b.restAfter looks).within b.frames).poll t.site = b.passOn s g c)
  | expires {s : Site} {g : Flight} {cause : Cause}
      (hAlone : (b.restAfter looks).poll t.site = (s, g)) (hPending : g.isPending = true)
      (hNow : s.now = t.site.now) (hEnded : b.ended? t.site = some cause)
      (hWhole : ((b.restAfter looks).within b.frames).poll t.site = b.giveUp s g cause)

/-- The timeouts do nothing as long as the time is not over. -/
theorem expired?_frames (hInside : ∀ limit outer, Frame.timeout limit outer ∈ b.frames →
      b.scope.Inherits outer)
    (hCause : s.cause? b.scope = none) : expired? s b.frames = none :=
  Flight.expired?_eq_none.mpr fun limit outer hMem =>
    (hInside limit outer hMem).cause?_eq_none hCause

namespace Watched

variable (h : b.Watched index looks t)
include h

theorem free : b.scope.token.number ∉ t.site.cancelled :=
  fun hMem => (h.apart.site.cancelled _ hMem).2 rfl

/-- A look at the rest alone. -/
theorem looked : Looked none t.site ((b.restAfter looks).poll t.site) := by
  have hFits := h.apart.flights index _ h.flight
  rw [if_pos rfl] at hFits
  refine Flight.looked_poll ⟨?_, hFits.activity, ?_, hFits.line⟩ h.apart.site.weaken
  · exact fun limit scope hMem => hFits.frames limit scope (List.mem_append_left _ hMem)
  · intro hEnded
    rw [h.pending] at hEnded
    cases hEnded

/-- What becomes of the request at a look depends on the rest of the chain first, and then on
whether the time is over. -/
theorem turn (hInside : ∀ limit outer, Frame.timeout limit outer ∈ b.frames →
    b.scope.Inherits outer) : b.Turn index looks t := by
  obtain ⟨hEnds, hWaits⟩ := Flight.poll_within b.armed_frames h.pending t.site
  have hLooked := h.looked
  cases hPending : ((b.restAfter looks).poll t.site).2.isPending with
  | false =>
    have hEnclosed := hEnds hPending
    have hNow := hLooked.onward.now
    generalize hAlone : (b.restAfter looks).poll t.site = alone at hEnclosed hPending hNow
    generalize hWhole : ((b.restAfter looks).within b.frames).poll t.site = whole at hEnclosed
    cases hEnclosed with
    | waits hStill =>
      rw [hStill] at hPending
      cases hPending
    | ends s g c =>
      rw [now_complete] at hNow
      exact .returns hAlone hNow (hWhole.trans (b.passOn_eq s g c))
  | true =>
    have hWhole := hWaits hPending
    have hCalm := hLooked.calm hPending
    have hCause : ((b.restAfter looks).poll t.site).1.cause? b.scope = b.ended? t.site := by
      rw [cause?_scope (hCalm ▸ h.free), ended?_congr hLooked.onward.now hCalm]
    cases hEnded : b.ended? t.site with
    | none =>
      rw [hEnded] at hCause
      rw [expired?_frames hInside hCause] at hWhole
      refine .goesOn hEnded ⟨⟨?_, ?_⟩, h.apart.move (m := .poll index) trivial fun _ => .inr ?_⟩
      · rw [restAfter_concat]
        exact (onFlight_getElem?_self h.flight Flight.poll).trans (congrArg (some ·.2) hWhole)
      · rw [restAfter_concat]
        exact hPending
      · intro f hf
        obtain rfl := Option.some.inj (h.flight.symm.trans hf)
        rw [hWhole]
        exact hPending
    | some cause =>
      rw [hEnded] at hCause
      have hExpired : expired? ((b.restAfter looks).poll t.site).1 b.frames =
          some ⟨[], b.limit, b.scope, cause, b.flight.frames⟩ := by
        simp only [frames, expired?_cons, Frame.ended?, hCause, Option.map_some, Option.some_or]
      rw [hExpired] at hWhole
      refine .expires rfl hPending hLooked.onward.now hEnded (hWhole.trans ?_)
      simp only [Flight.expire, Expired.inward, List.append_nil]
      rfl

end Watched

/-! ## All the looks -/

/-- The request has come to its end. -/
def Ended (index : Nat) (t : Traffic) : Prop :=
  ∃ f, t.flights[index]? = some f ∧ f.isPending = false

theorem Ended.later (h : Ended index t) (hLater : Later t t') : Ended index t' := by
  obtain ⟨f, hFlight, hEnded⟩ := h
  exact ⟨f, hLater.keeps_ended hFlight hEnded, hEnded⟩

theorem Waiting.not_ended (h : b.Waiting index looks t) : ¬ Ended index t := by
  rintro ⟨f, hFlight, hEnded⟩
  obtain rfl := Option.some.inj (h.flight.symm.trans hFlight)
  cases h.pending.symm.trans hEnded

/-- What has happened to the request. -/
inductive Progress (b : Bound) (begun : Traffic) (index : Nat) (looks : List Site) (t : Traffic) :
    Prop where
  | waits (hWatched : b.Watched index looks t)
  | atOnce (hEnded : Ended index begun)
  | polled {before after : List Site} {q : Traffic} (hBegun : Later begun q)
      (hWatched : b.Watched index before q) (hEnded : Ended index (q.move (.poll index)))
      (hLater : Later (q.move (.poll index)) t) (hLooks : looks = before ++ q.site :: after)
  | dropped {before after : List Site} {q : Traffic} (hBegun : Later begun q)
      (hWatched : b.Watched index before q) (hLater : Later (q.move (.abort index)) t)
      (hLooks : looks = before ++ after)

/-- Where a move looks at the request, if it does. -/
def lookOf (index : Nat) : Site × Move → Option Site
  | (s, .poll i) => if i = index then some s else none
  | _ => none

/-- The looks at the request. -/
def looksAt (index : Nat) (history : List (Site × Move)) : List Site :=
  history.filterMap (lookOf index)

theorem looksAt_concat (index : Nat) (history : List (Site × Move)) (x : Site × Move) :
    looksAt index (history ++ [x]) = looksAt index history ++ (lookOf index x).toList := by
  unfold looksAt
  rw [List.filterMap_append]
  cases hLook : lookOf index x <;> simp [hLook]

theorem lookOf_poll (index : Nat) (s : Site) : lookOf index (s, .poll index) = some s := if_pos rfl

theorem lookOf_of_ne (hPoll : m ≠ .poll index) (s : Site) : lookOf index (s, m) = none := by
  unfold lookOf
  split
  · next i heq =>
    cases heq
    refine if_neg ?_
    rintro rfl
    exact hPoll rfl
  · rfl

theorem Watched.move_of_ne (h : b.Watched index looks t) (hAdmits : t.Admits m)
    (hPoll : m ≠ .poll index) (hAbort : m ≠ .abort index) : b.Watched index looks (t.move m) := by
  refine ⟨⟨?_, h.pending⟩, h.apart.move hAdmits fun hMine => absurd hMine hPoll⟩
  exact (move_getElem? h.flight m).resolve_right (not_or.mpr ⟨hPoll, hAbort⟩)

theorem Watched.poll_move (h : b.Watched index looks t) {x : Site × Flight}
    (hWhole : ((b.restAfter looks).within b.frames).poll t.site = x) :
    (t.move (.poll index)).site = x.1 ∧ (t.move (.poll index)).flights[index]? = some x.2 :=
  move_poll_of_some h.flight hWhole

theorem Watched.abort_move (h : b.Watched index looks t) :
    ∃ f, (t.move (.abort index)).flights[index]? = some f ∧ f.activity = .aborted ∧
      f.isPending = false := by
  refine ⟨_, onFlight_getElem?_self h.flight Flight.abort, ?_⟩
  have hPending : ((b.restAfter looks).within b.frames).isPending = true := h.pending
  rw [Flight.abort, if_pos hPending]
  exact ⟨rfl, rfl⟩

/-- Where nobody has anything to do, the time is not over. -/
theorem Watched.ended?_of_settled (h : b.Watched index looks t) (hSettled : t.Settled) :
    b.ended? t.site = none := by
  have hQuiet := hSettled _ (List.mem_of_getElem? h.flight)
  have hFrames := Flight.expired?_eq_none.mp (hQuiet.frames h.pending)
  rw [← cause?_scope h.free]
  exact hFrames b.limit b.scope (b.mem_frames_within looks)

section Arrived

variable {history : List (Site × Move)} (h : b.Arrived t index begun)
include h

theorem Arrived.onward (hBegun : Later begun p) (hLater : Later p t') : Onward p t' :=
  hLater.onward (hBegun.apart h.apart)

/-- The request goes on to wait, or a look, or its caller, has ended it. -/
theorem Arrived.progress (hCourse : Traffic.Course begun history t') :
    b.Progress begun index (looksAt index history) t' := by
  induction hCourse with
  | begun =>
    rcases h.start with hWatched | ⟨s, g, c, -, -, hWhole⟩
    · exact .waits hWatched
    · refine .atOnce ⟨_, h.flight, ?_⟩
      rw [hWhole]
      rfl
  | @move history r hCourse m hAdmits ih =>
    have hStep : ∀ {q}, Later q r → Later q (r.move m) := fun hLater => hLater.move m hAdmits
    rw [looksAt_concat]
    cases ih with
    | waits hWatched =>
      have hReached : Later begun r := ⟨history, hCourse⟩
      by_cases hPoll : m = .poll index
      · subst hPoll
        rw [lookOf_poll]
        cases hWatched.turn fun _ _ => h.inside with
        | goesOn _ hAfter => exact .waits hAfter
        | returns _ _ hWhole | expires _ _ _ _ hWhole =>
          have hEnded : Ended index (r.move (.poll index)) :=
            ⟨_, (hWatched.poll_move hWhole).2, rfl⟩
          have hLast : looksAt index history ++ (some r.site).toList =
            looksAt index history ++ r.site :: [] := rfl
          exact .polled hReached hWatched hEnded (.refl _) hLast
      · rw [lookOf_of_ne hPoll, Option.toList_none, List.append_nil]
        by_cases hAbort : m = .abort index
        · subst hAbort
          exact .dropped hReached hWatched (.refl _) (List.append_nil _).symm
        · exact .waits (hWatched.move_of_ne hAdmits hPoll hAbort)
    | atOnce hEnded => exact .atOnce hEnded
    | polled hBegun hWatched hEnded hLater hLooks =>
      rw [hLooks, List.append_assoc, List.cons_append]
      exact .polled hBegun hWatched hEnded (hStep hLater) rfl
    | dropped hBegun hWatched hLater hLooks =>
      rw [hLooks, List.append_assoc]
      exact .dropped hBegun hWatched (hStep hLater) rfl

/-- A request that has not ended is watched. -/
theorem Arrived.watched (hCourse : Traffic.Course begun history t') (hNot : ¬ Ended index t') :
    b.Watched index (looksAt index history) t' := by
  cases h.progress hCourse with
  | waits hWatched => exact hWatched
  | atOnce hEnded => exact absurd (hEnded.later ⟨history, hCourse⟩) hNot
  | polled _ _ hEnded hLater => exact absurd (hEnded.later hLater) hNot
  | dropped _ hWatched hLater =>
    obtain ⟨f, hFlight, -, hEnded⟩ := hWatched.abort_move
    exact absurd (Ended.later ⟨f, hFlight, hEnded⟩ hLater) hNot

/-! ## In time -/

/-- A request that waits had not ended before. -/
theorem Arrived.watched_before {history' : List (Site × Move)} (hBegun : Later begun p)
    (hCourse : Traffic.Course p history' t') (hNot : ¬ Ended index t') :
    ∃ looks, b.Watched index looks t' := by
  obtain ⟨history, hBefore⟩ := hBegun
  exact ⟨_, h.watched (hBefore.trans hCourse) hNot⟩

/-- As long as the request waits, its time was not over at any earlier instant: the clock goes on
only when nobody has anything to do, and not past a timer. -/
theorem Arrived.quietBefore {history' : List (Site × Move)} (hBegun : Later begun p)
    (hCourse : Traffic.Course p history' t') (hNot : ¬ Ended index t')
    (hEarlier : p.site.now < t'.site.now) :
    b.ended? p.site = none ∧ t'.site.now ≤ b.site.now + b.limit ∧
      ∀ deadline ∈ b.caller.deadline, t'.site.now ≤ deadline := by
  induction hCourse with
  | begun => exact absurd hEarlier (Nat.lt_irrefl _)
  | @move history' r hCourse m hAdmits ih =>
    have hBefore : ¬ Ended index r :=
      fun hEnded => hNot (hEnded.later ((Later.refl r).move m hAdmits))
    have hReached : Later begun r := hBegun.trans ⟨history', hCourse⟩
    rcases ((hReached.apart h.apart).move_site hAdmits).1 with hSame | ⟨now, rfl⟩
    · rw [hSame] at hEarlier ⊢
      exact ih hBefore hEarlier
    · obtain ⟨looks, hWatched⟩ := h.watched_before hBegun hCourse hBefore
      obtain ⟨-, hSettled, hAhead⟩ := hAdmits
      obtain ⟨deadline, hDeadline, hLimit, hCaller, -⟩ := b.scope_deadline
      obtain ⟨timer, hTimer, hLe⟩ := Flight.exists_due_le (b.mem_frames_within looks) hDeadline
      have hNow : now ≤ deadline := Nat.le_trans
        (hAhead _ (List.mem_of_getElem? hWatched.flight) hWatched.pending timer hTimer) hLe
      refine ⟨?_, Nat.le_trans hNow hLimit, fun d hd => Nat.le_trans hNow (hCaller d hd)⟩
      exact ended?_eq_none_of_onward (h.onward hBegun ⟨history', hCourse⟩)
        (hWatched.ended?_of_settled hSettled)

theorem Arrived.until (hReached : Later begun t') (hWatched : b.Watched index looks t') :
    b.Until begun index looks t' := by
  refine ⟨hReached, hWatched.toWaiting, ?_⟩
  rintro p hBegun ⟨history, hCourse⟩ hEarlier
  exact h.quietBefore hBegun hCourse hWatched.not_ended hEarlier

end Arrived

/-! ## What becomes of the request -/

/-- Where nobody has anything to do, neither has the rest of the chain. -/
theorem Watched.poll_of_settled (h : b.Watched index looks t) (hInside : ∀ limit outer,
    Frame.timeout limit outer ∈ b.frames → b.scope.Inherits outer) (hSettled : t.Settled) :
    (b.restAfter looks).poll t.site = (t.site, b.restAfter looks) := by
  have hQuiet := (hSettled _ (List.mem_of_getElem? h.flight)).poll
  have hAgain := (h.poll_move hQuiet).2
  cases h.turn hInside with
  | goesOn _ hAfter =>
    have hSame := Option.some.inj (hAfter.flight.symm.trans hAgain)
    rw [restAfter_concat] at hSame
    have hWork := congrArg Flight.work hSame
    rcases (b.restAfter looks).quiet_or_work_lt t.site with hRest | hLess
    · exact hRest.poll
    · exact absurd hWork (Nat.ne_of_lt hLess)
  | returns _ _ hWhole | expires _ _ _ _ hWhole =>
    have hEnded : Ended index (t.move (.poll index)) := ⟨_, (h.poll_move hWhole).2, rfl⟩
    refine absurd hEnded ?_
    rintro ⟨f, hFlight, hOver⟩
    obtain rfl := Option.some.inj (hAgain.symm.trans hFlight)
    cases h.pending.symm.trans hOver

/-- To drop the rest of the chain cancels its scope and no other. -/
theorem giveUp_site (b : Bound) (s : Site) (g : Flight) (cause : Cause) :
    (s.cancel b.scope).Still (b.giveUp s g cause).1 := by
  have hDropped := Site.Still.dropped s g g.frames
  have hCancelled : (s.cancel b.scope).Still
      (((discardAll (g.discardActivity s) g.frames).cancel b.scope)) := by
    refine ⟨hDropped.now, ?_, hDropped.gate⟩
    unfold Site.cancel Site.setTokens
    simp only [hDropped.directory]
  have hNoted : ∀ (s : Site) journal, s.Still (s.note journal) := fun _ _ => ⟨rfl, rfl, rfl⟩
  exact (hCancelled.trans (hNoted _ _)).trans (Site.Still.ascend _ _ _)

theorem Arrived.number_not_mem (h : b.Arrived t index begun) :
    b.scope.token.number ∉ b.caller.token.lineage := by
  obtain ⟨-, hCaller⟩ := h.incoming.scopeOf
  exact fun hMem => Nat.lt_irrefl _ (hCaller.made _ hMem)

/-- Each of its ends is by a look of its own, or by its caller. -/
theorem Arrived.fate (h : b.Arrived t index begun) {history : List (Site × Move)}
    (hCourse : Traffic.Course begun history t') :
    b.Fate begun index (looksAt index history) t' := by
  have hInside : ∀ limit outer, Frame.timeout limit outer ∈ b.frames → b.scope.Inherits outer :=
    fun _ _ => h.inside
  cases h.progress hCourse with
  | waits hWatched =>
    exact .waits (h.until ⟨history, hCourse⟩ hWatched) fun hSettled =>
      ⟨hWatched.ended?_of_settled hSettled, hWatched.poll_of_settled hInside hSettled⟩
  | atOnce hEnded =>
    rcases h.start with hWatched | ⟨s, g, c, hAlone, hNow, hWhole⟩
    · exact absurd hEnded hWatched.not_ended
    · have hSite := h.site
      have hFlight := h.flight
      rw [hWhole] at hSite hFlight
      exact .atOnce hAlone hNow hSite (hCourse.keeps_ended hFlight rfl)
  | @polled before after q hBegun hWatched hEnded hLater hLooks =>
    have hUntil := h.until hBegun hWatched
    cases hWatched.turn hInside with
    | goesOn _ hAfter => exact absurd hEnded hAfter.not_ended
    | returns hAlone hNow hWhole =>
      obtain ⟨hSite, hFlight⟩ := hWatched.poll_move hWhole
      exact .returns hUntil hLater hLooks hAlone hNow hSite (hLater.keeps_ended hFlight rfl)
    | @expires s g cause hAlone hPending hNow hCause hWhole =>
      obtain ⟨hSite, hFlight⟩ := hWatched.poll_move hWhole
      have hThen := hLater.keeps_ended hFlight rfl
      have hLooked := hWatched.looked
      rw [hAlone] at hLooked
      have hCalm := hLooked.calm hPending
      have hStill := b.giveUp_site s g cause
      refine .expires hUntil hLater hLooks hAlone hPending hNow hCause hSite hThen
        (move_of_ended hThen rfl) ?_ ?_
      · intro d hDerived
        have hMove := hBegun.move (.poll index) trivial
        have hCancelled : b.scope.token.number ∈ (q.move (.poll index)).site.cancelled := by
          rw [hSite, hStill.cancelled]
          exact List.mem_cons_self
        exact hDerived.cause?_eq ((h.onward hMove hLater).cancelled hCancelled)
      · have hAbove : (s.cancel b.scope).cause? b.caller = s.cause? b.caller :=
          Scope.cause?_cancel_of_not_mem h.number_not_mem
        rw [hSite, hStill.cause?, hAbove, Site.cause?, Site.cause?, hNow]
        exact Scope.cause?_congr hCalm
  | dropped hBegun hWatched hLater hLooks =>
    obtain ⟨f, hFlight, hAborted, hEnded⟩ := hWatched.abort_move
    exact .dropped (h.until hBegun hWatched) hLater hLooks
      ⟨f, hLater.keeps_ended hFlight hEnded, hAborted⟩

end Bound

open Traffic

/-- A request comes to a timeout stage, and goes in as far as it can; at any later time one of five
things has become of it. It waits, as long as the rest of the chain does, and then its time is not
over, or somebody has something to do. Or the rest of the chain has come to something at once, or by
a look at it, not after the time was over: then the stages around were given that, at that instant.
Or the rest was still waiting after a look at the first instant at which the time was over: then the
stages around were given the cause of that instant, nothing more happens to the rest, everything
that was made from its scope is cancelled, and the scope of the caller is as it was. Or its caller
has dropped it. Its time is over at its limit, at the deadline of the scope it came with, or when
that scope is cancelled, or one above. Whoever has something to do may have a look at any time,
until nobody has; and whatever steps are performed from there are among the moves. -/
theorem timeout_bounds_rest {p : Pipeline} {edge : Edge} {gates : Gates}
    {mode : Config.TrafficMode} {t begun t' : Traffic} {m : Move} {b : Bound} {index : Nat}
    {history : List (Site × Move)} (hLater : Later (.create p edge (.create gates mode)) t)
    (hAdmits : t.Admits m) (hComes : b.ComesBy t m index begun)
    (hEntered : Http.isProbePath b.request.path = false)
    (hCourse : Traffic.Course begun history t') :
    begun.site.now = b.site.now ∧ Later begun (t.move m) ∧
      b.Fate begun index (Bound.looksAt index history) t' ∧
      Later t' t'.settle ∧ t'.settle.Settled ∧
      ∀ steps : List (Nat × Step),
        Later t' (steps.foldl (fun t step => (t.perform step.1 step.2).2) t'.settle) := by
  have hNested := hLater.nestedInLine (List.forall_mem_nil _)
  have hArrived := hComes.arrived hAdmits (hLater.apart (apart_create p edge gates mode index))
    hNested hEntered
  have hApart : t'.Apart none 0 := (hCourse.apart hArrived.apart).at 0
  have hHere : Later.At t' t'.site.now t' := ⟨.refl t', rfl⟩
  have hSettles := hHere.settle hApart
  exact ⟨hArrived.now_eq, hComes.later, hArrived.fate hCourse, hSettles.later, settled_settle t',
    fun steps => hSettles.later.run hApart (settled_settle t') steps⟩

/-- A timeout of twenty units, and a scope that ends after five. -/
def hurry : Traffic :=
  (Traffic.create ⟨[⟨0, "panic_recovery", .panicRecovery⟩, ⟨10, "timeout", .timeout 20⟩]⟩ .direct
    (.create .none .standalone)).move (.scope (.createWithTimeout "task" 5))

def hurriedRequest : Http.Request := ⟨"GET", "/orders", [], some ⟨⟨1, [0]⟩, some 5⟩, none⟩

/-- The handler needs nine. -/
def lengthy : HandlerPlan := ⟨false, false, 9, false, .response ⟨200, [], .text ""⟩⟩

def hurried : Bound :=
  ⟨(hurry.newcomer "a" hurriedRequest lengthy).push (.recovery "GET" "/orders"), hurry.site,
    hurriedRequest, 20, []⟩

def underway : Traffic := hurry.send "a" hurriedRequest lengthy

/-- After five units of time somebody has a look. -/
def overdue : Traffic := (underway.move (.clock 5)).move (.poll 0)

theorem timeout_bounds_rest_hurried :
    overdue.flights.map (·.activity) =
      [.ended 5 (.outcome (.error (.ofCause .deadlineExceeded)))] ∧
    (∀ d, hurried.scope.Derived d → overdue.site.cause? d = some .cancelled) ∧
    overdue.site.cause? hurried.caller = some .deadlineExceeded := by
  have hLater : Later (.create ⟨[⟨0, "panic_recovery", .panicRecovery⟩,
      ⟨10, "timeout", .timeout 20⟩]⟩ .direct (.create .none .standalone)) hurry :=
    (Later.refl _).move (.scope (.createWithTimeout "task" 5)) trivial
  have hScope : hurry.Admits (.send "a" hurriedRequest lengthy) := by
    rintro scope ⟨⟩
    exact ⟨"task", List.mem_singleton.mpr rfl⟩
  have hComes : hurried.ComesBy hurry (.send "a" hurriedRequest lengthy) 0 underway :=
    .sent (.onward rfl (.here _ _ _ _))
  have hSettled : underway.Settled :=
    List.forall_mem_singleton.mpr ⟨Nat.lt_add_of_pos_right (by decide), fun _ => rfl, rfl⟩
  have hClock : underway.Admits (.clock 5) := by
    refine ⟨Nat.zero_le 5, hSettled, List.forall_mem_singleton.mpr fun _ => ?_⟩
    rintro timer ⟨⟩
    exact Nat.le_refl 5
  have hStart : Traffic.Course underway [] underway := .begun
  have hCourse := (hStart.move (.clock 5) hClock).move (.poll 0) trivial
  obtain ⟨-, -, hFate, -⟩ := timeout_bounds_rest hLater hScope hComes (by decide) hCourse
  have hEnded : Bound.Ended 0 overdue := ⟨_, rfl, rfl⟩
  refine ⟨rfl, ?_⟩
  cases hFate with
  | waits hUntil => exact absurd hEnded hUntil.waiting.not_ended
  | atOnce hAlone =>
    have hPending : hurried.alone.2.isPending = true := rfl
    rw [hAlone] at hPending
    cases hPending
  | @returns before after q s g c hUntil hLater hLooks hAlone =>
    have hOne : [(underway.move (.clock 5)).site] = before ++ q.site :: after := hLooks
    cases before with
    | nil =>
      have hPending : ((hurried.restAfter []).poll (underway.move (.clock 5)).site).2.isPending =
        true := rfl
      rw [(List.cons.inj hOne).1, hAlone] at hPending
      cases hPending
    | cons first before =>
      have hNothing := (List.cons.inj hOne).2
      simp at hNothing
  | expires _ _ _ _ _ _ _ _ _ _ hBelow => exact ⟨hBelow, rfl⟩
  | dropped _ _ _ hFlight =>
    obtain ⟨f, hFlight, hAborted⟩ := hFlight
    cases hFlight
    cases hAborted

end Gatehouse.Pipeline
