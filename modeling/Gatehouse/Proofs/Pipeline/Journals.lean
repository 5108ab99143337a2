import Gatehouse.Proofs.Pipeline.Bills
import Gatehouse.Proofs.Pipeline.Moves

/-!
# The journal only grows

Whatever happens in some traffic, what was noted stays noted, in its order.

* `Site.Extends`: the journal of a site goes on from that of another one.
* `Flight.extends_poll`, `Flight.extends_abort`: for what may be done to a request.
* `Reachable.extends`: for any moves.
-/

namespace Gatehouse.Pipeline

namespace Site

/-- What was noted before is still noted, ahead of everything new. -/
def Extends (s s' : Site) : Prop := s.journal <+: s'.journal

variable {s s' s'' : Site}

theorem Extends.refl (s : Site) : s.Extends s := List.prefix_rfl

theorem Extends.trans (h : s.Extends s') (h' : s'.Extends s'') : s.Extends s'' :=
  List.IsPrefix.trans h h'

theorem extends_note (s : Site) (entries : Journal) : s.Extends (s.note entries) :=
  List.prefix_append _ _

theorem Charged.extends {counts : List Measurement} (h : s.Charged s' counts) : s.Extends s' := by
  obtain ⟨entries, hEntries, -⟩ := h
  exact ⟨entries, hEntries.symm⟩

theorem extends_onBreaker (s : Site)
    (f : Breaker.CircuitBreaker → Breaker.CircuitBreaker × Journal) :
    s.Extends (s.onBreaker f) := by
  unfold onBreaker
  split
  · exact extends_note _ _
  · exact .refl s

theorem extends_onBulkhead (s : Site) (f : Bulkhead → Bulkhead × Journal) :
    s.Extends (s.onBulkhead f) := by
  unfold onBulkhead
  split
  · exact extends_note _ _
  · exact .refl s

theorem extends_rise (s : Site) (frame : Frame) (c : Completion) :
    s.Extends (frame.rise s c).1 := by
  cases frame with
  | recovery method path =>
    cases c with
    | outcome o => exact .refl s
    | panic payload => exact extends_note s _
  | timeout limit scope => exact .refl s
  | call admission scope => cases c <;> exact extends_onBreaker s _
  | slot => exact extends_onBulkhead s _
  | logging id method path started =>
    cases c with
    | outcome o => exact extends_note s _
    | panic payload => exact .refl s
  | translation translate =>
    cases c with
    | panic payload => exact .refl s
    | outcome o => cases o <;> exact .refl s

theorem extends_ascend (s : Site) (c : Completion) (frames : List Frame) :
    s.Extends (ascend s c frames).1 := by
  induction frames generalizing s c with
  | nil => exact .refl s
  | cons frame outer ih => exact (extends_rise s frame c).trans (ih _ _)

end Site

namespace Flight

variable {f : Flight} {s s₀ : Site} {r : Http.Request} {stage : Interceptor}
  {rest : List Interceptor}

theorem extends_complete (f : Flight) (s : Site) (c : Completion) : s.Extends (f.complete s c).1 :=
  Site.extends_ascend s c f.frames

theorem extends_reject (f : Flight) (s : Site) (failure : Failure) (event : Entry) :
    s.Extends (f.reject s failure event).1 :=
  (s.extends_note _).trans (extends_complete f _ _)

/-- With the service as well. -/
theorem serves_extends (s₀ : Site) :
    Serves (fun s _ => s₀.Extends s) (fun after => s₀.Extends after.1) where
  ends := fun c h => h.trans (extends_complete _ _ c)
  waits := fun _ h => h
  aside := fun _ hCharged h => h.trans hCharged.extends

/-- What a stage leads to. -/
abbrev Notes (s₀ : Site) (rest : List Interceptor) (p : Passage) : Prop :=
  p.Keeps (fun _ s _ _ => s₀.Extends s) (fun after => s₀.Extends after.1) rest

theorem notes_look (h : s₀.Extends s) (b : Bulkhead) (ticket deadline : Nat) (scope : Scope) :
    Notes s₀ rest (f.look s b ticket deadline scope rest r) := by
  have hNoted : ∀ b' entries, s₀.Extends ((s.setBulkhead b').note entries) :=
    fun b' entries => h.trans ((s.setBulkhead b').extends_note entries)
  unfold Flight.look
  dsimp only
  split
  · exact hNoted _ _
  · exact hNoted _ _
  · exact (hNoted _ _).trans (extends_reject ..)
  · exact (hNoted _ _).trans (extends_complete ..)

theorem notes_meetGate (h : s₀.Extends s) (gate : Interceptor) :
    Notes s₀ rest (f.meetGate s r rest gate) := by
  have hScope : s₀.Extends (s.scopeOf r).2 := h.trans (s.charged_scopeOf r).extends
  unfold Flight.meetGate
  split
  · split
    · exact h
    · have hLimited : ∀ limiter, s₀.Extends (s.setLimiter limiter) := fun _ => h
      dsimp only
      split
      · exact hLimited _
      · exact (hLimited _).trans (extends_reject ..)
  · split
    · exact h
    · have hNoted : ∀ b entries, s₀.Extends (((s.scopeOf r).2.setBreaker b).note entries) :=
        fun b entries => hScope.trans (((s.scopeOf r).2.setBreaker b).extends_note entries)
      dsimp only
      split
      · exact hNoted _ _
      · exact (hNoted _ _).trans (extends_reject ..)
  · split
    · exact h
    · exact notes_look hScope _ _ _ _
  · exact h

theorem notes_meet (h : s₀.Extends s) (stage : Interceptor) :
    Notes s₀ rest (f.meet s r rest stage) := by
  cases stage with
  | panicRecovery | requestLogging | errorTranslation => exact h
  | timeout limit => exact h.trans (s.charged_scopeOf r).extends
  | rateLimit => exact notes_meetGate h .rateLimit
  | circuitBreaker => exact notes_meetGate h .circuitBreaker
  | bulkhead => exact notes_meetGate h .bulkhead
  | schemaValidation v =>
    simp only [Flight.meet]
    cases v.check r with
    | accepted => exact h
    | rejected failure => exact (h.trans (s.extends_note _)).trans (extends_complete ..)
    | panicked payload => exact h.trans (extends_complete ..)
  | mark label bypasses rejection =>
    simp only [Flight.meet]
    cases rejection with
    | none => exact h
    | some failure => exact h.trans (extends_complete ..)

theorem notes_pass (h : s₀.Extends s) (stage : Interceptor) :
    Notes s₀ rest (f.pass s r stage rest) := by
  unfold Flight.pass
  split
  · exact h
  · exact notes_meet h stage

theorem extends_enter (f : Flight) (h : s₀.Extends s) (r : Http.Request)
    (stages : List Interceptor) : s₀.Extends (f.enter s r stages).1 :=
  enter_keeps (fun _ _ _ stage _ h => notes_pass h stage)
    (fun _ _ r h => (serves_extends s₀).arrive h r) f s r stages h

theorem extends_pollActivity (f : Flight) (s : Site) : s.Extends (f.pollActivity s).1 := by
  cases hActivity : f.activity with
  | queued ticket deadline scope rest r =>
    rw [pollActivity_queued hActivity]
    cases s.gates.bulkhead with
    | none => exact .refl s
    | some b =>
      exact follow_keeps (fun f _ r h => extends_enter f h r rest) (notes_look (.refl s) ..)
  | awaitingEnd | working =>
    refine (serves_extends s).pollActivity (.refl s) ?_
    rw [hActivity]
    rfl
  | ended | aborted =>
    simp only [Flight.pollActivity, hActivity]
    exact .refl s

theorem extends_discard (f : Flight) (s : Site) (frames : List Frame) :
    s.Extends (discardAll (f.discardActivity s) frames) :=
  (charged_discardActivity f s).extends.trans (discardAll_charged _ frames).extends

theorem extends_poll (f : Flight) (s : Site) : s.Extends (f.poll s).1 := by
  have hActivity := f.extends_pollActivity s
  unfold Flight.poll
  dsimp only
  split
  · unfold Flight.pollTimeouts
    split
    · exact hActivity
    · next e _ =>
      have hDropped : s.Extends
          ((discardAll ((f.pollActivity s).2.discardActivity (f.pollActivity s).1) e.inner).cancel
            e.scope) :=
        hActivity.trans (extends_discard _ _ _)
      exact hDropped.trans (extends_reject ..)
  · exact hActivity

theorem extends_abort (f : Flight) (s : Site) : s.Extends (f.abort s).1 := by
  unfold Flight.abort
  split
  · exact extends_discard f s f.frames
  · exact .refl s

end Flight

namespace Traffic

theorem extends_onFlight (t : Traffic) (index : Nat) {op : Flight → Site → Site × Flight}
    (hOp : ∀ f, t.site.Extends (op f t.site).1) : t.site.Extends (t.onFlight index op).site := by
  unfold onFlight
  split
  · exact .refl _
  · exact hOp _

theorem extends_observe (s : Site) : s.Extends (observe s).2 := by
  unfold observe
  split
  · exact .refl s
  · exact s.extends_note _

theorem extends_move (t : Traffic) (m : Move) : t.site.Extends (t.move m).site := by
  cases m with
  | clock | calendar | scope => exact .refl _
  | readiness command => exact t.site.extends_note _
  | observe => exact extends_observe t.site
  | send id r plan => exact Flight.extends_enter _ (.refl _) r t.interceptors
  | poll index => exact t.extends_onFlight index fun f => f.extends_poll t.site
  | abort index => exact t.extends_onFlight index fun f => f.extends_abort t.site

end Traffic

/-- Nothing is struck from the journal. -/
theorem Reachable.extends {start t : Traffic} {sent : List Http.Request}
    (h : Reachable start sent t) : start.site.Extends t.site := by
  induction h with
  | start => exact .refl _
  | @move _ t _ m ih => exact ih.trans (t.extends_move m)

end Gatehouse.Pipeline
