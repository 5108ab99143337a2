import Gatehouse.Proofs.Pipeline.Charges

/-!
# Inside of all stages

A request that has passed every stage is with the service: its handler waits for the end of the
scope, works, and ends with what its plan says. None of this touches a gate or counts a request,
and the frames stay as they are until the request ends. So whatever depends on gates, counts and
frames alone is kept for as long as the request is there.

* `Serves`: what is kept inside, and what follows when the request waits there or ends.
* `Serves.arrive`: from the arrival of a request.
-/

namespace Gatehouse.Pipeline

/-- Whether a request waits for its handler. -/
def Activity.inService : Activity → Bool
  | .awaitingEnd _ => true
  | .working _ _ => true
  | _ => false

/-- While a request is inside of all stages, `Within` holds of the site and of its frames, whatever
the service does; `After` holds as soon as it waits there or ends. -/
structure Serves (Within : Site → List Frame → Prop) (After : Site × Flight → Prop) : Prop where
  ends : ∀ {s : Site} {f : Flight} (c : Completion), Within s f.frames → After (f.complete s c)
  waits : ∀ {s : Site} {f : Flight}, f.activity.inService = true → Within s f.frames → After (s, f)
  aside : ∀ {s s' : Site} {frames : List Frame}, s'.gates = s.gates → s.Charged s' [] →
    Within s frames → Within s' frames

namespace Serves

variable {Within : Site → List Frame → Prop} {After : Site × Flight → Prop} {s : Site} {f : Flight}

theorem finishWork (h : Serves Within After) (hWithin : Within s f.frames) (scope : Scope) :
    After (f.finishWork s scope) := by
  unfold Flight.finishWork
  refine h.ends _ ?_
  split
  · exact h.aside (s := s) rfl (.of_journal rfl) hWithin
  · exact hWithin

theorem beginWork (h : Serves Within After) (hWithin : Within s f.frames) (scope : Scope) :
    After (f.beginWork s scope) := by
  unfold Flight.beginWork
  split
  · exact h.finishWork hWithin scope
  · exact h.waits rfl hWithin

theorem awaitEnd (h : Serves Within After) (hWithin : Within s f.frames) (scope : Scope) :
    After (f.awaitEnd s scope) := by
  unfold Flight.awaitEnd
  split
  · exact h.waits rfl hWithin
  · split
    · exact h.ends _ hWithin
    · exact h.beginWork hWithin scope

theorem handle (h : Serves Within After) (hWithin : Within s f.frames) (r : Http.Request) :
    After (f.handle s r) := by
  have hScope : Within (s.scopeOf r).2 f.frames :=
    h.aside (s.gates_scopeOf r) (s.charged_scopeOf r) hWithin
  unfold Flight.handle
  dsimp only
  split
  · refine h.awaitEnd ?_ _
    exact hScope
  · refine h.beginWork ?_ _
    exact hScope

/-- The service answers by itself, or its handler does. -/
theorem arrive (h : Serves Within After) (hWithin : Within s f.frames) (r : Http.Request) :
    After (f.arrive s r) := by
  unfold Flight.arrive
  split
  · split
    · exact h.handle hWithin r
    · exact h.ends _ hWithin
    · have hRun := Readiness.charges_run s.coordinator s.moment
      dsimp only
      refine h.ends _ (h.aside (s := s) rfl ?_ hWithin)
      exact ⟨_, rfl, hRun⟩
    · exact h.ends _ hWithin
    · exact h.ends _ hWithin
  · exact h.handle hWithin r

/-- A handler goes on. -/
theorem pollActivity (h : Serves Within After) (hWithin : Within s f.frames)
    (hActivity : f.activity.inService = true) : After (f.pollActivity s) := by
  have hWaits := h.waits hActivity hWithin
  unfold Flight.pollActivity
  split
  · next hQueued =>
    rw [hQueued] at hActivity
    cases hActivity
  · exact h.awaitEnd hWithin _
  · split
    · exact h.finishWork hWithin _
    · exact hWaits
  · exact hWaits
  · exact hWaits

end Serves

end Gatehouse.Pipeline
