import Gatehouse.Proofs.Pipeline.Agreement
import Gatehouse.Proofs.Scope.Causes

/-!
# The tokens that requests hold and cancel

A request holds the scope that it came under and those that its timeouts have made for it, each
with a token of its own that was not there before. It cancels no others, and none at all as long as
it waits. So a token that was made for one request is cancelled by no other one.

* `Token.Apart`: a token that was made, and is not the one that one request has for itself.
* `Flight.Apart`, `Site.Apart`: all that a request holds, and all that has a name or is cancelled.
* `Looked`: what is so after a look at a request, and after it was sent.
* `looked_enter`, `looked_poll`, `looked_abort`: the operations on a request.
-/

namespace Gatehouse.Pipeline

/-- A token that was made, as were those above it. It is not the one that is kept by one request
for itself, if there is such a one. -/
structure Token.Apart (kept : Option Nat) (issued : Nat) (t : Token) : Prop where
  made : ∀ n ∈ t.lineage, n < issued
  other : kept ≠ some t.number

theorem Token.Apart.mono {kept : Option Nat} {issued issued' : Nat} {t : Token}
    (h : Token.Apart kept issued t) (hLe : issued ≤ issued') : Token.Apart kept issued' t :=
  ⟨fun n hn => Nat.lt_of_lt_of_le (h.made n hn) hLe, h.other⟩

theorem Token.Apart.weaken {kept : Option Nat} {issued : Nat} {t : Token}
    (h : Token.Apart kept issued t) : Token.Apart none issued t :=
  ⟨h.made, nofun⟩

/-- What was there before a token is apart from it. -/
theorem Token.Apart.keep {issued n : Nat} {t : Token} (h : Token.Apart none issued t)
    (hLater : issued ≤ n) : Token.Apart (some n) issued t := by
  refine ⟨h.made, ?_⟩
  rintro ⟨⟩
  exact absurd (h.made _ List.mem_cons_self) (Nat.not_lt_of_le hLater)

theorem Token.Apart.new {kept : Option Nat} {issued : Nat} {ancestors : List Nat}
    (hKept : ∀ n ∈ kept, n < issued) (hAbove : ∀ n ∈ ancestors, n < issued) :
    Token.Apart kept (issued + 1) ⟨issued, ancestors⟩ := by
  refine ⟨?_, ?_⟩
  · intro n hn
    rcases List.mem_cons.mp hn with rfl | hAncestor
    · exact Nat.lt_succ_self _
    · exact Nat.lt_succ_of_lt (hAbove n hAncestor)
  · rintro rfl
    exact Nat.lt_irrefl _ (hKept _ rfl)

/-- The scope that a stage has made for the request inside of it. -/
def Frame.scope? : Frame → Option Scope
  | .timeout _ scope => some scope
  | _ => none

/-- The scopes that a request has while it waits. -/
def Activity.scopes : Activity → List Scope
  | .queued _ _ scope _ r => scope :: r.scope.toList
  | .awaitingEnd scope => [scope]
  | .working _ scope => [scope]
  | _ => []

/-- Whether a request waits for a slot. -/
def Activity.inLine : Activity → Bool
  | .queued _ _ _ _ _ => true
  | _ => false

/-- The scopes of some frames are apart. -/
def FramesApart (kept : Option Nat) (issued : Nat) (frames : List Frame) : Prop :=
  ∀ limit scope, Frame.timeout limit scope ∈ frames → Token.Apart kept issued scope.token


namespace Site

def issued (s : Site) : Nat := s.directory.tokens.issued

/-- Everything that has a name is apart, and nothing else is cancelled. -/
structure Apart (kept : Option Nat) (s : Site) : Prop where
  keptMade : ∀ n ∈ kept, n < s.issued
  cancelled : ∀ n ∈ s.cancelled, n < s.issued ∧ kept ≠ some n
  named : ∀ x ∈ s.directory.named, Token.Apart kept s.issued x.2.token

/-- Neither the clock nor the scopes have changed, and a bulkhead is there if it was before. -/
structure Still (s s' : Site) : Prop where
  now : s'.now = s.now
  directory : s'.directory = s.directory
  gate : s'.gates.bulkhead.isSome = s.gates.bulkhead.isSome

/-- No time has passed and no name was given, but tokens may have been made and cancelled. -/
structure Onward (s s' : Site) : Prop where
  now : s'.now = s.now
  gate : s'.gates.bulkhead.isSome = s.gates.bulkhead.isSome
  named : s'.directory.named = s.directory.named
  issued : s.issued ≤ s'.issued
  cancelled : s.cancelled ⊆ s'.cancelled

variable {kept : Option Nat} {s s' s'' : Site}

/-! ## What stays as it is -/

namespace Still

theorem refl (s : Site) : s.Still s := ⟨rfl, rfl, rfl⟩

theorem trans (h : s.Still s') (h' : s'.Still s'') : s.Still s'' :=
  ⟨h'.now.trans h.now, h'.directory.trans h.directory, h'.gate.trans h.gate⟩

theorem onBreaker (s : Site) (f : Breaker.CircuitBreaker → Breaker.CircuitBreaker × Journal) :
    s.Still (s.onBreaker f) := by
  unfold Site.onBreaker
  split <;> exact ⟨rfl, rfl, rfl⟩

theorem onBulkhead (s : Site) (f : Bulkhead → Bulkhead × Journal) : s.Still (s.onBulkhead f) := by
  unfold Site.onBulkhead
  split
  · next b hGate => exact ⟨rfl, rfl, (congrArg Option.isSome hGate).symm⟩
  · exact refl s

theorem rise (s : Site) (frame : Frame) (c : Completion) : s.Still (frame.rise s c).1 := by
  cases frame with
  | slot => cases c <;> exact onBulkhead s Bulkhead.release
  | call admission scope => cases c <;> exact onBreaker s _
  | recovery | logging => cases c <;> exact ⟨rfl, rfl, rfl⟩
  | timeout => cases c <;> exact refl s
  | translation translate => rcases c with (_ | _) | _ <;> exact refl s

theorem discard (s : Site) (frame : Frame) : s.Still (frame.discard s) := by
  unfold Frame.discard
  split
  · exact onBreaker s _
  · exact onBulkhead s _
  · exact refl s

theorem ascend (s : Site) (c : Completion) (frames : List Frame) :
    s.Still (ascend s c frames).1 := by
  induction frames generalizing s c with
  | nil => exact refl s
  | cons frame outer ih => exact (rise s frame c).trans (ih _ _)

theorem discardAll (s : Site) (frames : List Frame) : s.Still (discardAll s frames) := by
  induction frames generalizing s with
  | nil => exact refl s
  | cons frame frames ih => exact (discard s frame).trans (ih _)

theorem discardActivity (s : Site) (f : Flight) : s.Still (f.discardActivity s) := by
  unfold Flight.discardActivity
  split
  · exact onBulkhead s _
  · exact refl s

/-- To drop a request cancels nothing. -/
theorem dropped (s : Site) (f : Flight) (frames : List Frame) :
    s.Still (Pipeline.discardAll (f.discardActivity s) frames) :=
  (discardActivity s f).trans (discardAll _ frames)

theorem issued (h : s.Still s') : s'.issued = s.issued := by
  unfold Site.issued
  rw [h.directory]

theorem cancelled (h : s.Still s') : s'.cancelled = s.cancelled := by
  unfold Site.cancelled
  rw [h.directory]

theorem cause? (h : s.Still s') (scope : Scope) : s'.cause? scope = s.cause? scope := by
  unfold Site.cause?
  rw [h.directory, h.now]

theorem apart (h : s.Still s') (hApart : s.Apart kept) : s'.Apart kept := by
  obtain ⟨hKept, hCancelled, hNamed⟩ := hApart
  refine ⟨?_, ?_, ?_⟩
  · rwa [h.issued]
  · rwa [h.issued, h.cancelled]
  · rwa [h.issued, h.directory]

end Still

namespace Onward

theorem refl (s : Site) : s.Onward s := ⟨rfl, rfl, rfl, Nat.le_refl _, List.Subset.refl _⟩

theorem trans (h : s.Onward s') (h' : s'.Onward s'') : s.Onward s'' :=
  ⟨h'.now.trans h.now, h'.gate.trans h.gate, h'.named.trans h.named,
    Nat.le_trans h.issued h'.issued, List.Subset.trans h.cancelled h'.cancelled⟩

theorem of_still (h : s.Still s') : s.Onward s' :=
  ⟨h.now, h.gate, by rw [h.directory], Nat.le_of_eq h.issued.symm, h.cancelled ▸ List.Subset.refl _⟩

theorem issue (s : Site) :
    s.Onward (s.setTokens { s.directory.tokens with issued := s.issued + 1 }) :=
  ⟨rfl, rfl, rfl, Nat.le_succ _, List.Subset.refl _⟩

theorem cancel (s : Site) (scope : Scope) : s.Onward (s.cancel scope) :=
  ⟨rfl, rfl, rfl, Nat.le_refl _, List.subset_cons_self _ _⟩

end Onward

/-! ## New tokens, and cancelled ones -/

namespace Apart

theorem cancel (h : s.Apart kept) {scope : Scope} (hScope : Token.Apart kept s.issued scope.token) :
    (s.cancel scope).Apart kept := by
  refine ⟨h.keptMade, ?_, h.named⟩
  intro n hn
  rcases List.mem_cons.mp hn with rfl | hBefore
  · exact ⟨hScope.made _ List.mem_cons_self, hScope.other⟩
  · exact h.cancelled n hBefore

/-- More tokens were made. -/
theorem issue (h : s.Apart kept) :
    (s.setTokens { s.directory.tokens with issued := s.issued + 1 }).Apart kept := by
  refine ⟨?_, ?_, ?_⟩
  · intro n hn
    exact Nat.lt_succ_of_lt (h.keptMade n hn)
  · intro n hn
    obtain ⟨hLt, hNe⟩ := h.cancelled n hn
    exact ⟨Nat.lt_succ_of_lt hLt, hNe⟩
  · intro x hx
    exact (h.named x hx).mono (Nat.le_succ _)

/-- A name is given to a scope over a token that has been made by then. -/
theorem record (h : s.Apart kept) {issued : Nat} (hLe : s.issued ≤ issued) (name : String)
    (scope : Scope) (hScope : Token.Apart kept issued scope.token) :
    ({ s with directory := s.directory.record name (scope, ⟨issued, s.cancelled⟩) } : Site).Apart
      kept := by
  refine ⟨?_, ?_, ?_⟩
  · intro n hn
    exact Nat.lt_of_lt_of_le (h.keptMade n hn) hLe
  · intro n hn
    obtain ⟨hLt, hNe⟩ := h.cancelled n hn
    exact ⟨Nat.lt_of_lt_of_le hLt hLe, hNe⟩
  · intro x hx
    rcases List.mem_append.mp hx with hBefore | hNew
    · exact (h.named x hBefore).mono hLe
    · obtain rfl := List.mem_singleton.mp hNew
      exact hScope

theorem find? (h : s.Apart kept) {name : String} {scope : Scope}
    (hFind : s.directory.find? name = some scope) : Token.Apart kept s.issued scope.token := by
  obtain ⟨x, hx, rfl⟩ := Option.map_eq_some_iff.mp hFind
  exact h.named x (List.mem_reverse.mp (List.mem_of_find?_eq_some hx))

/-- The scopes that have a name are made and cancelled by commands. -/
theorem perform (h : s.Apart kept) (command : Scope.Command) :
    ({ s with directory := s.directory.perform s.now command } : Site).Apart kept := by
  have hRoot : Token.Apart kept (s.issued + 1) ⟨s.issued, []⟩ := .new h.keptMade nofun
  cases command with
  | create name => exact h.record (Nat.le_succ _) name ⟨_, none⟩ hRoot
  | createWithTimeout name timeout =>
    have hBelow : Token.Apart kept (s.issued + 2) ⟨s.issued + 1, [s.issued]⟩ :=
      .new (fun n hn => Nat.lt_succ_of_lt (h.keptMade n hn)) hRoot.made
    simp only [Scope.Directory.perform, Scope.withTimeout?]
    rcases s.directory.recordIfMade_childWithTimeout? name _ s.now timeout _ with hSame | hMade
    · rw [hSame]
      exact h
    · rw [hMade]
      exact h.record (Nat.le_add_right _ 2) name ⟨_, some _⟩ hBelow
  | derive name parent =>
    simp only [Scope.Directory.perform]
    split
    · next scope hFind =>
      have hBelow : Token.Apart kept (s.issued + 1) ⟨s.issued, scope.token.lineage⟩ :=
        .new h.keptMade (h.find? hFind).made
      exact h.record (Nat.le_succ _) name ⟨_, scope.deadline⟩ hBelow
    · exact h
  | deriveWithTimeout name parent timeout =>
    simp only [Scope.Directory.perform]
    split
    · next scope hFind =>
      have hBelow : Token.Apart kept (s.issued + 1) ⟨s.issued, scope.token.lineage⟩ :=
        .new h.keptMade (h.find? hFind).made
      rcases s.directory.recordIfMade_childWithTimeout? name scope s.now timeout
        s.directory.tokens with hSame | hMade
      · rw [hSame]
        exact h
      · rw [hMade]
        exact h.record (Nat.le_succ _) name ⟨_, some _⟩ hBelow
    · exact h
  | shareToken name source =>
    simp only [Scope.Directory.perform]
    split
    · next scope hFind =>
      have hToken := h.find? hFind
      exact h.record (Nat.le_refl _) name (.ofToken scope.token) hToken
    · exact h
  | cancel name =>
    simp only [Scope.Directory.perform]
    split
    · next scope hFind => exact h.cancel (h.find? hFind)
    · exact h

end Apart

theorem issued_le_perform (s : Site) (command : Scope.Command) :
    s.issued ≤ (s.directory.perform s.now command).tokens.issued := by
  cases command with
  | create => exact Nat.le_succ _
  | createWithTimeout name timeout =>
    simp only [Scope.Directory.perform, Scope.withTimeout?]
    rcases s.directory.recordIfMade_childWithTimeout? name _ s.now timeout _ with hSame | hMade
    · rw [hSame]
      exact Nat.le_refl _
    · rw [hMade]
      exact Nat.le_add_right _ 2
  | derive =>
    simp only [Scope.Directory.perform]
    split
    · exact Nat.le_succ _
    · exact Nat.le_refl _
  | deriveWithTimeout name parent timeout =>
    simp only [Scope.Directory.perform]
    split
    · next scope _ =>
      rcases s.directory.recordIfMade_childWithTimeout? name scope s.now timeout
        s.directory.tokens with hSame | hMade
      · rw [hSame]
        exact Nat.le_refl _
      · rw [hMade]
        exact Nat.le_succ _
    · exact Nat.le_refl _
  | shareToken | cancel =>
    simp only [Scope.Directory.perform]
    split <;> exact Nat.le_refl _

namespace Apart

/-- What is apart from some token is so without it. -/
theorem weaken (h : s.Apart kept) : s.Apart none :=
  ⟨nofun, fun n hn => ⟨(h.cancelled n hn).1, nofun⟩, fun x hx => (h.named x hx).weaken⟩

theorem of_calm (h : s.Apart kept) (hOnward : s.Onward s') (hCalm : s'.cancelled = s.cancelled) :
    s'.Apart kept := by
  refine ⟨?_, ?_, ?_⟩
  · intro n hn
    exact Nat.lt_of_lt_of_le (h.keptMade n hn) hOnward.issued
  · intro n hn
    rw [hCalm] at hn
    obtain ⟨hLt, hNe⟩ := h.cancelled n hn
    exact ⟨Nat.lt_of_lt_of_le hLt hOnward.issued, hNe⟩
  · intro x hx
    rw [hOnward.named] at hx
    exact (h.named x hx).mono hOnward.issued

/-- A token that was made since is kept, if nothing was cancelled. -/
theorem keep (h : s.Apart none) (hOnward : s.Onward s') (hCalm : s'.cancelled = s.cancelled)
    {n : Nat} (hLater : s.issued ≤ n) (hMade : n < s'.issued) : s'.Apart (some n) := by
  have hAfter := h.of_calm hOnward hCalm
  refine ⟨?_, ?_, ?_⟩
  · rintro _ ⟨⟩
    exact hMade
  · intro other hMem
    refine ⟨(hAfter.cancelled other hMem).1, ?_⟩
    rintro ⟨⟩
    rw [hCalm] at hMem
    exact absurd (h.cancelled _ hMem).1 (Nat.not_lt_of_le hLater)
  · intro x hMem
    rw [hOnward.named] at hMem
    exact ((h.named x hMem).keep hLater).mono hOnward.issued

/-- The scope of a request, which may be a new one. -/
theorem scopeOf (h : s.Apart kept) {r : Http.Request}
    (hRequest : ∀ scope ∈ r.scope, Token.Apart kept s.issued scope.token) :
    (s.scopeOf r).2.Apart kept ∧
      Token.Apart kept (s.scopeOf r).2.issued (s.scopeOf r).1.token ∧
        s.Onward (s.scopeOf r).2 := by
  unfold Site.scopeOf
  cases hScope : r.scope with
  | some scope => exact ⟨h, hRequest scope hScope, .refl s⟩
  | none =>
    exact ⟨h.issue, .new h.keptMade nofun, .issue s⟩

end Apart

end Site

/-! ## Looks -/

/-- All that a request holds is apart, and it is inside of no stage once it has ended. If it waits
for a slot, there is a bulkhead to wait for. -/
structure Flight.Apart (kept : Option Nat) (s : Site) (f : Flight) : Prop where
  frames : FramesApart kept s.issued f.frames
  activity : ∀ scope ∈ f.activity.scopes, Token.Apart kept s.issued scope.token
  closed : f.isPending = false → f.frames = []
  line : f.activity.inLine = true → s.gates.bulkhead.isSome = true

theorem Flight.Apart.weaken {kept : Option Nat} {s : Site} {f : Flight} (h : f.Apart kept s) :
    f.Apart none s :=
  ⟨fun limit scope hMem => (h.frames limit scope hMem).weaken,
    fun scope hMem => (h.activity scope hMem).weaken, h.closed, h.line⟩

theorem Flight.Apart.keep {n : Nat} {s : Site} {f : Flight} (h : f.Apart none s)
    (hLater : s.issued ≤ n) : f.Apart (some n) s :=
  ⟨fun limit scope hMem => (h.frames limit scope hMem).keep hLater,
    fun scope hMem => (h.activity scope hMem).keep hLater, h.closed, h.line⟩

theorem Flight.Apart.mono {kept : Option Nat} {s s' : Site} {f : Flight} (h : f.Apart kept s)
    (hIssued : s.issued ≤ s'.issued)
    (hGate : s'.gates.bulkhead.isSome = s.gates.bulkhead.isSome) : f.Apart kept s' := by
  refine ⟨?_, ?_, h.closed, fun hLine => hGate.trans (h.line hLine)⟩
  · intro limit scope hMem
    exact (h.frames limit scope hMem).mono hIssued
  · intro scope hMem
    exact (h.activity scope hMem).mono hIssued

/-- What is so after a look at a request, or after it was sent, to a site that was `s₀` before. -/
structure Looked (kept : Option Nat) (s₀ : Site) (after : Site × Flight) : Prop where
  site : after.1.Apart kept
  flight : after.2.Apart kept after.1
  onward : s₀.Onward after.1
  calm : after.2.isPending = true → after.1.cancelled = s₀.cancelled

namespace Flight

variable {kept : Option Nat} {s₀ s s' : Site} {f : Flight} {r : Http.Request} {scope : Scope}
  {rest : List Interceptor}

/-- A request inside of its frames. Nothing was cancelled so far. -/
structure Holding (kept : Option Nat) (s₀ s : Site) (f : Flight) : Prop where
  site : s.Apart kept
  frames : FramesApart kept s.issued f.frames
  onward : s₀.Onward s
  calm : s.cancelled = s₀.cancelled

theorem Holding.still (h : Holding kept s₀ s f) (hStill : s.Still s') : Holding kept s₀ s' f := by
  refine ⟨hStill.apart h.site, ?_, h.onward.trans (.of_still hStill), ?_⟩
  · rw [hStill.issued]
    exact h.frames
  · rw [hStill.cancelled]
    exact h.calm

/-- Only the site and the frames matter. -/
theorem Holding.same (h : Holding kept s₀ s f) {g : Flight} (hFrames : g.frames = f.frames) :
    Holding kept s₀ s g :=
  ⟨h.site, hFrames ▸ h.frames, h.onward, h.calm⟩

theorem Holding.push (h : Holding kept s₀ s f) {frame : Frame} (hFrame : frame.scope? = none) :
    Holding kept s₀ s (f.push frame) := by
  refine ⟨h.site, ?_, h.onward, h.calm⟩
  intro limit scope hMem
  rcases List.mem_cons.mp hMem with rfl | hBefore
  · cases hFrame
  · exact h.frames limit scope hBefore

theorem Holding.waits (h : Holding kept s₀ s f) (hPending : f.isPending = true)
    (hActivity : ∀ scope ∈ f.activity.scopes, Token.Apart kept s.issued scope.token)
    (hLine : f.activity.inLine = true → s.gates.bulkhead.isSome = true) :
    Looked kept s₀ (s, f) := by
  refine ⟨h.site, ⟨h.frames, hActivity, ?_, hLine⟩, h.onward, fun _ => h.calm⟩
  intro hEnded
  rw [hPending] at hEnded
  cases hEnded

/-- A request that ends holds nothing. -/
theorem looked_complete (hSite : s.Apart kept) (hOnward : s₀.Onward s) (f : Flight)
    (c : Completion) : Looked kept s₀ (f.complete s c) := by
  have hStill := Site.Still.ascend s c f.frames
  exact ⟨hStill.apart hSite, ⟨nofun, nofun, fun _ => rfl, nofun⟩,
    hOnward.trans (.of_still hStill), nofun⟩

theorem looked_reject (hSite : s.Apart kept) (hOnward : s₀.Onward s) (f : Flight)
    (failure : Failure) (event : Entry) : Looked kept s₀ (f.reject s failure event) := by
  have hStill : s.Still (s.note (rejection event failure)) := ⟨rfl, rfl, rfl⟩
  exact looked_complete (hStill.apart hSite) (hOnward.trans (.of_still hStill)) f _

theorem Holding.complete (h : Holding kept s₀ s f) (c : Completion) :
    Looked kept s₀ (f.complete s c) :=
  looked_complete h.site h.onward f c

theorem Holding.reject (h : Holding kept s₀ s f) (failure : Failure) (event : Entry) :
    Looked kept s₀ (f.reject s failure event) :=
  looked_reject h.site h.onward f failure event

/-! ### In its handler -/

theorem Holding.finishWork (h : Holding kept s₀ s f)
    (hScope : Token.Apart kept s.issued scope.token) : Looked kept s₀ (f.finishWork s scope) := by
  unfold Flight.finishWork
  split
  · exact looked_complete (h.site.cancel hScope) (h.onward.trans (.cancel s scope)) f _
  · exact h.complete _

theorem Holding.beginWork (h : Holding kept s₀ s f)
    (hScope : Token.Apart kept s.issued scope.token) : Looked kept s₀ (f.beginWork s scope) := by
  unfold Flight.beginWork
  split
  · exact h.finishWork hScope
  · exact Holding.waits ⟨h.site, h.frames, h.onward, h.calm⟩ rfl
      (List.forall_mem_singleton.mpr hScope) nofun

theorem Holding.awaitEnd (h : Holding kept s₀ s f)
    (hScope : Token.Apart kept s.issued scope.token) : Looked kept s₀ (f.awaitEnd s scope) := by
  unfold Flight.awaitEnd
  split
  · exact Holding.waits ⟨h.site, h.frames, h.onward, h.calm⟩ rfl
      (List.forall_mem_singleton.mpr hScope) nofun
  · split
    · exact h.complete _
    · exact h.beginWork hScope

/-! ### On its way in -/

/-- The same for a request on its way in, with the scope that is attached to it. -/
structure Incoming (kept : Option Nat) (s₀ : Site) (f : Flight) (s : Site) (r : Http.Request)
    (_rest : List Interceptor) : Prop extends Holding kept s₀ s f where
  request : ∀ scope ∈ r.scope, Token.Apart kept s.issued scope.token

/-- The scope of a request, which may be a new one. -/
theorem Incoming.scopeOf (h : Incoming kept s₀ f s r rest) :
    Incoming kept s₀ f (s.scopeOf r).2 r rest ∧
      Token.Apart kept (s.scopeOf r).2.issued (s.scopeOf r).1.token := by
  obtain ⟨hSite, hScope, hOnward⟩ := h.site.scopeOf h.request
  refine ⟨⟨⟨hSite, ?_, h.onward.trans hOnward, ?_⟩, ?_⟩, hScope⟩
  · intro limit scope hMem
    exact (h.frames limit scope hMem).mono hOnward.issued
  · rw [Site.cancelled_scopeOf]
    exact h.calm
  · intro scope hMem
    exact (h.request scope hMem).mono hOnward.issued

theorem Incoming.handle (h : Incoming kept s₀ f s r []) : Looked kept s₀ (f.handle s r) := by
  obtain ⟨hIncoming, hScope⟩ := h.scopeOf
  have hSeen : ∀ sight, Holding kept s₀ (s.scopeOf r).2
      { f.marked handlerLabel with sight := sight } :=
    fun _ => hIncoming.toHolding.same rfl
  unfold Flight.handle
  dsimp only
  split
  · exact (hSeen _).awaitEnd hScope
  · exact (hSeen _).beginWork hScope

theorem Incoming.arrive (h : Incoming kept s₀ f s r []) : Looked kept s₀ (f.arrive s r) := by
  have hHolding := h.toHolding
  unfold Flight.arrive
  split
  · split
    · exact h.handle
    · exact hHolding.complete _
    · refine (hHolding.still ?_).complete _
      exact ⟨rfl, rfl, rfl⟩
    · exact hHolding.complete _
    · exact hHolding.complete _
  · exact h.handle

abbrev LeadsTo (kept : Option Nat) (s₀ : Site) (rest : List Interceptor) (p : Passage) : Prop :=
  p.Keeps (Incoming kept s₀) (Looked kept s₀) rest

theorem Incoming.still (h : Incoming kept s₀ f s r rest) (hStill : s.Still s') :
    Incoming kept s₀ f s' r rest := by
  refine ⟨h.toHolding.still hStill, ?_⟩
  rw [hStill.issued]
  exact h.request

theorem Incoming.look (h : Incoming kept s₀ f s r rest) (hGate : s.gates.bulkhead.isSome = true)
    (hScope : Token.Apart kept s.issued scope.token) (b : Bulkhead) (ticket deadline : Nat) :
    LeadsTo kept s₀ rest (f.look s b ticket deadline scope rest r) := by
  have hAfter : ∀ b' journal, Incoming kept s₀ f ((s.setBulkhead b').note journal) r rest :=
    fun _ _ => h.still ⟨rfl, rfl, hGate.symm⟩
  unfold Flight.look
  dsimp only
  split
  · refine Holding.waits ((hAfter _ _).toHolding.same rfl) rfl ?_ fun _ => rfl
    intro other hMem
    rcases List.mem_cons.mp hMem with rfl | hRequest
    · exact hScope
    · exact h.request other (Option.mem_toList.mp hRequest)
  · exact ⟨(hAfter _ _).toHolding.push rfl, h.request⟩
  · exact (hAfter _ _).toHolding.reject _ _
  · exact (hAfter _ _).toHolding.complete _

theorem Incoming.meetGate (h : Incoming kept s₀ f s r rest) (gate : Interceptor) :
    LeadsTo kept s₀ rest (f.meetGate s r rest gate) := by
  obtain ⟨hIncoming, hScope⟩ := h.scopeOf
  unfold Flight.meetGate
  split
  · split
    · exact h
    · have hAfter : ∀ l, Incoming kept s₀ f (s.setLimiter l) r rest :=
        fun _ => h.still ⟨rfl, rfl, rfl⟩
      dsimp only
      split
      · exact hAfter _
      · exact (hAfter _).toHolding.reject _ _
  · split
    · exact h
    · have hAfter : ∀ b journal, Incoming kept s₀ f (((s.scopeOf r).2.setBreaker b).note journal) r
          rest := fun _ _ => hIncoming.still ⟨rfl, rfl, rfl⟩
      dsimp only
      split
      · exact ⟨(hAfter _ _).toHolding.push rfl, (hAfter _ _).request⟩
      · exact (hAfter _ _).toHolding.reject _ _
  · split
    · exact h
    · next b hGate =>
      have hHere : (s.scopeOf r).2.gates.bulkhead.isSome = true := by
        rw [Site.gates_scopeOf, hGate]
        rfl
      exact hIncoming.look hHere hScope _ _ _
  · exact h

/-- A timeout makes a scope for the request. -/
theorem Incoming.timeout (h : Incoming kept s₀ f s r rest) (limit : Nat) :
    LeadsTo kept s₀ rest (f.meet s r rest (.timeout limit)) := by
  obtain ⟨hIncoming, hParent⟩ := h.scopeOf
  have hNew : ∀ deadline, Token.Apart kept ((s.scopeOf r).2.issued + 1)
      (Scope.mk ⟨(s.scopeOf r).2.issued, (s.scopeOf r).1.token.lineage⟩ deadline).token :=
    fun _ => .new hIncoming.site.keptMade hParent.made
  refine ⟨⟨hIncoming.site.issue, ?_, hIncoming.onward.trans (.issue _), hIncoming.calm⟩, ?_⟩
  · intro limit' scope hMem
    rcases List.mem_cons.mp hMem with hHere | hBefore
    · cases hHere
      exact hNew _
    · exact (hIncoming.frames limit' scope hBefore).mono (Nat.le_succ _)
  · rintro scope ⟨⟩
    exact hNew _

theorem Incoming.meet {stage : Interceptor} (h : Incoming kept s₀ f s r (stage :: rest)) :
    LeadsTo kept s₀ rest (f.meet s r rest stage) := by
  have hHolding := h.toHolding
  have hRest : Incoming kept s₀ f s r rest := ⟨hHolding, h.request⟩
  cases stage with
  | panicRecovery => exact ⟨hHolding.push rfl, h.request⟩
  | timeout limit => exact hRest.timeout limit
  | rateLimit => exact hRest.meetGate .rateLimit
  | circuitBreaker => exact hRest.meetGate .circuitBreaker
  | bulkhead => exact hRest.meetGate .bulkhead
  | requestLogging =>
    have hNoted : ∀ ids, Incoming kept s₀ f { s with ids := ids } r rest :=
      fun _ => hRest.still ⟨rfl, rfl, rfl⟩
    exact ⟨(hNoted _).toHolding.push rfl, h.request⟩
  | errorTranslation => exact ⟨hHolding.push rfl, h.request⟩
  | schemaValidation v =>
    have hMarked : Holding kept s₀ s (f.marked v.label) := hHolding.same rfl
    simp only [Flight.meet]
    cases v.check r with
    | accepted => exact ⟨hMarked, h.request⟩
    | rejected failure =>
      have hNoted : ∀ entries, Holding kept s₀ (s.note entries) (f.marked v.label) :=
        fun _ => hMarked.still ⟨rfl, rfl, rfl⟩
      exact (hNoted _).complete _
    | panicked payload => exact looked_complete hMarked.site hMarked.onward _ _
  | mark label bypasses rejection =>
    have hMarked : Holding kept s₀ s (f.marked label) := hHolding.same rfl
    simp only [Flight.meet]
    cases rejection with
    | none => exact ⟨hMarked, h.request⟩
    | some failure => exact hMarked.complete _

theorem Incoming.pass {stage : Interceptor} (h : Incoming kept s₀ f s r (stage :: rest)) :
    LeadsTo kept s₀ rest (f.pass s r stage rest) := by
  unfold Flight.pass
  split
  · exact ⟨h.toHolding, h.request⟩
  · exact h.meet

theorem looked_enter (h : Incoming kept s₀ f s r rest) : Looked kept s₀ (f.enter s r rest) :=
  enter_keeps (fun _ _ _ _ _ => Incoming.pass) (fun _ _ _ => Incoming.arrive) f s r rest h

/-! ### At an instant -/

theorem Apart.holding (h : f.Apart kept s) (hSite : s.Apart kept) : Holding kept s s f :=
  ⟨hSite, h.frames, .refl s, rfl⟩

theorem looked_refl (h : f.Apart kept s) (hSite : s.Apart kept) : Looked kept s (s, f) :=
  ⟨hSite, h, .refl s, fun _ => rfl⟩

/-- A look for a slot. -/
theorem Apart.look (h : f.Apart kept s) (hSite : s.Apart kept) {ticket deadline : Nat}
    (hQueued : f.activity = .queued ticket deadline scope rest r) (b : Bulkhead) :
    LeadsTo kept s rest (f.look s b ticket deadline scope rest r) := by
  have hActivity := h.activity
  rw [hQueued] at hActivity
  have hGate : s.gates.bulkhead.isSome = true := h.line (by rw [hQueued]; rfl)
  have hIncoming : Incoming kept s f s r rest :=
    ⟨h.holding hSite, fun other hMem =>
      hActivity other (List.mem_cons_of_mem _ (Option.mem_toList.mpr hMem))⟩
  exact hIncoming.look hGate (hActivity scope List.mem_cons_self) b ticket deadline

theorem looked_pollActivity (h : f.Apart kept s) (hSite : s.Apart kept) :
    Looked kept s (f.pollActivity s) := by
  have hHolding := h.holding hSite
  have hActivity := h.activity
  cases hNow : f.activity with
  | queued ticket deadline scope rest r =>
    rw [pollActivity_queued hNow]
    split
    · exact looked_refl h hSite
    · exact follow_keeps (fun _ _ _ => looked_enter) (h.look hSite hNow _)
  | awaitingEnd scope =>
    rw [hNow] at hActivity
    simp only [Flight.pollActivity, hNow]
    exact hHolding.awaitEnd (hActivity scope List.mem_cons_self)
  | working done scope =>
    rw [hNow] at hActivity
    simp only [Flight.pollActivity, hNow]
    split
    · exact hHolding.finishWork (hActivity scope List.mem_cons_self)
    · exact looked_refl h hSite
  | ended | aborted =>
    simp only [Flight.pollActivity, hNow]
    exact looked_refl h hSite

theorem looked_pollTimeouts (h : Looked kept s₀ (s, f)) : Looked kept s₀ (f.pollTimeouts s) := by
  unfold Flight.pollTimeouts
  cases hExpired : expired? s f.frames with
  | none => exact h
  | some e =>
    have hStill := Site.Still.dropped s f e.inner
    have hMem : Frame.timeout e.limit e.scope ∈ f.frames := by
      rw [expired?_split hExpired]
      exact List.mem_append_right _ List.mem_cons_self
    have hScope := h.flight.frames _ _ hMem
    rw [← hStill.issued] at hScope
    exact looked_reject ((hStill.apart h.site).cancel hScope)
      ((h.onward.trans (.of_still hStill)).trans (.cancel _ _)) _ _ _

theorem looked_poll (h : f.Apart kept s) (hSite : s.Apart kept) :
    Looked kept s (f.poll s) := by
  have hActivity := looked_pollActivity h hSite
  unfold Flight.poll
  dsimp only
  split
  · exact looked_pollTimeouts hActivity
  · exact hActivity

theorem still_abort (f : Flight) (s : Site) : s.Still (f.abort s).1 := by
  unfold Flight.abort
  split
  · exact .dropped s f f.frames
  · exact .refl s

theorem looked_abort (h : f.Apart kept s) (hSite : s.Apart kept) :
    Looked kept s (f.abort s) := by
  have hStill := Site.Still.dropped s f f.frames
  unfold Flight.abort
  split
  · exact ⟨hStill.apart hSite, ⟨nofun, nofun, fun _ => rfl, nofun⟩, .of_still hStill, nofun⟩
  · exact looked_refl h hSite

end Flight

end Gatehouse.Pipeline
