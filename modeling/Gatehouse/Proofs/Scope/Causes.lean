import Gatehouse.Scope.Directory

/-!
# Why a scope has ended, and since when

A scope has no cause as long as nobody has cancelled it, or a scope above it, and its deadline is
ahead. Nothing takes a cancellation back, so a scope that has ended stays ended.

* `Scope.cause?_eq_none`: a scope that has not ended.
* `Scope.cancelled?_eq_cause?`: a wait for the end of a scope agrees with it.
* `Scope.cause?_eq_none_of_later`: who has not ended now had not ended before.
* `Scope.Inherits`: a scope that ends with another one, or before.
* `Scope.Derived`: all that was made from a scope, which ends when that is cancelled.
-/

namespace Gatehouse

theorem Tokens.isCancelled_mono {ts ts' : Tokens} (hGrows : ts.cancelled ⊆ ts'.cancelled)
    {token : Token} (h : ts.isCancelled token = true) : ts'.isCancelled token = true := by
  simp only [isCancelled, List.any_eq_true, List.contains_iff_mem] at h ⊢
  obtain ⟨n, hLineage, hCancelled⟩ := h
  exact ⟨n, hLineage, hGrows hCancelled⟩

/-- Only the cancellations matter, not how many tokens there are. -/
theorem Tokens.isCancelled_congr {ts ts' : Tokens} (h : ts'.cancelled = ts.cancelled)
    (token : Token) : ts'.isCancelled token = ts.isCancelled token := by
  rw [isCancelled, isCancelled, h]

/-- A cancellation leaves the tokens as they were that are not below. -/
theorem Tokens.isCancelled_cancel_of_not_mem {ts : Tokens} {token other : Token}
    (hNot : other.number ∉ token.lineage) :
    (ts.cancel other).isCancelled token = ts.isCancelled token := by
  rw [Bool.eq_iff_iff]
  simp only [isCancelled, cancel, List.any_eq_true, List.contains_iff_mem, List.mem_cons]
  constructor
  · rintro ⟨n, hn, rfl | hOld⟩
    · exact absurd hn hNot
    · exact ⟨n, hn, hOld⟩
  · rintro ⟨n, hn, hOld⟩
    exact ⟨n, hn, .inr hOld⟩

namespace Scope

variable {s : Scope} {ts ts' : Tokens} {now now' : Nat}

theorem cause?_congr (h : ts'.cancelled = ts.cancelled) : s.cause? ts' now = s.cause? ts now := by
  rw [cause?, cause?, Tokens.isCancelled_congr h]

theorem passed_eq_false {deadline : Option Nat} :
    passed now deadline = false ↔ ∀ t ∈ deadline, now < t := by
  cases deadline <;> simp [passed]

theorem cause?_eq_none :
    s.cause? ts now = none ↔ ts.isCancelled s.token = false ∧ ∀ t ∈ s.deadline, now < t := by
  rw [← passed_eq_false, cause?]
  cases ts.isCancelled s.token <;> cases passed now s.deadline <;> simp

/-- A wait for the end of a scope sees what the scope says of itself. -/
@[simp] theorem cancelled?_eq_cause? (s : Scope) (ts : Tokens) (now : Nat) :
    s.cancelled? ts now = s.cause? ts now := by
  simp only [cancelled?, cause?]
  cases s.deadline with
  | none => simp [passed]
  | some deadline => cases ts.isCancelled s.token <;> simp [passed]

theorem cause?_eq_none_of_later (hGrows : ts.cancelled ⊆ ts'.cancelled) (hNow : now ≤ now')
    (h : s.cause? ts' now' = none) : s.cause? ts now = none := by
  obtain ⟨hCancelled, hDeadline⟩ := cause?_eq_none.mp h
  refine cause?_eq_none.mpr ⟨Bool.eq_false_iff.mpr fun hBefore => ?_, fun t hMem => ?_⟩
  · rw [Tokens.isCancelled_mono hGrows hBefore] at hCancelled
    cases hCancelled
  · exact Nat.lt_of_le_of_lt hNow (hDeadline t hMem)

/-- There is a child with a timeout if a clock shows the instant at which that ends. -/
theorem childWithTimeout?_eq_some_iff {timeout : Nat} {made : Scope × Tokens} :
    s.childWithTimeout? now timeout ts = some made ↔
      now + timeout ≤ Instant.latest ∧ s.childUntil (now + timeout) ts = made := by
  simp only [childWithTimeout?, Option.map_eq_some_iff, Instant.after?_eq_some_iff]
  constructor
  · rintro ⟨_, ⟨hShown, rfl⟩, hMade⟩
    exact ⟨hShown, hMade⟩
  · rintro ⟨hShown, hMade⟩
    exact ⟨_, ⟨hShown, rfl⟩, hMade⟩

theorem childWithTimeout?_eq_some {timeout : Nat} (hShown : now + timeout ≤ Instant.latest) :
    s.childWithTimeout? now timeout ts = some (s.childUntil (now + timeout) ts) :=
  childWithTimeout?_eq_some_iff.mpr ⟨hShown, rfl⟩

theorem childWithTimeout?_eq_none {timeout : Nat} (hNot : ¬ now + timeout ≤ Instant.latest) :
    s.childWithTimeout? now timeout ts = none := by
  rw [Option.eq_none_iff_forall_not_mem]
  exact fun made hMade => hNot (childWithTimeout?_eq_some_iff.mp hMade).1

/-- A directory has one more scope, or it is as it was. -/
theorem Directory.recordIfMade_childWithTimeout? (d : Directory) (name : String) (s : Scope)
    (now timeout : Nat) (ts : Tokens) :
    d.recordIfMade name (s.childWithTimeout? now timeout ts) = d ∨
      d.recordIfMade name (s.childWithTimeout? now timeout ts) =
        d.record name (s.childUntil (now + timeout) ts) := by
  by_cases hShown : now + timeout ≤ Instant.latest
  · exact .inr (by rw [childWithTimeout?_eq_some hShown, recordIfMade])
  · exact .inl (by rw [childWithTimeout?_eq_none hShown, recordIfMade])

/-- As many milliseconds as 64 bits can hold end at an instant that a clock shows, unless it has been
running for more than `2 ^ 62` seconds. -/
theorem childWithTimeout?_ofMillis {ms : Nat} (hBits : ms < Nat.pow 2 64)
    (hNow : now ≤ Duration.ofSeconds (Nat.pow 2 62)) :
    s.childWithTimeout? now (Duration.ofMillis ms) ts =
      some (s.childUntil (now + Duration.ofMillis ms) ts) := by
  refine childWithTimeout?_eq_some ?_
  simp only [Duration.ofMillis, Duration.ofSeconds, Duration.nanosPerMilli, Instant.latest,
    Duration.nanosPerSecond, Nat.pow_eq, Nat.reducePow, Nat.reduceMul, Nat.reduceSub] at *
  omega

/-- No command takes a cancellation back. -/
theorem Directory.cancelled_perform (d : Directory) (now : Nat) (command : Command) :
    d.tokens.cancelled ⊆ (d.perform now command).tokens.cancelled := by
  cases command with
  | create => exact List.Subset.refl _
  | createWithTimeout name timeout =>
    simp only [perform, withTimeout?]
    rcases d.recordIfMade_childWithTimeout? name _ now timeout _ with hSame | hMade
    · rw [hSame]
      exact List.Subset.refl _
    · rw [hMade]
      exact List.Subset.refl _
  | deriveWithTimeout name parent timeout =>
    simp only [perform]
    split
    · next s _ =>
      rcases d.recordIfMade_childWithTimeout? name s now timeout d.tokens with hSame | hMade
      · rw [hSame]
        exact List.Subset.refl _
      · rw [hMade]
        exact List.Subset.refl _
    · exact List.Subset.refl _
  | derive _ parent | shareToken _ parent =>
    simp only [perform]
    split <;> exact List.Subset.refl _
  | cancel name =>
    simp only [perform]
    split
    · exact List.subset_cons_self _ _
    · exact List.Subset.refl _

/-! ## Scopes below others -/

/-- A scope that ends with another one, or before. -/
structure Inherits (s above : Scope) : Prop where
  lineage : above.token.lineage ⊆ s.token.lineage
  deadline : ∀ t ∈ above.deadline, ∃ t' ∈ s.deadline, t' ≤ t

theorem Inherits.refl (s : Scope) : s.Inherits s :=
  ⟨List.Subset.refl _, fun t hDeadline => ⟨t, hDeadline, Nat.le_refl t⟩⟩

theorem Inherits.trans {s above top : Scope} (h : s.Inherits above) (h' : above.Inherits top) :
    s.Inherits top := by
  refine ⟨List.Subset.trans h'.lineage h.lineage, ?_⟩
  intro t hDeadline
  obtain ⟨t', hAbove, hLe⟩ := h'.deadline t hDeadline
  obtain ⟨t'', hOwn, hLe'⟩ := h.deadline t' hAbove
  exact ⟨t'', hOwn, Nat.le_trans hLe' hLe⟩

theorem inherits_childUntil (s : Scope) (limit : Nat) (ts : Tokens) :
    (s.childUntil limit ts).1.Inherits s := by
  refine ⟨List.subset_cons_self _ _, ?_⟩
  intro t hDeadline
  refine ⟨min t limit, ?_, Nat.min_le_left _ _⟩
  simp only [childUntil, Option.mem_def.mp hDeadline]
  rfl

theorem Inherits.cause?_eq_none {s above : Scope} (h : s.Inherits above)
    (hNone : s.cause? ts now = none) : above.cause? ts now = none := by
  obtain ⟨hCancelled, hDeadline⟩ := Scope.cause?_eq_none.mp hNone
  refine Scope.cause?_eq_none.mpr ⟨?_, ?_⟩
  · rw [Tokens.isCancelled, List.any_eq_false] at hCancelled ⊢
    exact fun n hn => hCancelled n (h.lineage hn)
  · intro t hAbove
    obtain ⟨t', hOwn, hLe⟩ := h.deadline t hAbove
    exact Nat.lt_of_lt_of_le (hDeadline t' hOwn) hLe

/-- A cancellation leaves the scopes as they were that are not below. -/
theorem cause?_cancel_of_not_mem {other : Scope} (hNot : other.token.number ∉ s.token.lineage) :
    s.cause? (other.cancel ts) now = s.cause? ts now := by
  rw [cause?, cause?, cancel, Tokens.isCancelled_cancel_of_not_mem hNot]

/-- A scope, and all that is made from it. -/
inductive Derived (s : Scope) : Scope → Prop where
  | self : Derived s s
  | child {d : Scope} (h : Derived s d) (ts : Tokens) : Derived s (d.child ts).1
  | childUntil {d : Scope} (h : Derived s d) (limit : Nat) (ts : Tokens) :
      Derived s (d.childUntil limit ts).1
  | ofToken {d : Scope} (h : Derived s d) : Derived s (.ofToken d.token)

theorem Derived.number_mem {s d : Scope} (h : Derived s d) : s.token.number ∈ d.token.lineage := by
  induction h with
  | self => exact List.mem_cons_self
  | child _ _ ih | childUntil _ _ _ ih => exact List.mem_cons_of_mem _ ih
  | ofToken _ ih => exact ih

/-- With a scope, everything that was made from it is cancelled. -/
theorem Derived.cause?_eq {s d : Scope} (h : Derived s d)
    (hCancelled : s.token.number ∈ ts.cancelled) : d.cause? ts now = some .cancelled := by
  have hBelow : ts.isCancelled d.token = true := by
    rw [Tokens.isCancelled, List.any_eq_true]
    exact ⟨_, h.number_mem, List.contains_iff_mem.mpr hCancelled⟩
  rw [cause?, hBelow, if_pos rfl]

end Scope

end Gatehouse
