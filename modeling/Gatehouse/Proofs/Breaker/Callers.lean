import Gatehouse.Proofs.Breaker.Announcements

/-!
# Several callers of one breaker

A use of a breaker works on the machine and takes the changes of state out of it under one lock.
The caller lets go of the lock before it publishes what it took, so other callers may come between.
Nothing is lost and nothing is published twice, whatever they do. The order is that of the machine
as long as nobody takes a change out while an earlier one is still to be published; where somebody
does, the later change can go out first, and then the gauge is left with the earlier one.

* `Callers`: a breaker, what its callers have still to publish, and all changes that were taken.
* `Callers.Sound`, `Callers.InOrder`: the invariants of all runs, and of the orderly ones.
* `Callers.overtake`: what comes of a change that is taken too early.
* `published_as_made`: what holds of every run, and for which of them the order is kept.
-/

namespace Gatehouse.Breaker

namespace Calls

/-- What a use does under the lock: it works on the machine and takes the changes out of it. -/
def locked (c : Calls) (use : Use) : List Transition × Calls :=
  let (calls, transitions, breaker) := c.breaker.locked fun m =>
    let next := ((⟨m, c.calls⟩ : Session).perform (operation c.breaker.policy c.now use)).2
    (next.calls, next.machine)
  (transitions, { c with breaker := breaker, calls := calls })

/-- What a caller does with each of the changes that it took. -/
def publish (c : Calls) (t : Transition) : Calls := c.keep (c.breaker.publish t)

theorem foldl_publish (c : Calls) (ts : List Transition) :
    ts.foldl publish c = c.keep (c.breaker.publishAll ts) := by
  induction ts generalizing c with
  | nil => simp [keep, CircuitBreaker.publishAll]
  | cons t ts ih => simp [ih, publish, keep, CircuitBreaker.publishAll]

/-- A use that nobody comes between is its locked section followed by its publications. -/
theorem perform_eq_locked (c : Calls) (hDrained : c.breaker.machine.transitions = []) (use : Use) :
    c.perform c.now use = (c.locked use).1.foldl publish (c.locked use).2 := by
  rw [perform_eq c hDrained, foldl_publish, CircuitBreaker.publishAll_eq]
  rfl

end Calls

/-- One of the callers goes on, or time does. -/
inductive Callers.Step where
  | enter (caller : Nat) (use : Use)
  | publish (caller : Nat)
  | advance (d : Nat)

/-- A breaker and its callers: what each of them has taken and not published yet, and all that was
ever taken, in the order in which the machine made it. -/
structure Callers where
  shared : Calls
  pending : List (List Transition)
  made : List Transition

namespace Callers

/-- A new breaker and some callers that have done nothing yet. -/
def begin (name : String) (policy : Policy) (settings : Settings) (begun callers : Nat) : Callers :=
  ⟨.begin name policy settings begun, List.replicate callers [], []⟩

/-- A caller begins a use only once it has published all that it took. -/
def step (c : Callers) : Step → Callers
  | .enter caller use =>
    match c.pending[caller]? with
    | some [] =>
      let (taken, shared) := c.shared.locked use
      ⟨shared, c.pending.set caller taken, c.made ++ taken⟩
    | _ => c
  | .publish caller =>
    match c.pending[caller]? with
    | some (t :: rest) =>
      { c with shared := c.shared.publish t, pending := c.pending.set caller rest }
    | _ => c
  | .advance d => { c with shared := c.shared.advance d }

def through (c : Callers) (steps : List Step) : Callers := steps.foldl step c

def published (c : Callers) : List Transition := c.shared.breaker.feed.published

/-- Nobody has anything left to publish. -/
def Idle (c : Callers) : Prop := ∀ ts ∈ c.pending, ts = []

instance (c : Callers) : Decidable c.Idle :=
  inferInstanceAs (Decidable (∀ ts ∈ c.pending, ts = []))

/-- The step takes no change out of the machine while an earlier one is still to be published. -/
def Waits (c : Callers) : Step → Prop
  | .enter caller use => c.pending[caller]? = some [] → (c.shared.locked use).1 ≠ [] → c.Idle
  | _ => True

/-- Every step of a run waits for the publications that it would come before. -/
def Orderly (c : Callers) : List Step → Prop
  | [] => True
  | step :: rest => c.Waits step ∧ (c.step step).Orderly rest

instance (c : Callers) : (s : Step) → Decidable (c.Waits s)
  | .enter caller use => inferInstanceAs (Decidable
      (c.pending[caller]? = some [] → (c.shared.locked use).1 ≠ [] → c.Idle))
  | .publish _ => .isTrue trivial
  | .advance _ => .isTrue trivial

instance decidableOrderly : (steps : List Step) → (c : Callers) → Decidable (c.Orderly steps)
  | [], _ => .isTrue trivial
  | step :: rest, c => @instDecidableAnd _ _ _ (decidableOrderly rest (c.step step))

variable {name : String} {c : Callers} {caller : Nat}

/-! ## What a step does -/

theorem step_enter (h : c.pending[caller]? = some []) (use : Use) :
    c.step (.enter caller use) = ⟨(c.shared.locked use).2,
      c.pending.set caller (c.shared.locked use).1, c.made ++ (c.shared.locked use).1⟩ := by
  simp [step, h]

theorem step_enter_of_ne (h : c.pending[caller]? ≠ some []) (use : Use) :
    c.step (.enter caller use) = c := by
  simp only [step]

theorem step_publish {t : Transition} {rest : List Transition}
    (h : c.pending[caller]? = some (t :: rest)) :
    c.step (.publish caller) =
      { c with shared := c.shared.publish t, pending := c.pending.set caller rest } := by
  simp [step, h]

theorem step_publish_of_ne (h : ∀ t rest, c.pending[caller]? ≠ some (t :: rest)) :
    c.step (.publish caller) = c := by
  simp only [step]

/-- The pending changes of one caller among those of the others. -/
theorem pending_split {pending : List (List Transition)} {ts : List Transition}
    (h : pending[caller]? = some ts) :
    ∃ front back, pending = front ++ ts :: back ∧
      ∀ ts', pending.set caller ts' = front ++ ts' :: back := by
  obtain ⟨hLt, rfl⟩ := List.getElem?_eq_some_iff.mp h
  refine ⟨pending.take caller, pending.drop (caller + 1), ?_, fun ts' => ?_⟩
  · rw [List.getElem_cons_drop, List.take_append_drop]
  · rw [List.set_eq_take_append_cons_drop, if_pos hLt]

/-! ## Every run -/

/-- What holds whatever the callers do. -/
structure Sound (name : String) (c : Callers) : Prop where
  called : c.shared.breaker.name = name
  drained : c.shared.breaker.machine.transitions = []
  traced : Leads .closed c.made c.shared.breaker.machine.state
  account : (c.published ++ c.pending.flatten).Perm c.made
  journal : c.shared.journal = c.published.flatMap (CircuitBreaker.report name)

/-- What the machine makes of a use goes on from the changes that it made before. -/
theorem leads_locked (hDrained : c.shared.breaker.machine.transitions = [])
    (h : Leads .closed c.made c.shared.breaker.machine.state) (use : Use) :
    Leads .closed (c.made ++ (c.shared.locked use).1)
      (c.shared.locked use).2.breaker.machine.state := by
  let s : Session := ⟨c.shared.breaker.machine, c.shared.calls⟩
  have hTraced : (s.noting c.made).machine.Traced := by
    simpa [Machine.Traced, Session.noting, Machine.noting, s, hDrained] using h
  have hNext := Session.traced_perform hTraced (operation c.shared.breaker.policy c.shared.now use)
  rw [Session.perform_noting] at hNext
  exact hNext

theorem Sound.enter (h : Sound name c) (use : Use) (hFree : c.pending[caller]? = some []) :
    Sound name (c.step (.enter caller use)) := by
  obtain ⟨front, back, hPending, hSet⟩ := pending_split hFree
  rw [step_enter hFree]
  refine ⟨h.called, rfl, leads_locked h.drained h.traced use, ?_, h.journal⟩
  refine List.perm_iff_count.mpr fun t => ?_
  have hCount := h.account.count_eq t
  change List.count t (c.published ++ _) = _
  rw [hPending] at hCount
  rw [hSet]
  simp only [List.flatten_append, List.flatten_cons, List.count_append, List.count_nil] at hCount ⊢
  omega

theorem Sound.publish (h : Sound name c) {t : Transition} {rest : List Transition}
    (hPending : c.pending[caller]? = some (t :: rest)) :
    Sound name (c.step (.publish caller)) := by
  obtain ⟨front, back, hSplit, hSet⟩ := pending_split hPending
  rw [step_publish hPending]
  refine ⟨h.called, h.drained, h.traced, ?_, ?_⟩
  · refine List.perm_iff_count.mpr fun t' => ?_
    have hCount := h.account.count_eq t'
    change List.count t' ((c.published ++ [t]) ++ _) = _
    rw [hSplit] at hCount
    rw [hSet]
    simp only [List.flatten_append, List.flatten_cons, List.count_append, List.count_cons,
      List.count_nil] at hCount ⊢
    omega
  · change c.shared.journal ++ CircuitBreaker.report c.shared.breaker.name t =
      (c.published ++ [t]).flatMap _
    rw [h.journal, h.called, Journal.flatMap_concat_report]

/-- The step lemma of all runs. -/
theorem Sound.step (h : Sound name c) (s : Step) : Sound name (c.step s) := by
  cases s with
  | enter caller use =>
    by_cases hFree : c.pending[caller]? = some []
    · exact h.enter use hFree
    · rw [step_enter_of_ne hFree]
      exact h
  | publish caller =>
    by_cases hPending : ∃ t rest, c.pending[caller]? = some (t :: rest)
    · obtain ⟨t, rest, hPending⟩ := hPending
      exact h.publish hPending
    · rw [step_publish_of_ne fun t rest hSome => hPending ⟨t, rest, hSome⟩]
      exact h
  | advance d => exact ⟨h.called, h.drained, h.traced, h.account, h.journal⟩

theorem sound_begin (name : String) (policy : Policy) (settings : Settings) (begun callers : Nat) :
    Sound name (begin name policy settings begun callers) :=
  ⟨rfl, rfl, rfl, by simp [begin, published, Calls.begin, Calls.start, CircuitBreaker.create,
    Feed.empty], rfl⟩

theorem Sound.through (h : Sound name c) (steps : List Step) : Sound name (c.through steps) := by
  induction steps generalizing c with
  | nil => exact h
  | cons s rest ih => exact ih (h.step s)

theorem Idle.flatten_eq (h : c.Idle) : c.pending.flatten = [] := List.flatten_eq_nil_iff.mpr h

/-! ## The orderly runs -/

/-- At most one caller has anything to publish, and it comes next. -/
structure InOrder (c : Callers) : Prop where
  alone : c.pending.Pairwise fun ts ts' => ts = [] ∨ ts' = []
  order : c.published ++ c.pending.flatten = c.made

/-- Where one caller has something to publish, the others have nothing. -/
theorem others_of_alone {front back : List (List Transition)} {ts : List Transition}
    (h : (front ++ ts :: back).Pairwise fun ts ts' => ts = [] ∨ ts' = []) (hSome : ts ≠ []) :
    ∀ ts' ∈ front ++ back, ts' = [] := by
  obtain ⟨-, hBack, hFront⟩ := List.pairwise_append.mp h
  intro ts' hMem
  rcases List.mem_append.mp hMem with hMem | hMem
  · exact (hFront ts' hMem ts List.mem_cons_self).resolve_right hSome
  · exact ((List.pairwise_cons.mp hBack).1 ts' hMem).resolve_left hSome

theorem alone_of_others {front back : List (List Transition)} (ts : List Transition)
    (h : ∀ ts' ∈ front ++ back, ts' = []) :
    (front ++ ts :: back).Pairwise (fun ts ts' => ts = [] ∨ ts' = []) ∧
      (front ++ ts :: back).flatten = ts := by
  have hFront : ∀ ts' ∈ front, ts' = [] := fun ts' hMem => h ts' (List.mem_append_left _ hMem)
  have hBack : ∀ ts' ∈ back, ts' = [] := fun ts' hMem => h ts' (List.mem_append_right _ hMem)
  constructor
  · refine List.pairwise_append.mpr ⟨?_, List.pairwise_cons.mpr ⟨?_, ?_⟩, ?_⟩
    · exact List.pairwise_of_forall_mem_list fun a hMem b _ => .inl (hFront a hMem)
    · exact fun b hMem => .inr (hBack b hMem)
    · exact List.pairwise_of_forall_mem_list fun a hMem b _ => .inl (hBack a hMem)
    · exact fun a hMem b _ => .inl (hFront a hMem)
  · simp [List.flatten_eq_nil_iff.mpr hFront, List.flatten_eq_nil_iff.mpr hBack]

theorem InOrder.enter (h : InOrder c) (use : Use) (hFree : c.pending[caller]? = some [])
    (hWaits : c.Waits (.enter caller use)) : InOrder (c.step (.enter caller use)) := by
  obtain ⟨front, back, hPending, hSet⟩ := pending_split hFree
  rw [step_enter hFree]
  by_cases hTaken : (c.shared.locked use).1 = []
  · rw [hTaken, hSet, ← hPending, List.append_nil]
    exact ⟨h.alone, h.order⟩
  · have hIdle := hWaits hFree hTaken
    have hOthers : ∀ ts ∈ front ++ back, ts = [] := by
      intro ts hMem
      refine hIdle ts ?_
      rw [hPending]
      simp only [List.mem_append, List.mem_cons] at hMem ⊢
      tauto
    obtain ⟨hAlone, hFlatten⟩ := alone_of_others (c.shared.locked use).1 hOthers
    have hOrder := h.order
    rw [hIdle.flatten_eq, List.append_nil] at hOrder
    refine ⟨?_, ?_⟩
    · rw [hSet]
      exact hAlone
    · rw [hSet, hFlatten, ← hOrder]
      rfl

theorem InOrder.publish (h : InOrder c) {t : Transition} {rest : List Transition}
    (hPending : c.pending[caller]? = some (t :: rest)) : InOrder (c.step (.publish caller)) := by
  obtain ⟨front, back, hSplit, hSet⟩ := pending_split hPending
  have hAlone := h.alone
  have hOrder := h.order
  rw [hSplit] at hAlone hOrder
  have hOthers := others_of_alone hAlone (List.cons_ne_nil t rest)
  obtain ⟨hNext, hFlatten⟩ := alone_of_others rest hOthers
  rw [(alone_of_others (t :: rest) hOthers).2] at hOrder
  rw [step_publish hPending]
  refine ⟨?_, ?_⟩
  · rw [hSet]
    exact hNext
  · rw [hSet, hFlatten, ← hOrder]
    exact List.append_assoc _ _ _

/-- The step lemma of the orderly runs. -/
theorem InOrder.step (h : InOrder c) {s : Step} (hWaits : c.Waits s) : InOrder (c.step s) := by
  cases s with
  | enter caller use =>
    by_cases hFree : c.pending[caller]? = some []
    · exact h.enter use hFree hWaits
    · rw [step_enter_of_ne hFree]
      exact h
  | publish caller =>
    by_cases hPending : ∃ t rest, c.pending[caller]? = some (t :: rest)
    · obtain ⟨t, rest, hPending⟩ := hPending
      exact h.publish hPending
    · rw [step_publish_of_ne fun t rest hSome => hPending ⟨t, rest, hSome⟩]
      exact h
  | advance d => exact ⟨h.alone, h.order⟩

theorem InOrder.through (h : InOrder c) {steps : List Step} (hOrderly : c.Orderly steps) :
    InOrder (c.through steps) := by
  induction steps generalizing c with
  | nil => exact h
  | cons s rest ih => exact ih (h.step hOrderly.1) hOrderly.2

theorem inOrder_begin (name : String) (policy : Policy) (settings : Settings)
    (begun callers : Nat) : InOrder (begin name policy settings begun callers) := by
  have hNothing : ∀ ts ∈ List.replicate callers ([] : List Transition), ts = [] :=
    fun ts hMem => List.eq_of_mem_replicate hMem
  refine ⟨List.pairwise_of_forall_mem_list fun ts hMem _ _ => .inl (hNothing ts hMem), ?_⟩
  exact List.flatten_eq_nil_iff.mpr hNothing

/-- What the gauge shows once everything has been published in order. -/
theorem gauge_of_inOrder (hSound : Sound name c) (h : InOrder c) (hIdle : c.Idle) :
    c.published = c.made ∧ c.shared.journal.stateGauge name =
      if c.made = [] then none else some (.gauge c.shared.breaker.machine.state.level) := by
  have hOrder := h.order
  rw [hIdle.flatten_eq, List.append_nil] at hOrder
  refine ⟨hOrder, ?_⟩
  rw [hSound.journal, Journal.stateGauge_reports, hOrder]
  cases hLast : c.made.getLast? with
  | none => rw [if_pos (List.getLast?_eq_none_iff.mp hLast)]; rfl
  | some t =>
    have hSome : c.made ≠ [] := by
      intro hNone
      rw [hNone] at hLast
      cases hLast
    rw [if_neg hSome, ← hSound.traced.target_eq hLast]
    rfl

/-! ## A change that is taken too early -/

/-- The generations can be told apart, and so nobody ever has more than one change to publish. -/
structure Few (c : Callers) (n : Nat) : Prop where
  numbered : (⟨c.shared.breaker.machine, c.shared.calls⟩ : Session).Numbered n
  few : ∀ ts ∈ c.pending, ts.length ≤ 1

theorem few_locked {n : Nat} (hSound : Sound name c) (h : Few c n) (hLast : n < 2 ^ 64)
    (use : Use) :
    (c.shared.locked use).1.length ≤ 1 ∧ ∃ j, j ≤ 1 ∧
      (⟨(c.shared.locked use).2.breaker.machine, (c.shared.locked use).2.calls⟩ :
        Session).Numbered (n + j) := by
  obtain ⟨j, hOne, hNumbered, hNoted⟩ :=
    h.numbered.perform hLast (operation c.shared.breaker.policy c.shared.now use)
  rw [hSound.drained, List.length_nil] at hNoted
  refine ⟨?_, j, hOne, ⟨hNumbered.pos, hNumbered.generation, hNumbered.calls⟩⟩
  exact Nat.le_trans hNoted (by omega)

theorem Few.step {n : Nat} (hSound : Sound name c) (h : Few c n) (hLast : n < 2 ^ 64) (s : Step) :
    ∃ n', n' ≤ n + 1 ∧ Few (c.step s) n' := by
  cases s with
  | enter caller use =>
    by_cases hFree : c.pending[caller]? = some []
    · obtain ⟨hTaken, j, hOne, hNumbered⟩ := few_locked hSound h hLast use
      rw [step_enter hFree]
      refine ⟨n + j, by omega, hNumbered, fun ts hMem => ?_⟩
      rcases List.mem_or_eq_of_mem_set hMem with hMem | rfl
      · exact h.few ts hMem
      · exact hTaken
    · rw [step_enter_of_ne hFree]
      exact ⟨n, by omega, h⟩
  | publish caller =>
    by_cases hPending : ∃ t rest, c.pending[caller]? = some (t :: rest)
    · obtain ⟨t, rest, hPending⟩ := hPending
      rw [step_publish hPending]
      refine ⟨n, by omega, h.numbered, fun ts hMem => ?_⟩
      rcases List.mem_or_eq_of_mem_set hMem with hMem | rfl
      · exact h.few ts hMem
      · have hLe := h.few _ (List.mem_of_getElem? hPending)
        rw [List.length_cons] at hLe
        omega
    · rw [step_publish_of_ne fun t rest hSome => hPending ⟨t, rest, hSome⟩]
      exact ⟨n, by omega, h⟩
  | advance d => exact ⟨n, by omega, h.numbered, h.few⟩

theorem Few.through {n : Nat} (hSound : Sound name c) (h : Few c n) (steps : List Step)
    (hLast : n + steps.length < 2 ^ 64) :
    ∃ n', n' ≤ n + steps.length ∧ Few (c.through steps) n' := by
  induction steps generalizing c n with
  | nil => exact ⟨n, Nat.le_refl _, h⟩
  | cons s rest ih =>
    rw [List.length_cons] at hLast ⊢
    obtain ⟨next, hNext, hFew⟩ := h.step hSound (by omega) s
    obtain ⟨n', hLe, hRest⟩ := ih (hSound.step s) hFew (by omega)
    exact ⟨n', by omega, hRest⟩

theorem few_begin (name : String) (policy : Policy) (settings : Settings) (begun callers : Nat) :
    Few (begin name policy settings begun callers) 1 := by
  refine ⟨Session.numbered_start settings begun, fun ts hMem => ?_⟩
  rw [List.eq_of_mem_replicate hMem]
  exact Nat.zero_le _

/-- Two callers publish, the later change first. -/
theorem through_overtaken {early late : Nat} {x y : Transition} {use : Use}
    (hAlone : c.pending.Pairwise fun ts ts' => ts = [] ∨ ts' = [])
    (hEarly : c.pending[early]? = some [x]) (hLate : c.pending[late]? = some [])
    (hTaken : (c.shared.locked use).1 = [y]) :
    let later := ((c.step (.enter late use)).step (.publish late)).step (.publish early)
    later.Idle ∧ later.published = c.published ++ [y] ++ [x] ∧ later.made = c.made ++ [y] := by
  obtain ⟨hKnown, hNothing⟩ := List.getElem?_eq_some_iff.mp hLate
  have hEnter := step_enter hLate use
  rw [hTaken] at hEnter
  have hReady : (c.step (.enter late use)).pending[late]? = some [y] := by
    rw [hEnter]
    exact List.getElem?_set_self hKnown
  have hFirst := step_publish hReady
  have hBack : (c.pending.set late [y]).set late [] = c.pending := by
    rw [List.set_set, ← hNothing, List.set_getElem_self]
  rw [hEnter] at hFirst
  simp only [hBack] at hFirst
  obtain ⟨front, back, hSplit, hSet⟩ := pending_split hEarly
  rw [hSplit] at hAlone
  have hOthers := others_of_alone hAlone (List.cons_ne_nil x [])
  have hSecond := step_publish
    (c := ⟨(c.shared.locked use).2.publish y, c.pending, c.made ++ [y]⟩) hEarly
  simp only
  rw [hEnter, hFirst, hSecond]
  refine ⟨List.flatten_eq_nil_iff.mp ?_, rfl, rfl⟩
  change (c.pending.set early []).flatten = []
  rw [hSet, (alone_of_others [] hOthers).2]

/-- Whenever a change is taken while an earlier one is still to be published, the later one can go
out first, and the gauge is left with the earlier one. -/
theorem overtake {n : Nat} (hSound : Sound name c) (h : InOrder c) (hFew : Few c n)
    (hLast : n < 2 ^ 64) {s : Step} (hEarly : ¬ c.Waits s) :
    ∃ callers : List Nat, let later := (c.step s).through (callers.map .publish)
      later.Idle ∧ later.published ≠ later.made ∧ later.shared.journal.stateGauge name ≠
        some (.gauge later.shared.breaker.machine.state.level) := by
  cases s with
  | publish caller => exact absurd trivial hEarly
  | advance d => exact absurd trivial hEarly
  | enter late use =>
    simp only [Waits, Classical.not_imp] at hEarly
    obtain ⟨hFree, hSome, hBusy⟩ := hEarly
    obtain ⟨y, hTaken⟩ := List.length_eq_one_iff.mp
      (Nat.le_antisymm (few_locked hSound hFew hLast use).1 (List.length_pos_iff.mpr hSome))
    simp only [Idle, not_forall] at hBusy
    obtain ⟨ts, hMem, hTs⟩ := hBusy
    obtain ⟨early, hPending⟩ := List.mem_iff_getElem?.mp hMem
    obtain ⟨x, rfl⟩ := List.length_eq_one_iff.mp
      (Nat.le_antisymm (hFew.few ts hMem) (List.length_pos_iff.mpr hTs))
    obtain ⟨hIdle, hPublished, hMade⟩ := through_overtaken h.alone hPending hFree hTaken
    refine ⟨[late, early], ?_⟩
    simp only [List.map, through, List.foldl]
    refine ⟨hIdle, ?_⟩
    have hLater := ((hSound.step (.enter late use)).step (.publish late)).step (.publish early)
    have hOrder : c.published ++ [x] = c.made := by
      obtain ⟨front, back, hSplit, -⟩ := pending_split hPending
      have hAlone := h.alone
      have hOrder := h.order
      rw [hSplit] at hAlone hOrder
      rwa [(alone_of_others [x] (others_of_alone hAlone (List.cons_ne_nil x []))).2] at hOrder
    -- The two changes follow one another, so they are different and lead to different states.
    have hTraced := hLater.traced
    rw [hMade, ← hOrder, List.append_assoc] at hTraced
    obtain ⟨middle, -, -, -, hNext, hEdge, hEnd⟩ := hTraced.split
    have hNe := Transition.source_ne_target hEdge
    rw [hNext] at hNe
    have hState : y.target = _ := hEnd
    constructor
    · rw [hPublished, hMade, ← hOrder]
      intro hSame
      simp only [List.append_assoc, List.append_cancel_left_eq, List.singleton_append,
        List.cons.injEq] at hSame
      exact hNe (by rw [← hSame.1])
    · rw [hLater.journal, Journal.stateGauge_reports, hPublished, List.getLast?_concat]
      intro hSame
      have hLevel : x.target.level = _ := Reading.gauge.inj (Option.some.inj hSame)
      exact hNe ((State.level_injective hLevel).trans hState.symm)

end Callers

/-! ## The whole run -/

open Callers in
/-- In every run of any number of callers the changes lead from closed to the state of the machine,
and each of them is published once or still to be published; so the counters are right whenever
nobody has anything left to publish. If no change is taken while an earlier one is still to be
published, the changes are published in the order in which the machine made them, and the gauge
shows the state of the machine once there was a change at all. Where a change is taken too early,
the callers can publish in an order that is not that of the machine, and leave the gauge wrong. -/
theorem published_as_made (name : String) (policy : Policy) (settings : Settings)
    (begun callers : Nat) (steps : List Callers.Step) :
    let first := begin name policy settings begun callers
    let c := first.through steps
    Leads .closed c.made c.shared.breaker.machine.state ∧
      (c.published ++ c.pending.flatten).Perm c.made ∧
      (c.Idle → ∀ t, c.shared.journal.transitionCounter name t =
        if c.made.count t = 0 then none else some (.counter (c.made.count t))) ∧
      (first.Orderly steps → c.published ++ c.pending.flatten = c.made ∧
        (c.Idle → c.published = c.made ∧ c.shared.journal.stateGauge name =
          if c.made = [] then none else some (.gauge c.shared.breaker.machine.state.level))) ∧
      (first.Orderly steps → steps.length + 1 < 2 ^ 64 → ∀ step, ¬ c.Waits step →
        ∃ callers : List Nat, let later := (c.step step).through (callers.map .publish)
          later.Idle ∧ later.published ≠ later.made ∧ later.shared.journal.stateGauge name ≠
            some (.gauge later.shared.breaker.machine.state.level)) := by
  intro first c
  have hSound := (sound_begin name policy settings begun callers).through steps
  have hInOrder : first.Orderly steps → InOrder c :=
    (inOrder_begin name policy settings begun callers).through
  refine ⟨hSound.traced, hSound.account, fun hIdle t => ?_, fun hOrderly => ?_,
    fun hOrderly hFew step hEarly => ?_⟩
  · have hAccount := hSound.account
    rw [hIdle.flatten_eq, List.append_nil] at hAccount
    rw [hSound.journal, Journal.transitionCounter_reports, hAccount.count_eq]
  · have h := hInOrder hOrderly
    exact ⟨h.order, gauge_of_inOrder hSound h⟩
  · obtain ⟨n, hLe, hNumbered⟩ := (few_begin name policy settings begun callers).through
      (sound_begin name policy settings begun callers) steps (by omega)
    exact overtake hSound (hInOrder hOrderly) hNumbered (by omega) hEarly

/-- A breaker of two callers that opens at the first failure, for ten moments. -/
def pair : Callers := .begin "orders" serverFaults ⟨1, 10, 1, none⟩ 0 2

/-- The first caller's call fails and opens the breaker; the caller has not told anybody yet when
the open interval ends. -/
def slowPublication : List Callers.Step :=
  [.enter 0 .acquire, .enter 0 (.finish 0 (.verdict .failure)), .advance 10]

theorem published_as_made_slow_publication :
    (∃ callers : List Nat,
      let later := ((pair.through slowPublication).step (.enter 1 .state)).through
        (callers.map .publish)
      later.Idle ∧ later.published ≠ later.made ∧ later.shared.journal.stateGauge "orders" ≠
        some (.gauge later.shared.breaker.machine.state.level)) ∧
    let waited := pair.through (slowPublication ++ [.publish 0, .enter 1 .state, .publish 1])
    waited.published = waited.made ∧ waited.shared.journal.stateGauge "orders" =
      if waited.made = [] then none
      else some (.gauge waited.shared.breaker.machine.state.level) := by
  refine ⟨?_, ?_⟩
  · exact (published_as_made "orders" serverFaults ⟨1, 10, 1, none⟩ 0 2 slowPublication).2.2.2.2
      (by decide +kernel) (by decide) (.enter 1 .state) (by decide +kernel)
  · obtain ⟨-, -, -, hWaited, -⟩ := published_as_made "orders" serverFaults ⟨1, 10, 1, none⟩ 0 2
      (slowPublication ++ [.publish 0, .enter 1 .state, .publish 1])
    have hOrderly :
        pair.Orderly (slowPublication ++ [.publish 0, .enter 1 .state, .publish 1]) := by
      decide +kernel
    obtain ⟨-, hShown⟩ := hWaited hOrderly
    exact hShown (by decide +kernel)

/-- Somebody asks for the state, and is told of the half-open breaker before the first caller tells
that it opened. -/
def overtaken : List Callers.Step :=
  slowPublication ++ [.enter 1 .state, .publish 1, .publish 0]

/-- What callers publish is not always in the order of the machine, and when nobody has anything
left to publish the gauge does not always show its state: it keeps the state of a change that was
overtaken, and it shows nothing at all before the first change. -/
theorem not_always_as_made :
    (¬ ∀ (name : String) (policy : Policy) (settings : Settings) (begun callers : Nat)
        (steps : List Callers.Step),
      let c := (Callers.begin name policy settings begun callers).through steps
      c.Idle → c.published = c.made) ∧
    (¬ ∀ (name : String) (policy : Policy) (settings : Settings) (begun callers : Nat)
        (steps : List Callers.Step),
      let c := (Callers.begin name policy settings begun callers).through steps
      c.Idle → c.shared.journal.stateGauge name =
        some (.gauge c.shared.breaker.machine.state.level)) ∧
    (pair.through overtaken).Idle ∧
    (pair.through overtaken).made = [⟨.closed, .opened⟩, ⟨.opened, .halfOpen⟩] ∧
    (pair.through overtaken).published = [⟨.opened, .halfOpen⟩, ⟨.closed, .opened⟩] ∧
    (pair.through overtaken).shared.breaker.machine.state = .halfOpen ∧
    (pair.through overtaken).shared.journal.stateGauge "orders" =
      some (.gauge State.opened.level) ∧
    pair.Idle ∧ pair.shared.journal.stateGauge "orders" = none := by
  refine ⟨fun hAlways => ?_, fun hAlways => ?_, by decide +kernel, by decide +kernel,
    by decide +kernel, by decide +kernel, by decide +kernel, by decide +kernel, by decide +kernel⟩
  · have hSame := hAlways "orders" serverFaults ⟨1, 10, 1, none⟩ 0 2 overtaken (by decide +kernel)
    revert hSame
    decide +kernel
  · have hShown := hAlways "orders" serverFaults ⟨1, 10, 1, none⟩ 0 2 overtaken (by decide +kernel)
    revert hShown
    decide +kernel

end Gatehouse.Breaker
