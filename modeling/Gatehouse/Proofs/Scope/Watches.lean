import Gatehouse.Proofs.Scope.Descent
import Gatehouse.Scope.Watch

/-!
# When a wait for the end of a scope is over

A task that waits for a scope has a look at it now and then. Between two looks anything may happen:
scopes are made and cancelled, other tasks begin to wait and have their looks. Only the clock is held
up. It does not go on while the scope of a task that waits has ended and the task has not looked
since, nor past the deadline of such a scope.

* `WatchRun.move`, `WatchRun.Course`: a single thing that happens, and any number of them, with the
  commands among them.
* `Course.mirrors`: the scopes of a course are what its commands say.
* `Course.watch`: a wait goes on, or was ended by a look of its own.
* `ends_as_inherited`: deadlines, causes and waits, for every forest of scopes.
-/

namespace Gatehouse.Scope

/-- Only a task that waits has a timer. -/
theorem Watch.due_eq_some {w : Watch} {t : Nat} :
    w.due = some t ↔ w.ended = none ∧ w.scope.deadline = some t := by
  cases hEnded : w.ended <;> simp [Watch.due, hEnded]

namespace WatchRun

/-- A single thing that happens around the scopes. -/
inductive Move where
  | scope (command : Command)
  | watch (id name : String)
  | visit (index : Nat)
  | clock (now : Nat)

def cause? (r : WatchRun) (s : Scope) : Option Cause := s.cause? r.directory.tokens r.now

/-- What a task learns that looks at its scope. -/
def look (r : WatchRun) (s : Scope) : Option (Cause × Nat) :=
  (r.cause? s).map fun cause => (cause, r.now)

/-- One task has a look. -/
def visit (r : WatchRun) (index : Nat) : WatchRun :=
  { r with watches := r.watches.modify index (Watch.release r.directory.tokens r.now) }

def move (r : WatchRun) : Move → WatchRun
  | .scope command => { r with directory := r.directory.perform r.now command }
  | .watch id name =>
    match r.directory.find? name with
    | some scope => { r with watches := r.watches ++ [⟨id, scope, none⟩] }
    | none => r
  | .visit index => r.visit index
  | .clock now => { r with now := now }

/-- The command that a move carries out, with its instant. -/
def deeds (r : WatchRun) : Move → List (Nat × Command)
  | .scope command => [(r.now, command)]
  | _ => []

/-- No task that waits has anything to see. -/
def Settled (r : WatchRun) : Prop := ∀ w ∈ r.watches, w.ended = none → r.cause? w.scope = none

instance (r : WatchRun) : Decidable r.Settled :=
  inferInstanceAs (Decidable (∀ w ∈ r.watches, w.ended = none → r.cause? w.scope = none))

/-- What may happen next. The clock goes on when there is nothing left to see, and not past the
deadline of a scope for which a task waits. -/
def Admits (r : WatchRun) : Move → Prop
  | .clock now =>
    r.now ≤ now ∧ r.Settled ∧
      ∀ w ∈ r.watches, w.ended = none → ∀ t ∈ w.scope.deadline, now ≤ t
  | _ => True

/-- What scopes and the tasks around them can come to, and the commands on the way. -/
inductive Course (begun : WatchRun) : List (Nat × Command) → WatchRun → Prop where
  | begun : Course begun [] begun
  | move {history : List (Nat × Command)} {r : WatchRun} (h : Course begun history r) (m : Move)
      (hAdmits : r.Admits m) : Course begun (history ++ r.deeds m) (r.move m)

/-- What can come of `begun` later on. -/
def Later (begun r : WatchRun) : Prop := ∃ history, Course begun history r

/-- At no instant before that of `r`, and not before `q`, had the scope ended, and its deadline was
not passed over. -/
def QuietBefore (q : WatchRun) (s : Scope) (r : WatchRun) : Prop :=
  ∀ p, Later q p → Later p r → p.now < r.now → p.cause? s = none ∧ ∀ t ∈ s.deadline, r.now ≤ t

/-- Between `q` and `r` a wait was ended with a cause: it was so by a look at `p`. -/
structure EndedAt (q r : WatchRun) (index : Nat) (id : String) (s : Scope) (cause : Cause)
    (p : WatchRun) : Prop where
  before : Later q p
  after : Later (p.visit index) r
  waited : p.watches[index]? = some ⟨id, s, none⟩
  seen : p.cause? s = some cause
  quiet : QuietBefore q s p

variable {begun q p r : WatchRun} {history history' : List (Nat × Command)} {s : Scope}
  {id : String} {index : Nat} {w : Watch}

/-! ## Looks -/

theorem release_eq (r : WatchRun) (w : Watch) :
    w.release r.directory.tokens r.now = { w with ended := w.ended.or (r.look w.scope) } := by
  obtain ⟨id, scope, ended⟩ := w
  cases ended <;> simp [Watch.release, look, cause?]

theorem visit_getElem?_self (hWatch : r.watches[index]? = some ⟨id, s, none⟩) :
    (r.visit index).watches[index]? = some ⟨id, s, r.look s⟩ := by
  simp [visit, hWatch, release_eq]

/-- Only a look of its own ends a wait, and what has ended stays as it is. -/
theorem move_getElem? (m : Move) (hWatch : r.watches[index]? = some w) :
    (r.move m).watches[index]? = some w ∨ (m = .visit index ∧ w.ended = none) := by
  obtain ⟨hIndex, -⟩ := List.getElem?_eq_some_iff.mp hWatch
  cases m with
  | scope _ | clock _ => exact .inl hWatch
  | watch id' name =>
    simp only [move]
    split
    · exact .inl ((List.getElem?_append_left hIndex).trans hWatch)
    · exact .inl hWatch
  | visit other =>
    by_cases hMine : other = index
    · subst hMine
      cases hEnded : w.ended with
      | none => exact .inr ⟨rfl, rfl⟩
      | some answer =>
        refine .inl ?_
        simp [move, visit, hWatch, Watch.release, hEnded]
    · refine .inl ?_
      simp [move, visit, hWatch, hMine]

/-! ## What stays -/

/-- The clock goes on, and tokens stay cancelled. -/
structure Onward (r r' : WatchRun) : Prop where
  now : r.now ≤ r'.now
  cancelled : r.directory.tokens.cancelled ⊆ r'.directory.tokens.cancelled

theorem onward_move (r : WatchRun) {m : Move} (hAdmits : r.Admits m) : Onward r (r.move m) := by
  cases m with
  | scope command => exact ⟨Nat.le_refl _, r.directory.cancelled_perform r.now command⟩
  | watch id name =>
    simp only [move]
    split <;> exact ⟨Nat.le_refl _, List.Subset.refl _⟩
  | visit index => exact ⟨Nat.le_refl _, List.Subset.refl _⟩
  | clock now => exact ⟨hAdmits.1, List.Subset.refl _⟩

theorem now_move (r : WatchRun) (m : Move) : (r.move m).now = r.now ∨ ∃ now, m = .clock now := by
  cases m with
  | clock now => exact .inr ⟨now, rfl⟩
  | scope _ | visit _ => exact .inl rfl
  | watch id name =>
    simp only [move]
    split <;> exact .inl rfl

namespace Course

theorem trans (h : Course q history p) (h' : Course p history' r) :
    Course q (history ++ history') r := by
  induction h' with
  | begun => rwa [List.append_nil]
  | move _ m hAdmits ih =>
    have hStep := ih.move m hAdmits
    rwa [List.append_assoc] at hStep

theorem onward (h : Course p history r) : Onward p r := by
  induction h with
  | begun => exact ⟨Nat.le_refl _, List.Subset.refl _⟩
  | move _ m hAdmits ih =>
    have hStep := onward_move _ hAdmits
    exact ⟨Nat.le_trans ih.now hStep.now, List.Subset.trans ih.cancelled hStep.cancelled⟩

/-- The commands on the way say what the scopes are. -/
theorem mirrors (h : Course .start history r) : Mirrors (.ofHistory history) r.directory := by
  induction h with
  | begun => exact .empty
  | @move history r h m _ ih =>
    cases m with
    | scope command =>
      simp only [deeds, Chronicle.ofHistory, List.foldl_append, List.foldl_cons, List.foldl_nil]
      exact ih.perform r.now command
    | watch id name =>
      simp only [deeds, List.append_nil, WatchRun.move]
      split <;> exact ih
    | visit | clock =>
      simp only [deeds, List.append_nil]
      exact ih

end Course

namespace Later

theorem refl (r : WatchRun) : Later r r := ⟨[], .begun⟩

theorem move (h : Later q r) (m : Move) (hAdmits : r.Admits m) : Later q (r.move m) := by
  obtain ⟨history, hCourse⟩ := h
  exact ⟨_, hCourse.move m hAdmits⟩

theorem trans (h : Later q p) (h' : Later p r) : Later q r := by
  obtain ⟨history, hCourse⟩ := h
  obtain ⟨history', hCourse'⟩ := h'
  exact ⟨_, hCourse.trans hCourse'⟩

theorem onward (h : Later p r) : Onward p r := by
  obtain ⟨history, hCourse⟩ := h
  exact hCourse.onward

/-- Where a scope has not ended now, it had not ended before. -/
theorem cause?_eq_none (h : Later p r) (hNone : r.cause? s = none) : p.cause? s = none :=
  Scope.cause?_eq_none_of_later h.onward.cancelled h.onward.now hNone

/-- A task stays at its place, and a cause that it has is kept. -/
theorem keeps (h : Later p r) (hWatch : p.watches[index]? = some w) :
    ∃ ended, r.watches[index]? = some { w with ended := ended } ∧
      (w.ended ≠ none → ended = w.ended) := by
  obtain ⟨history, hCourse⟩ := h
  induction hCourse with
  | begun => exact ⟨w.ended, hWatch, fun _ => rfl⟩
  | move _ m _ ih =>
    obtain ⟨ended, hNow, hKept⟩ := ih
    rcases move_getElem? m hNow with hSame | ⟨rfl, hNone⟩
    · exact ⟨ended, hSame, hKept⟩
    · obtain rfl : ended = none := hNone
      refine ⟨_, visit_getElem?_self hNow, fun hAnswered => ?_⟩
      exact absurd (hKept hAnswered).symm hAnswered

end Later

/-! ## One wait -/

section Wait

variable (hWatch : q.watches[index]? = some ⟨id, s, none⟩)
include hWatch

/-- As long as a wait goes on, its scope had not ended at any earlier instant. -/
theorem quietBefore_of_waiting (h : Later q r)
    (hStill : r.watches[index]? = some ⟨id, s, none⟩) : QuietBefore q s r := by
  intro p hBefore hAfter hEarlier
  obtain ⟨history, hCourse⟩ := hAfter
  induction hCourse with
  | begun => exact absurd hEarlier (Nat.lt_irrefl _)
  | @move history r hCourse m hAdmits ih =>
    have hReached : Later q r := hBefore.trans ⟨history, hCourse⟩
    obtain ⟨ended, hNow, -⟩ := hReached.keeps hWatch
    obtain ⟨ended', hThen, hKept⟩ := ((Later.refl r).move m hAdmits).keeps hNow
    have hNone : ended = none := by
      cases ended with
      | none => rfl
      | some answer =>
        obtain rfl : ended' = some answer := hKept nofun
        have hSame := Option.some.inj (hThen.symm.trans hStill)
        cases congrArg Watch.ended hSame
    rw [hNone] at hNow
    rcases now_move r m with hSame | ⟨now, rfl⟩
    · rw [hSame] at hEarlier ⊢
      exact ih hReached hNow hEarlier
    · -- The clock goes on only because this task has nothing to see.
      have hMem := List.mem_of_getElem? hNow
      obtain ⟨-, hSettled, hAhead⟩ := hAdmits
      have hCause : r.cause? s = none := hSettled _ hMem rfl
      exact ⟨Later.cause?_eq_none ⟨history, hCourse⟩ hCause, hAhead _ hMem rfl⟩

/-- A wait goes on, or was ended by a look of its own. -/
theorem Later.watch (h : Later q r) :
    ∃ ended, r.watches[index]? = some ⟨id, s, ended⟩ ∧
      ∀ cause now, ended = some (cause, now) →
        ∃ p, EndedAt q r index id s cause p ∧ p.now = now := by
  obtain ⟨history, hCourse⟩ := h
  induction hCourse with
  | begun => exact ⟨none, hWatch, nofun⟩
  | @move history r hCourse m hAdmits ih =>
    obtain ⟨ended, hNow, hAnswered⟩ := ih
    rcases move_getElem? m hNow with hSame | ⟨rfl, hNone⟩
    · refine ⟨ended, hSame, fun cause now hAnswer => ?_⟩
      obtain ⟨p, hEnded, hInstant⟩ := hAnswered cause now hAnswer
      exact ⟨p, { hEnded with after := hEnded.after.move m hAdmits }, hInstant⟩
    · obtain rfl : ended = none := hNone
      refine ⟨_, visit_getElem?_self hNow, fun cause now hSeen => ?_⟩
      obtain ⟨cause', hCause, hAnswer⟩ := Option.map_eq_some_iff.mp hSeen
      cases hAnswer
      exact ⟨r, ⟨⟨history, hCourse⟩, .refl _, hNow, hCause,
        quietBefore_of_waiting hWatch ⟨history, hCourse⟩ hNow⟩, rfl⟩

end Wait

/-! ## Letting everybody look -/

theorem settle_getElem? (hWatch : r.watches[index]? = some w) :
    r.settle.watches[index]? = some { w with ended := w.ended.or (r.look w.scope) } := by
  simp only [settle, List.getElem?_map, hWatch, Option.map_some, release_eq]

theorem settled_settle (r : WatchRun) : r.settle.Settled := by
  intro w hMem hWaits
  obtain ⟨w', -, rfl⟩ := List.mem_map.mp hMem
  rw [release_eq] at hWaits ⊢
  exact Option.map_eq_none_iff.mp (Option.or_eq_none_iff.mp hWaits).2

theorem visit_append (r : WatchRun) (before : List Watch) (w : Watch) (rest : List Watch) :
    ({ r with watches := before ++ w :: rest } : WatchRun).visit before.length =
      { r with watches := before ++ w.release r.directory.tokens r.now :: rest } := by
  have hOne : (before ++ w :: rest).modify before.length
      (Watch.release r.directory.tokens r.now) =
        before ++ w.release r.directory.tokens r.now :: rest := by
    induction before with
    | nil => rfl
    | cons x before ih => simpa using ih
  simp only [visit, hOne]

/-- Where nobody has anything to see, every timer is ahead. -/
theorem Settled.due_gt (h : r.Settled) {t : Nat} (hDue : r.due = some t) : r.now < t := by
  obtain ⟨hOwn, -⟩ := Clock.earliest_spec hDue
  obtain ⟨w, hMem, hTimer⟩ := List.mem_map.mp hOwn
  obtain ⟨hWaits, hDeadline⟩ := Watch.due_eq_some.mp hTimer
  exact (Scope.cause?_eq_none.mp (h w hMem hWaits)).2 t hDeadline

theorem due_le {t : Nat} (hMem : w ∈ r.watches) (hWaits : w.ended = none)
    (hDeadline : w.scope.deadline = some t) : ∃ t' ∈ r.due, t' ≤ t := by
  have hListed : some t ∈ r.watches.map Watch.due :=
    List.mem_map.mpr ⟨w, hMem, Watch.due_eq_some.mpr ⟨hWaits, hDeadline⟩⟩
  cases hFirst : r.due with
  | none => cases Clock.earliest_eq_none.mp hFirst _ hListed
  | some t' => exact ⟨t', rfl, (Clock.earliest_spec hFirst).2 t hListed⟩

namespace Later

/-- Every task has a look, those behind the first few. -/
theorem visits (before rest : List Watch)
    (h : Later begun { r with watches := before ++ rest }) :
    Later begun
      { r with
        watches := before ++ rest.map (Watch.release r.directory.tokens r.now) } := by
  induction rest generalizing before with
  | nil => exact h
  | cons w rest ih =>
    have hLook := h.move (.visit before.length) trivial
    simp only [WatchRun.move, visit_append] at hLook
    rw [List.append_cons] at hLook
    have hRest := ih _ hLook
    rwa [List.append_assoc] at hRest

theorem settle (h : Later begun r) : Later begun r.settle := visits [] r.watches h

theorem fire {now : Nat} (h : Later begun r) (hSettled : r.Settled) (hAhead : r.now ≤ now)
    (hDue : ∀ t ∈ r.due, t ≤ r.now ∨ now ≤ t) : Later begun (WatchRun.fire now r) := by
  refine (h.move (.clock now) ⟨hAhead, hSettled, ?_⟩).settle
  intro w hMem hWaits d hDeadline
  obtain ⟨t, hFirst, hBefore⟩ := due_le hMem hWaits hDeadline
  have hLater := hSettled.due_gt hFirst
  rcases hDue t hFirst with hPast | hNext <;> omega

/-- A whole step, with everything that follows from it, is a course. -/
theorem perform (h : Later begun r) (hSettled : r.Settled) (step : Step) :
    Later begun (r.perform step) ∧ (r.perform step).Settled := by
  cases step with
  | scope command => exact ⟨(h.move (.scope command) trivial).settle, settled_settle _⟩
  | watch id name =>
    have hMove := h.move (.watch id name) trivial
    simp only [WatchRun.perform, WatchRun.move] at hMove ⊢
    split
    · next scope hFind =>
      rw [hFind] at hMove
      exact ⟨hMove.settle, settled_settle _⟩
    · exact ⟨h, hSettled⟩
  | advance d =>
    have hFire : ∀ now t (r : WatchRun), now ≤ t → (∀ t' ∈ r.due, t' ≤ now ∨ t ≤ t') →
        Later begun r ∧ r.Settled ∧ r.now = now →
          Later begun (WatchRun.fire t r) ∧ (WatchRun.fire t r).Settled ∧
            (WatchRun.fire t r).now = t := by
      rintro _ t r hLater hDue ⟨h, hSettled, rfl⟩
      exact ⟨h.fire hSettled hLater hDue, settled_settle _, rfl⟩
    obtain ⟨hReached, hQuiet, -⟩ :=
      Clock.runUntil_onward hFire (Nat.le_add_right r.now d) ⟨h, hSettled, rfl⟩
    exact ⟨hReached, hQuiet⟩

theorem run (h : Later begun r) (hSettled : r.Settled) (steps : List Step) :
    Later begun (steps.foldl WatchRun.perform r) := by
  induction steps generalizing r with
  | nil => exact h
  | cons step steps ih =>
    obtain ⟨hStep, hSettledThen⟩ := h.perform hSettled step
    exact ih hStep hSettledThen

end Later

end WatchRun
open WatchRun

/-- The scopes of a course stand under the names of their births. The deadline of a scope is the
first of its limits, so that a child never ends after its parent. A scope is cancelled exactly if
cancellation was asked for on a scope whose token it has or whose token is above its own; otherwise
it has ended exactly if its deadline has come. A cancellation leaves those above, and those beside,
as they were. A task that waits goes on as long as its scope had not ended at an earlier instant,
and is released by a look of its own at the first instant at which its scope has ended, not before
it began to wait, with the cause of that look. Whatever else waits, if every task has a look now
then this one learns what is so now, nothing is left that holds the clock up, and whatever steps are
performed from there are among the moves. -/
theorem ends_as_inherited {history : List (Nat × Command)} {r : WatchRun}
    (h : Course .start history r) :
    r.directory.named.map (·.1) = (Chronicle.ofHistory history).births.map (·.name) ∧
    (∀ i s, r.directory.scopeAt? i = some s →
      (∀ t, s.deadline = some t ↔ IsLeast {t | Limits (Chronicle.ofHistory history).births i t} t) ∧
      (s.deadline = none ↔ ∀ t, ¬ Limits (Chronicle.ofHistory history).births i t) ∧
      (∀ p parent t, parentOf? (Chronicle.ofHistory history).births i = some p →
        r.directory.scopeAt? p = some parent → parent.deadline = some t →
          ∃ t', s.deadline = some t' ∧ t' ≤ t) ∧
      (∀ now,
        (s.cause? r.directory.tokens now = some .cancelled ↔
          ∃ k ∈ (Chronicle.ofHistory history).cancelled,
            Reaches (Chronicle.ofHistory history).births k i) ∧
        (s.cause? r.directory.tokens now = some .deadlineExceeded ↔
          (¬ ∃ k ∈ (Chronicle.ofHistory history).cancelled,
            Reaches (Chronicle.ofHistory history).births k i) ∧
              ∃ t, s.deadline = some t ∧ t ≤ now)) ∧
      ∀ k other, r.directory.scopeAt? k = some other →
        Ancestor (Chronicle.ofHistory history).births i k ∨
            Sibling (Chronicle.ofHistory history).births i k →
          ∀ now, s.cause? (other.cancel r.directory.tokens) now =
            s.cause? r.directory.tokens now) ∧
    ∀ id name s r', r.directory.find? name = some s → Later (r.move (.watch id name)) r' →
      ∃ ended, r'.watches[r.watches.length]? = some ⟨id, s, ended⟩ ∧
        (ended = none → QuietBefore (r.move (.watch id name)) s r') ∧
        (∀ cause now, ended = some (cause, now) → r.now ≤ now ∧ now ≤ r'.now ∧
          ∃ p, EndedAt (r.move (.watch id name)) r' r.watches.length id s cause p ∧
            p.now = now) ∧
        r'.settle.watches[r.watches.length]? = some ⟨id, s, ended.or (r'.look s)⟩ ∧
          r'.settle.Settled ∧ r'.settle.now = r'.now ∧
          ∀ steps : List Step, Later r' (steps.foldl perform r'.settle) := by
  have hMirrors := h.mirrors
  refine ⟨hMirrors.names, fun i s hScope => ⟨hMirrors.deadline_iff hScope,
    hMirrors.deadline_eq_none hScope, ?_, fun now => ⟨hMirrors.cause?_eq_cancelled hScope now, ?_⟩,
    ?_⟩, ?_⟩
  · intro p parent t hParent hAbove hDeadline
    exact hMirrors.deadline_le hParent hScope hAbove hDeadline
  · rw [← hMirrors.isCancelled_iff hScope, Scope.cause?_eq_deadlineExceeded, Bool.not_eq_true]
  · rintro k other hOther (hAncestor | hSibling) now
    · exact hMirrors.cause?_cancel hScope hOther
        (Reaches.not_of_ancestor hMirrors.ordered hAncestor) now
    · exact hMirrors.cause?_cancel hScope hOther
        (Reaches.not_of_sibling hMirrors.ordered hSibling) now
  · intro id name s r' hFind hLater
    have hMove : r.move (.watch id name) =
        { r with watches := r.watches ++ [⟨id, s, none⟩] } := by
      simp only [WatchRun.move, hFind]
    have hWatch : (r.move (.watch id name)).watches[r.watches.length]? = some ⟨id, s, none⟩ := by
      rw [hMove]
      exact List.getElem?_concat_length
    obtain ⟨ended, hNow, hAnswered⟩ := hLater.watch hWatch
    refine ⟨ended, hNow, ?_, ?_, settle_getElem? hNow, settled_settle r', rfl, ?_⟩
    · rintro rfl
      exact quietBefore_of_waiting hWatch hLater hNow
    · intro cause now hEnded
      obtain ⟨p, hEndedAt, rfl⟩ := hAnswered cause now hEnded
      have hBegan := hEndedAt.before.onward.now
      rw [hMove] at hBegan
      exact ⟨hBegan, hEndedAt.after.onward.now, p, hEndedAt, rfl⟩
    · exact (Later.refl r').settle.run (settled_settle r')

/-- A task has five units of time. Its token is used for a scope without a deadline, and below that
there is another scope. -/
def adopted : List (Nat × Command) :=
  [(0, .create "service"), (0, .deriveWithTimeout "task" "service" 5), (0, .shareToken "loose" "task"),
    (0, .derive "leaf" "loose")]

def adoptedRun : WatchRun :=
  adopted.foldl (fun r deed => r.move (.scope deed.2)) .start

/-- Somebody waits for the last of them. Three units of time later the task is cancelled. -/
def orphaned : WatchRun :=
  [Move.clock 3, .scope (.cancel "task"), .visit 0].foldl WatchRun.move
    (adoptedRun.move (.watch "watch" "leaf"))

theorem ends_as_inherited_adopted :
    (∀ s, adoptedRun.directory.scopeAt? 1 = some s → s.deadline = some 5 →
      IsLeast {t | Limits (Chronicle.ofHistory adopted).births 1 t} 5) ∧
    (∀ s, adoptedRun.directory.scopeAt? 3 = some s → s.deadline = none →
      ∀ t, ¬ Limits (Chronicle.ofHistory adopted).births 3 t) ∧
    ∃ s p, EndedAt (adoptedRun.move (.watch "watch" "leaf")) orphaned 0 "watch" s .cancelled p ∧
      p.now = 3 := by
  have hCourse : Course .start adopted adoptedRun :=
    (((Course.begun.move (.scope (.create "service")) trivial).move
      (.scope (.deriveWithTimeout "task" "service" 5)) trivial).move
      (.scope (.shareToken "loose" "task")) trivial).move (.scope (.derive "leaf" "loose")) trivial
  obtain ⟨-, hScopes, hWaits⟩ := ends_as_inherited hCourse
  refine ⟨fun s hScope hDeadline => ((hScopes 1 s hScope).1 5).mp hDeadline,
    fun s hScope hNone => (hScopes 3 s hScope).2.1.mp hNone, ?_⟩
  have hLater : Later (adoptedRun.move (.watch "watch" "leaf")) orphaned :=
    (((Later.refl _).move (.clock 3) ⟨by decide, by decide, by decide⟩).move
      (.scope (.cancel "task")) trivial).move (.visit 0) trivial
  obtain ⟨leaf, hFind⟩ : ∃ leaf, adoptedRun.directory.find? "leaf" = some leaf := ⟨_, rfl⟩
  obtain ⟨ended, hWatch, -, hEnds, -⟩ := hWaits "watch" "leaf" leaf orphaned hFind hLater
  have hEnded : orphaned.watches.map (·.ended) = [some (.cancelled, 3)] := by decide
  have hMine : ended = some (.cancelled, 3) := by
    have hFirst := congrArg (·[0]?) hEnded
    simp only [List.getElem?_map] at hFirst
    have hHere : orphaned.watches[0]? = some ⟨"watch", leaf, ended⟩ := hWatch
    rw [hHere] at hFirst
    exact Option.some.inj hFirst
  obtain ⟨-, -, p, hEndedAt, hInstant⟩ := hEnds .cancelled 3 hMine
  exact ⟨leaf, p, hEndedAt, hInstant⟩

end Gatehouse.Scope
