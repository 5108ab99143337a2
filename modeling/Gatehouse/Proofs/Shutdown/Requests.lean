import Gatehouse.Proofs.Clock
import Gatehouse.Proofs.Scope.Causes
import Gatehouse.Shutdown.Waiters
import Mathlib.Data.List.Basic

/-!
# What a request for shutdown reaches

Two facts tell that shutdown was requested: the code that the first request has left, and the
cancellation of the root token. Everybody who has taken a token or a scope hears of the second, and
may cancel the own one, or make further tokens from it, without anybody above or beside being
touched. Tasks that wait have a look now and then, and the clock does not go on while there is
something to see.

* `Waiters.move`, `Waiters.Reached`: a single thing that happens, and any number of them.
* `Waiters.Acts`, `Waiters.Grows`, `Waiters.Attends`: what a move does to the shutdown, to the
  tokens that were taken, and to those who wait.
* `Waiters.Planted`: the tokens grow from the root, each with a number of its own.
* `Waiters.Heard`: the code and the cancellations are those that were asked for.
* `Later.perform`: a whole step, with everything that follows from it, is a sequence of moves.
* `requests_reach`: codes, tokens and waits, whatever happens in whatever order.
-/

namespace Gatehouse.Shutdown

/-! ## One request after the other -/

/-- A shutdown after some requests. -/
def after (s : Shutdown) (codes : List Int) : Shutdown :=
  codes.foldl (fun s code => (s.request code).1) s

section Requests

variable (s : Shutdown)

theorem after_append (codes codes' : List Int) :
    s.after (codes ++ codes') = (s.after codes).after codes' :=
  List.foldl_append

theorem exitCode_request (code : Int) :
    (s.request code).1.exitCode = s.exitCode.or (some code) := by
  unfold request
  cases s.exitCode <;> rfl

theorem tokens_request (code : Int) : (s.request code).1.tokens = s.tokens.cancel s.root := by
  unfold request
  cases s.exitCode <;> rfl

theorem root_request (code : Int) : (s.request code).1.root = s.root := by
  unfold request
  cases s.exitCode <;> rfl

theorem isTriggered_request (code : Int) : (s.request code).1.isTriggered = true := by
  unfold request isTriggered
  cases s.exitCode <;> simp [Tokens.isCancelled, Tokens.cancel, Token.lineage]

/-- The first code of all is kept. -/
theorem exitCode_after (codes : List Int) :
    (s.after codes).exitCode = s.exitCode.or codes.head? := by
  induction codes generalizing s with
  | nil => simp [after]
  | cons code codes ih =>
    have hNext : s.after (code :: codes) = (s.request code).1.after codes := rfl
    rw [hNext, ih, exitCode_request, Option.or_assoc, List.head?_cons, Option.some_or]

/-- No request takes the shutdown back. -/
theorem isTriggered_after (codes : List Int) (h : s.isTriggered = true) :
    (s.after codes).isTriggered = true := by
  induction codes generalizing s with
  | nil => exact h
  | cons code codes ih => exact ih _ (s.isTriggered_request code)

end Requests

namespace Waiters

/-! ## Whatever happens -/

/-- A single thing that happens around a shutdown. Tokens that were taken are known by the order in
which they were. -/
inductive Move where
  | token
  | scope
  /-- Makes a token below one that was taken, as a child of a scope has. -/
  | derive (index : Nat)
  | cancel (index : Nat)
  | request (code : Int)
  | trigger
  | wait (id : String)
  /-- Waits for the scope over a token that was taken. -/
  | waitTaken (id : String) (index : Nat)
  | waitScope (id : String) (timeout : Option Nat)
  | visit (index : Nat)
  | clock (now : Nat)
  deriving DecidableEq

/-- What a task sees that looks at what it waits for. -/
def look (r : Waiters) : Target → Option Release
  | .shutdown => if r.shutdown.isTriggered then some .done else none
  | .scope s => (s.cause? r.shutdown.tokens r.now).map .ended

/-- One task has a look. -/
def visit (r : Waiters) (index : Nat) : Waiters :=
  { r with waiters := r.waiters.modify index (Waiter.release r.shutdown r.now) }

def move (r : Waiters) : Move → Waiters
  | .token =>
    let (t, s) := r.shutdown.token
    { r with shutdown := s, taken := r.taken ++ [t] }
  | .scope =>
    let (scope, s) := r.shutdown.scope
    { r with shutdown := s, taken := r.taken ++ [scope.token] }
  | .derive index =>
    match r.taken[index]? with
    | some parent =>
      let (t, tokens) := r.shutdown.tokens.child parent
      { r with shutdown := { r.shutdown with tokens := tokens }, taken := r.taken ++ [t] }
    | none => r
  | .cancel index =>
    match r.taken[index]? with
    | some t => { r with shutdown := { r.shutdown with tokens := r.shutdown.tokens.cancel t } }
    | none => r
  | .request code => r.keep (r.shutdown.request code)
  | .trigger => r.keep r.shutdown.trigger
  | .wait id => { r with waiters := r.waiters ++ [⟨id, .shutdown, none⟩] }
  | .waitTaken id index =>
    match r.taken[index]? with
    | some t => { r with waiters := r.waiters ++ [⟨id, .scope (.ofToken t), none⟩] }
    | none => r
  | .waitScope id timeout =>
    match takeScope? r.shutdown r.now timeout with
    | none => r
    | some (scope, s) =>
      { r with shutdown := s, waiters := r.waiters ++ [⟨id, .scope scope, none⟩] }
  | .visit index => r.visit index
  | .clock now => { r with now := now }

/-- No task that waits has anything to see. -/
def Settled (r : Waiters) : Prop := ∀ w ∈ r.waiters, w.ended = none → r.look w.target = none

instance (r : Waiters) : Decidable r.Settled :=
  inferInstanceAs (Decidable (∀ w ∈ r.waiters, w.ended = none → r.look w.target = none))

/-- What may happen next: only what was taken is cancelled, and the clock goes on when there is
nothing left to see. -/
def Admits (r : Waiters) : Move → Prop
  | .cancel index => index < r.taken.length
  | .clock now => r.now ≤ now ∧ r.Settled
  | _ => True

/-- What a shutdown and those around it can come to, and the moves on the way. -/
inductive Reached (begun : Waiters) : List Move → Waiters → Prop where
  | begun : Reached begun [] begun
  | move {moves : List Move} {r : Waiters} (h : Reached begun moves r) (m : Move)
      (hAdmits : r.Admits m) : Reached begun (moves ++ [m]) (r.move m)

/-- The code that a move asks to end the process with. -/
def Move.code? : Move → Option Int
  | .request code => some code
  | .trigger => some 0
  | _ => none

/-- The codes of all requests, the first one first. -/
def codes (moves : List Move) : List Int := moves.filterMap Move.code?

/-- The number that a move cancels. -/
def marks (r : Waiters) : Move → Option Nat
  | .request _ => some r.shutdown.root.number
  | .trigger => some r.shutdown.root.number
  | .cancel index => r.taken[index]?.map (·.number)
  | _ => none

variable {begun p q r : Waiters} {moves later : List Move} {m : Move} {t u : Token} {i j n : Nat}
  {w : Waiter}

theorem codes_concat : codes (moves ++ [m]) = codes moves ++ m.code?.toList := by
  rw [codes, List.filterMap_append, codes]
  cases hCode : m.code? <;> simp [hCode]

theorem codes_concat_ne_nil : codes (moves ++ [m]) ≠ [] ↔ codes moves ≠ [] ∨ m.code? ≠ none := by
  rw [codes_concat]
  cases m.code? <;> simp

/-! ## What a move does -/

/-- A scope that is taken is below the root, and nothing is cancelled by that. -/
theorem takeScope?_spec {s s' : Shutdown} {now : Nat} {timeout : Option Nat} {scope : Scope}
    (h : takeScope? s now timeout = some (scope, s')) :
    s.root.number ∈ scope.token.lineage ∧ ∃ issued, s.tokens.issued ≤ issued ∧
      s' = { s with tokens := { s.tokens with issued := issued } } := by
  cases timeout with
  | none =>
    cases h
    exact ⟨List.mem_cons_of_mem _ List.mem_cons_self, s.tokens.issued + 1, by omega, rfl⟩
  | some d =>
    obtain ⟨made, hMade, hTaken⟩ := Option.map_eq_some_iff.mp h
    obtain ⟨-, rfl⟩ := Scope.childWithTimeout?_eq_some_iff.mp hMade
    cases hTaken
    refine ⟨?_, s.tokens.issued + 2, by omega, rfl⟩
    exact List.mem_cons_of_mem _ (List.mem_cons_of_mem _ List.mem_cons_self)

/-- What a move does to the shutdown itself. -/
structure Acts (r : Waiters) (m : Move) (s : Shutdown) : Prop where
  root : s.root = r.shutdown.root
  exitCode : s.exitCode = r.shutdown.exitCode.or m.code?
  cancelled : s.tokens.cancelled = (r.marks m).toList ++ r.shutdown.tokens.cancelled

theorem acts_move (r : Waiters) (m : Move) : Acts r m (r.move m).shutdown := by
  cases m with
  | request code =>
    exact ⟨r.shutdown.root_request code, r.shutdown.exitCode_request code,
      congrArg Tokens.cancelled (r.shutdown.tokens_request code)⟩
  | trigger =>
    exact ⟨r.shutdown.root_request 0, r.shutdown.exitCode_request 0,
      congrArg Tokens.cancelled (r.shutdown.tokens_request 0)⟩
  | cancel index =>
    simp only [move]
    cases hTaken : r.taken[index]? with
    | none => exact ⟨rfl, Option.or_none.symm, by simp [marks, hTaken]⟩
    | some t => exact ⟨rfl, Option.or_none.symm, by simp [marks, hTaken, Tokens.cancel]⟩
  | derive index | waitTaken _ index =>
    simp only [move]
    split <;> exact ⟨rfl, Option.or_none.symm, rfl⟩
  | waitScope id timeout =>
    simp only [move]
    split
    · exact ⟨rfl, Option.or_none.symm, rfl⟩
    · next hTake =>
      obtain ⟨-, issued, -, rfl⟩ := takeScope?_spec hTake
      exact ⟨rfl, Option.or_none.symm, rfl⟩
  | token | scope | wait _ | visit _ | clock _ => exact ⟨rfl, Option.or_none.symm, rfl⟩

/-- What a move does to the tokens: at most one is taken, from the shutdown or below one that was
taken before, and it has a number that nobody had. -/
inductive Grows (r r' : Waiters) : Prop where
  | same (hTaken : r'.taken = r.taken)
    (hIssued : r.shutdown.tokens.issued ≤ r'.shutdown.tokens.issued)
  | takes {parent : Token} (hParent : parent = r.shutdown.root ∨ parent ∈ r.taken)
    (hTaken : r'.taken = r.taken ++ [⟨r.shutdown.tokens.issued, parent.lineage⟩])
    (hIssued : r'.shutdown.tokens.issued = r.shutdown.tokens.issued + 1)

theorem grows_move (r : Waiters) (m : Move) : Grows r (r.move m) := by
  cases m with
  | token | scope => exact .takes (.inl rfl) rfl rfl
  | derive index =>
    simp only [move]
    split
    · next parent hParent => exact .takes (.inr (List.mem_of_getElem? hParent)) rfl rfl
    · exact .same rfl (Nat.le_refl _)
  | cancel index | waitTaken _ index =>
    simp only [move]
    split <;> exact .same rfl (Nat.le_refl _)
  | request code =>
    exact .same rfl (Nat.le_of_eq (congrArg Tokens.issued (r.shutdown.tokens_request code)).symm)
  | trigger =>
    exact .same rfl (Nat.le_of_eq (congrArg Tokens.issued (r.shutdown.tokens_request 0)).symm)
  | waitScope id timeout =>
    simp only [move]
    split
    · exact .same rfl (Nat.le_refl _)
    · next hTake =>
      obtain ⟨-, issued, hLe, rfl⟩ := takeScope?_spec hTake
      exact .same rfl hLe
  | wait _ | visit _ | clock _ => exact .same rfl (Nat.le_refl _)

theorem Grows.isPrefix {r' : Waiters} (h : Grows r r') : r.taken <+: r'.taken := by
  cases h with
  | same hTaken _ => exact hTaken ▸ List.prefix_refl _
  | takes _ hTaken _ =>
    rw [hTaken]
    exact List.prefix_append _ _

theorem release_eq (r : Waiters) (w : Waiter) :
    w.release r.shutdown r.now = { w with ended := w.ended.or (r.look w.target) } := by
  obtain ⟨id, target, ended⟩ := w
  cases ended <;> cases target <;> simp [Waiter.release, look]

/-- What a move does to the tasks that wait: one more begins to, or one has a look. A scope that is
waited for is over a token that was taken, or is taken for it. -/
inductive Attends (r : Waiters) : Move → List Waiter → Prop where
  | same {m : Move} (hNoLook : ∀ index, m ≠ .visit index) : Attends r m r.waiters
  | joins {m : Move} (hNoLook : ∀ index, m ≠ .visit index) {new : Waiter}
    (hPending : new.ended = none)
    (hScope : ∀ s, new.target = .scope s →
      s.token ∈ r.taken ∨ r.shutdown.root.number ∈ s.token.lineage) :
    Attends r m (r.waiters ++ [new])
  | looks (index : Nat) :
    Attends r (.visit index) (r.waiters.modify index (Waiter.release r.shutdown r.now))

theorem attends_move (r : Waiters) (m : Move) : Attends r m (r.move m).waiters := by
  cases m with
  | visit index => exact .looks index
  | wait id =>
    refine .joins (by nofun) rfl fun s hTarget => ?_
    cases hTarget
  | waitTaken id index =>
    simp only [move]
    split
    · next t hTaken =>
      refine .joins (by nofun) rfl fun s hTarget => .inl ?_
      obtain rfl : Scope.ofToken t = s := Target.scope.inj hTarget
      exact List.mem_of_getElem? hTaken
    · exact .same nofun
  | waitScope id timeout =>
    simp only [move]
    split
    · exact .same nofun
    · next scope s hTake =>
      refine .joins (by nofun) rfl fun s' hTarget => .inr ?_
      obtain rfl := Target.scope.inj hTarget
      exact (takeScope?_spec hTake).1
  | derive index | cancel index =>
    simp only [move]
    split <;> exact .same nofun
  | token | scope | request _ | trigger | clock _ => exact .same nofun

/-! ## Tokens -/

/-- The tokens that were taken grow from the root, each with a number of its own, and every scope
that a task waits for is among them or grows from the root as well. -/
structure Planted (r : Waiters) : Prop where
  root : r.shutdown.root.ancestors = []
  issued : r.shutdown.root.number < r.shutdown.tokens.issued
  taken : ∀ t ∈ r.taken, r.shutdown.root.number < t.number ∧
    t.number < r.shutdown.tokens.issued ∧ r.shutdown.root.number ∈ t.ancestors
  numbers : r.taken.Pairwise (·.number < ·.number)
  scopes : ∀ w ∈ r.waiters, ∀ s, w.target = .scope s → r.shutdown.root.number ∈ s.token.lineage

namespace Planted

theorem start : Planted .start := ⟨rfl, Nat.one_pos, nofun, .nil, nofun⟩

theorem number_mem (h : r.Planted) (ht : t ∈ r.taken) : r.shutdown.root.number ∈ t.lineage :=
  List.mem_cons_of_mem _ (h.taken t ht).2.2

theorem scopes_move (h : r.Planted) (m : Move) : ∀ w ∈ (r.move m).waiters, ∀ s,
    w.target = .scope s → r.shutdown.root.number ∈ s.token.lineage := by
  have hAttends := attends_move r m
  generalize (r.move m).waiters = waiters at hAttends
  cases hAttends with
  | same => exact h.scopes
  | joins _ _ hScope =>
    intro w hw s hTarget
    rcases List.mem_append.mp hw with hOld | hNew
    · exact h.scopes w hOld s hTarget
    · obtain rfl := List.mem_singleton.mp hNew
      exact (hScope s hTarget).elim h.number_mem id
  | looks index =>
    intro w hw s hTarget
    obtain ⟨j, hj⟩ := List.mem_iff_getElem?.mp hw
    simp only [List.getElem?_modify, Option.map_eq_map, Option.map_eq_some_iff] at hj
    obtain ⟨w', hw', rfl⟩ := hj
    refine h.scopes w' (List.mem_of_getElem? hw') s ?_
    rw [← hTarget]
    split
    · rw [release_eq]
    · rfl

theorem move (h : r.Planted) (m : Move) : (r.move m).Planted := by
  have hScopes := h.scopes_move m
  have hRoot := (acts_move r m).root
  have hGrows := grows_move r m
  generalize r.move m = r' at hScopes hRoot hGrows
  cases hGrows with
  | same hTaken hIssued =>
    refine ⟨by rw [hRoot, h.root], by rw [hRoot]; exact Nat.lt_of_lt_of_le h.issued hIssued, ?_,
      by rw [hTaken]; exact h.numbers, by rw [hRoot]; exact hScopes⟩
    rw [hTaken, hRoot]
    intro t ht
    obtain ⟨hAbove, hBelow, hMem⟩ := h.taken t ht
    exact ⟨hAbove, Nat.lt_of_lt_of_le hBelow hIssued, hMem⟩
  | @takes parent hParent hTaken hIssued =>
    have hLineage : r.shutdown.root.number ∈ parent.lineage := by
      rcases hParent with rfl | hParent
      · exact List.mem_cons_self
      · exact h.number_mem hParent
    refine ⟨by rw [hRoot, h.root], by rw [hRoot, hIssued]; exact Nat.lt_succ_of_lt h.issued, ?_,
      ?_, by rw [hRoot]; exact hScopes⟩
    · rw [hTaken, hRoot, hIssued]
      intro t ht
      rcases List.mem_append.mp ht with hOld | hNew
      · obtain ⟨hAbove, hBelow, hMem⟩ := h.taken t hOld
        exact ⟨hAbove, Nat.lt_succ_of_lt hBelow, hMem⟩
      · obtain rfl := List.mem_singleton.mp hNew
        exact ⟨h.issued, Nat.lt_succ_self _, hLineage⟩
    · rw [hTaken, List.pairwise_append]
      refine ⟨h.numbers, List.pairwise_singleton _ _, fun t ht u hu => ?_⟩
      obtain rfl := List.mem_singleton.mp hu
      exact (h.taken t ht).2.1

/-- Above a token that was taken from the shutdown itself there is only the root. -/
theorem number_mem_lineage_iff (h : r.Planted) (ht : r.taken[i]? = some t)
    (hDirect : t.ancestors = r.shutdown.root.lineage) (hu : r.taken[j]? = some u) :
    u.number ∈ t.lineage ↔ j = i := by
  have hRoot : t.lineage = [t.number, r.shutdown.root.number] := by
    rw [Token.lineage, hDirect, Token.lineage, h.root]
  have hAbove := (h.taken u (List.mem_of_getElem? hu)).1
  obtain ⟨hi, rfl⟩ := List.getElem?_eq_some_iff.mp ht
  obtain ⟨hj, rfl⟩ := List.getElem?_eq_some_iff.mp hu
  rw [hRoot]
  simp only [List.mem_cons, List.not_mem_nil, or_false]
  constructor
  · rintro (hSame | hSame)
    · by_contra hNe
      have hNumbers := List.pairwise_iff_getElem.mp h.numbers
      rcases Nat.lt_or_gt_of_ne hNe with hLess | hMore
      · exact absurd hSame (Nat.ne_of_lt (hNumbers j i hj hi hLess))
      · exact absurd hSame (Nat.ne_of_gt (hNumbers i j hi hj hMore))
    · exact absurd hSame (Nat.ne_of_gt hAbove)
  · rintro rfl
    exact .inl rfl

end Planted

/-! ## What was asked for -/

/-- The code is that of the first request, and the numbers that are cancelled are those on which
cancellation was asked for. -/
structure Heard (moves : List Move) (r : Waiters) : Prop where
  exitCode : r.shutdown.exitCode = (codes moves).head?
  known : ∀ j, .cancel j ∈ moves → j < r.taken.length
  cancelled : ∀ n, n ∈ r.shutdown.tokens.cancelled ↔
    n = r.shutdown.root.number ∧ codes moves ≠ [] ∨
      ∃ j t, .cancel j ∈ moves ∧ r.taken[j]? = some t ∧ t.number = n

namespace Heard

theorem start : Heard [] .start :=
  ⟨rfl, nofun, fun n => by simp [Waiters.start, codes, create, Tokens.empty, Tokens.root]⟩

theorem move (h : Heard moves r) (hAdmits : r.Admits m) : Heard (moves ++ [m]) (r.move m) := by
  have hPrefix := (grows_move r m).isPrefix
  have hKnown : ∀ j, .cancel j ∈ moves ++ [m] → j < r.taken.length := by
    intro j hj
    rcases List.mem_append.mp hj with hOld | hNew
    · exact h.known j hOld
    · obtain rfl := List.mem_singleton.mp hNew
      exact hAdmits
  -- What was taken keeps its place, so that an earlier cancellation still tells the same token.
  have hTaken : ∀ j, j < r.taken.length → (r.move m).taken[j]? = r.taken[j]? := by
    intro j hj
    obtain ⟨new, hNew⟩ := hPrefix
    rw [← hNew, List.getElem?_append_left hj]
  refine ⟨?_, fun j hj => Nat.lt_of_lt_of_le (hKnown j hj) hPrefix.length_le, fun n => ?_⟩
  · rw [(acts_move _ _).exitCode, h.exitCode, codes_concat, List.head?_append]
    cases m.code? <;> rfl
  · have hMarks : n ∈ (r.marks m).toList ↔
        n = r.shutdown.root.number ∧ m.code? ≠ none ∨
          ∃ j t, m = .cancel j ∧ r.taken[j]? = some t ∧ t.number = n := by
      cases m with
      | request code | trigger => simp [marks, Move.code?, eq_comm]
      | cancel index => simp [marks, Move.code?]
      | token | scope | derive _ | wait _ | waitTaken _ _ | waitScope _ _ | visit _ | clock _ =>
        simp [marks, Move.code?]
    have hCancels : (∃ j t, .cancel j ∈ moves ++ [m] ∧ (r.move m).taken[j]? = some t ∧
          t.number = n) ↔
        (∃ j t, .cancel j ∈ moves ∧ r.taken[j]? = some t ∧ t.number = n) ∨
          ∃ j t, m = .cancel j ∧ r.taken[j]? = some t ∧ t.number = n := by
      constructor
      · rintro ⟨j, t, hj, ht, hn⟩
        rw [hTaken j (hKnown j hj)] at ht
        rcases List.mem_append.mp hj with hOld | hNew
        · exact .inl ⟨j, t, hOld, ht, hn⟩
        · exact .inr ⟨j, t, (List.mem_singleton.mp hNew).symm, ht, hn⟩
      · rintro (⟨j, t, hOld, ht, hn⟩ | ⟨j, t, rfl, ht, hn⟩)
        · exact ⟨j, t, List.mem_append_left _ hOld, (hTaken j (h.known j hOld)).trans ht, hn⟩
        · exact ⟨j, t, List.mem_append_right _ List.mem_cons_self,
            (hTaken j hAdmits).trans ht, hn⟩
    rw [(acts_move _ _).cancelled, List.mem_append, hMarks, h.cancelled, hCancels,
      codes_concat_ne_nil, (acts_move _ _).root, and_or_left, or_or_or_comm]
    exact or_congr or_comm or_comm

/-- A token is cancelled when shutdown was requested, or when it, or one above it, was. -/
theorem isCancelled_iff (h : Heard moves r) (hRoot : r.shutdown.root.number ∈ t.lineage) :
    r.shutdown.tokens.isCancelled t = true ↔ codes moves ≠ [] ∨
      ∃ j u, .cancel j ∈ moves ∧ r.taken[j]? = some u ∧ u.number ∈ t.lineage := by
  simp only [Tokens.isCancelled, List.any_eq_true, List.contains_iff_mem, h.cancelled]
  constructor
  · rintro ⟨n, hn, ⟨-, hCodes⟩ | ⟨j, u, hj, hu, rfl⟩⟩
    · exact .inl hCodes
    · exact .inr ⟨j, u, hj, hu, hn⟩
  · rintro (hCodes | ⟨j, u, hj, hu, hn⟩)
    · exact ⟨_, hRoot, .inl ⟨rfl, hCodes⟩⟩
    · exact ⟨_, hn, .inr ⟨j, u, hj, hu, rfl⟩⟩

theorem isTriggered_iff (h : Heard moves r) (hPlanted : r.Planted) :
    r.shutdown.isTriggered = true ↔ codes moves ≠ [] := by
  have hLineage : r.shutdown.root.lineage = [r.shutdown.root.number] := by
    rw [Token.lineage, hPlanted.root]
  rw [isTriggered, h.isCancelled_iff List.mem_cons_self, or_iff_left_iff_imp]
  rintro ⟨j, u, -, hu, hn⟩
  rw [hLineage, List.mem_singleton] at hn
  exact absurd hn (Nat.ne_of_gt (hPlanted.taken u (List.mem_of_getElem? hu)).1)

/-- Once shutdown was requested, everybody who waits has something to see. -/
theorem exists_look (h : Heard moves r) (hPlanted : r.Planted) (hCodes : codes moves ≠ [])
    (hw : w ∈ r.waiters) : ∃ release, r.look w.target = some release ∧
      (release = .done ∨ release = .ended .cancelled) := by
  cases hTarget : w.target with
  | shutdown =>
    refine ⟨.done, ?_, .inl rfl⟩
    rw [look, if_pos ((h.isTriggered_iff hPlanted).mpr hCodes)]
  | scope s =>
    refine ⟨.ended .cancelled, ?_, .inr rfl⟩
    have hCancelled := (h.isCancelled_iff (hPlanted.scopes w hw s hTarget)).mpr (.inl hCodes)
    rw [look, Scope.cause?, if_pos hCancelled]
    rfl

end Heard

/-! ## Waits -/

/-- What a move lets the task at a place see. -/
def sees (r : Waiters) (index : Nat) (w : Waiter) : Move → Option Release
  | .visit looking => if looking = index then r.look w.target else none
  | _ => none

theorem sees_of_ne (hNoLook : ∀ index, m ≠ .visit index) : r.sees i w m = none := by
  cases m with
  | visit looking => exact absurd rfl (hNoLook looking)
  | token | scope | derive _ | cancel _ | request _ | trigger | wait _ | waitTaken _ _
  | waitScope _ _ | clock _ => rfl

theorem sees_cases : r.sees i w m = none ∨ r.sees i w m = r.look w.target := by
  by_cases hLook : ∃ looking, m = .visit looking
  · obtain ⟨looking, rfl⟩ := hLook
    exact (Decidable.em (looking = i)).symm.imp (if_neg ·) (if_pos ·)
  · exact .inl (sees_of_ne (not_exists.mp hLook))

/-- Only a look of its own ends a wait, and what has ended stays as it is. -/
theorem move_getElem? (m : Move) (hWaiter : r.waiters[i]? = some w) :
    (r.move m).waiters[i]? = some { w with ended := w.ended.or (r.sees i w m) } := by
  have hAttends := attends_move r m
  generalize (r.move m).waiters = waiters at hAttends ⊢
  cases hAttends with
  | same hNoLook =>
    rw [sees_of_ne hNoLook, Option.or_none]
    exact hWaiter
  | joins hNoLook =>
    rw [sees_of_ne hNoLook, Option.or_none,
      List.getElem?_append_left (List.getElem?_eq_some_iff.mp hWaiter).1]
    exact hWaiter
  | looks looking =>
    simp only [sees, List.getElem?_modify, hWaiter]
    by_cases hMine : looking = i
    · simp [hMine, release_eq]
    · simp [hMine]

theorem now_move (r : Waiters) (m : Move) : (r.move m).now = r.now ∨ ∃ now, m = .clock now := by
  cases m with
  | clock now => exact .inr ⟨now, rfl⟩
  | derive index | cancel index | waitTaken _ index | waitScope _ timeout =>
    simp only [move]
    split <;> exact .inl rfl
  | token | scope | request _ | trigger | wait _ | visit _ => exact .inl rfl

/-- Whoever begins to wait has not looked yet. -/
theorem ended_of_new (m : Move) (hNone : r.waiters[i]? = none)
    (hNew : (r.move m).waiters[i]? = some w) : w.ended = none := by
  have hAttends := attends_move r m
  generalize (r.move m).waiters = waiters at hAttends hNew
  cases hAttends with
  | same =>
    rw [hNone] at hNew
    cases hNew
  | joins _ hPending =>
    rw [List.getElem?_append_right (List.getElem?_eq_none_iff.mp hNone)] at hNew
    rw [List.mem_singleton.mp (List.mem_of_getElem? hNew)]
    exact hPending
  | looks looking =>
    simp only [List.getElem?_modify, hNone] at hNew
    cases hNew

/-- Who waits for the shutdown itself is answered after a request only. -/
def Honest (moves : List Move) (r : Waiters) : Prop :=
  ∀ w ∈ r.waiters, w.target = .shutdown → w.ended = none ∨ w.ended = some .done ∧ codes moves ≠ []

theorem Honest.move (h : Honest moves r) (hHeard : Heard moves r) (hPlanted : r.Planted)
    (m : Move) : Honest (moves ++ [m]) (r.move m) := by
  intro w hw hTarget
  obtain ⟨j, hj⟩ := List.mem_iff_getElem?.mp hw
  cases hBefore : r.waiters[j]? with
  | none => exact .inl (ended_of_new m hBefore hj)
  | some w' =>
    obtain rfl := Option.some.inj ((move_getElem? m hBefore).symm.trans hj)
    have hTarget' : w'.target = .shutdown := hTarget
    have hStill : codes moves ≠ [] → codes (moves ++ [m]) ≠ [] := fun hCodes =>
      codes_concat_ne_nil.mpr (.inl hCodes)
    rcases h w' (List.mem_of_getElem? hBefore) hTarget' with hNone | ⟨hDone, hCodes⟩
    · simp only [hNone, Option.none_or]
      rcases r.sees_cases (i := j) (w := w') (m := m) with hNothing | hLook
      · exact .inl hNothing
      · rw [hLook, hTarget', look]
        split
        · next hTriggered =>
          exact .inr ⟨rfl, hStill ((hHeard.isTriggered_iff hPlanted).mp hTriggered)⟩
        · exact .inl rfl
    · exact .inr ⟨by simp only [hDone, Option.some_or], hStill hCodes⟩

namespace Reached

theorem trans (h : Reached begun moves q) (h' : Reached q later r) :
    Reached begun (moves ++ later) r := by
  induction h' with
  | begun =>
    rw [List.append_nil]
    exact h
  | move _ m hAdmits ih =>
    rw [← List.append_assoc]
    exact ih.move m hAdmits

theorem planted (h : Reached .start moves r) : r.Planted := by
  induction h with
  | begun => exact .start
  | move _ m _ ih => exact ih.move m

theorem heard (h : Reached .start moves r) : Heard moves r := by
  induction h with
  | begun => exact .start
  | move _ m hAdmits ih => exact ih.move hAdmits

theorem honest (h : Reached .start moves r) : Honest moves r := by
  induction h with
  | begun => exact nofun
  | move h m _ ih => exact ih.move h.heard h.planted m

/-- Nothing that was taken is lost. -/
theorem isPrefix (h : Reached q later r) : q.taken <+: r.taken := by
  induction h with
  | begun => exact List.prefix_refl _
  | @move _ r _ m _ ih => exact ih.trans (grows_move r m).isPrefix

/-- A task stays at its place, and an answer that it has is kept. -/
theorem keeps (h : Reached q later r) (hWaiter : q.waiters[i]? = some w) :
    ∃ ended, r.waiters[i]? = some { w with ended := ended } ∧
      (w.ended ≠ none → ended = w.ended) := by
  induction h with
  | begun => exact ⟨w.ended, hWaiter, fun _ => rfl⟩
  | @move _ r _ m _ ih =>
    obtain ⟨ended, hNow, hKept⟩ := ih
    refine ⟨ended.or (r.sees i { w with ended := ended } m), move_getElem? m hNow,
      fun hEnded => ?_⟩
    obtain ⟨release, hRelease⟩ := Option.ne_none_iff_exists'.mp hEnded
    rw [hKept hEnded, hRelease, Option.some_or]

/-- Once shutdown was requested, the clock waits for everybody to be answered. -/
theorem answered (h : Reached .start moves q) (hCodes : codes moves ≠ [])
    (hLater : Reached q later r) (hWaiter : q.waiters[i]? = some w) :
    ∃ ended, r.waiters[i]? = some { w with ended := ended } ∧ (ended ≠ none ∨ r.now = q.now) := by
  induction hLater with
  | begun => exact ⟨w.ended, hWaiter, .inr rfl⟩
  | @move later r hSoFar m hAdmits ih =>
    obtain ⟨ended, hNow, hAnswered⟩ := ih
    refine ⟨ended.or (r.sees i { w with ended := ended } m), move_getElem? m hNow, ?_⟩
    cases hEnded : ended with
    | some release => exact .inl (by simp)
    | none =>
      rcases now_move r m with hSame | ⟨now, rfl⟩
      · rw [hSame]
        exact .inr (hAnswered.resolve_left (fun hNe => hNe hEnded))
      · -- The clock does not go on, since this task has something to see.
        have hReached := h.trans hSoFar
        have hStill : codes (moves ++ later) ≠ [] := by
          rw [codes, List.filterMap_append]
          exact List.append_ne_nil_of_left_ne_nil hCodes _
        obtain ⟨release, hLook, -⟩ :=
          hReached.heard.exists_look hReached.planted hStill (List.mem_of_getElem? hNow)
        rw [hAdmits.2 _ (List.mem_of_getElem? hNow) hEnded] at hLook
        cases hLook

end Reached

/-! ## Letting everybody look -/

theorem settled_settle (r : Waiters) : r.settle.Settled := by
  intro w hMem hWaits
  obtain ⟨w', -, rfl⟩ := List.mem_map.mp hMem
  rw [release_eq] at hWaits ⊢
  exact (Option.or_eq_none_iff.mp hWaits).2

theorem visit_append (r : Waiters) (before : List Waiter) (w : Waiter) (rest : List Waiter) :
    ({ r with waiters := before ++ w :: rest } : Waiters).visit before.length =
      { r with waiters := before ++ w.release r.shutdown r.now :: rest } := by
  have hOne : ∀ before : List Waiter,
      (before ++ w :: rest).modify before.length (Waiter.release r.shutdown r.now) =
        before ++ w.release r.shutdown r.now :: rest := by
    intro before
    induction before with
    | nil => rfl
    | cons x before ih => simpa using ih
  simp only [visit, hOne]

/-- What can come of `q` later on. -/
def Later (q r : Waiters) : Prop := ∃ moves, Reached q moves r

namespace Later

theorem refl (r : Waiters) : Later r r := ⟨[], .begun⟩

theorem move (h : Later q r) (m : Move) (hAdmits : r.Admits m) : Later q (r.move m) := by
  obtain ⟨moves, h⟩ := h
  exact ⟨_, h.move m hAdmits⟩

/-- Every task has a look, those behind the first few. -/
theorem visits (before rest : List Waiter) (h : Later q { r with waiters := before ++ rest }) :
    Later q { r with waiters := before ++ rest.map (Waiter.release r.shutdown r.now) } := by
  induction rest generalizing before with
  | nil => exact h
  | cons w rest ih =>
    have hLook := h.move (.visit before.length) trivial
    simp only [Waiters.move, visit_append] at hLook
    rw [List.append_cons] at hLook
    have hRest := ih _ hLook
    rwa [List.append_assoc] at hRest

theorem settle (h : Later q r) : Later q r.settle := visits [] r.waiters h

theorem runUntil (h : Later q r) (hSettled : r.Settled) {target : Nat} (hAhead : r.now ≤ target) :
    Later q (Clock.runUntil Waiters.due Waiters.fire r.now target r) ∧
      (Clock.runUntil Waiters.due Waiters.fire r.now target r).Settled := by
  have hFire : ∀ now t (r : Waiters), now ≤ t → (∀ t' ∈ r.due, t' ≤ now ∨ t ≤ t') →
      Later q r ∧ r.Settled ∧ r.now = now →
        Later q (Waiters.fire t r) ∧ (Waiters.fire t r).Settled ∧
          (Waiters.fire t r).now = t := by
    rintro _ t r hLater - ⟨h, hSettled, rfl⟩
    exact ⟨(h.move (.clock t) ⟨hLater, hSettled⟩).settle, settled_settle _, rfl⟩
  obtain ⟨hReached, hQuiet, -⟩ := Clock.runUntil_onward hFire hAhead ⟨h, hSettled, rfl⟩
  exact ⟨hReached, hQuiet⟩

/-- A whole step, with everything that follows from it, is a sequence of moves. -/
theorem perform (h : Later q r) (hSettled : r.Settled) (step : Step) :
    Later q (r.perform step) ∧ (r.perform step).Settled := by
  cases step with
  | token => exact ⟨(h.move .token trivial).settle, settled_settle _⟩
  | cancelToken index =>
    cases hTaken : r.taken[index]? with
    | none =>
      simp only [Waiters.perform, hTaken]
      exact ⟨h.settle, settled_settle _⟩
    | some t =>
      have hCancel := h.move (.cancel index) (List.getElem?_eq_some_iff.mp hTaken).1
      simp only [Waiters.move, hTaken] at hCancel
      simp only [Waiters.perform, hTaken]
      exact ⟨hCancel.settle, settled_settle _⟩
  | request code => exact ⟨(h.move (.request code) trivial).settle, settled_settle _⟩
  | trigger => exact ⟨(h.move .trigger trivial).settle, settled_settle _⟩
  | wait id => exact ⟨(h.move (.wait id) trivial).settle, settled_settle _⟩
  | waitScope id timeout =>
    have hWait := h.move (.waitScope id timeout) trivial
    simp only [Waiters.move] at hWait
    simp only [Waiters.perform]
    split <;>
      · next hTake =>
        simp only [hTake] at hWait
        exact ⟨hWait.settle, settled_settle _⟩
  | advance d => exact h.runUntil hSettled (Nat.le_add_right r.now d)

theorem run (h : Later q r) (hSettled : r.Settled) (steps : List Step) :
    Later q (steps.foldl Waiters.perform r) := by
  induction steps generalizing r with
  | nil => exact h
  | cons step steps ih =>
    obtain ⟨hStep, hSettledThen⟩ := h.perform hSettled step
    exact ih hStep hSettledThen

end Later

/-- A token that was taken from the shutdown itself. -/
def Direct (r : Waiters) (t : Token) : Prop := t.ancestors = r.shutdown.root.lineage

/-- To cancel a token that was taken tells nobody that shutdown was requested, and reaches no token
that is not below. -/
theorem move_cancel (h : Reached .start moves r) (hj : r.taken[j]? = some u) :
    (r.move (.cancel j)).shutdown.isTriggered = r.shutdown.isTriggered ∧
      (r.move (.cancel j)).shutdown.exitCode = r.shutdown.exitCode ∧
      ∀ i t, r.taken[i]? = some t → u.number ∉ t.lineage ∨ r.Direct t ∧ j ≠ i →
        (r.move (.cancel j)).shutdown.tokens.isCancelled t =
          r.shutdown.tokens.isCancelled t := by
  have hAfter := h.move (.cancel j) (List.getElem?_eq_some_iff.mp hj).1
  refine ⟨?_, ?_, fun i t hi hApart => ?_⟩
  · rw [Bool.eq_iff_iff, hAfter.heard.isTriggered_iff hAfter.planted,
      h.heard.isTriggered_iff h.planted, codes_concat]
    simp [Move.code?]
  · rw [(acts_move _ _).exitCode]
    exact Option.or_none
  · have hNot : u.number ∉ t.lineage := by
      rcases hApart with hNot | ⟨hDirect, hNe⟩
      · exact hNot
      · rw [h.planted.number_mem_lineage_iff hi hDirect hj]
        exact hNe
    simp only [move, hj]
    exact Tokens.isCancelled_cancel_of_not_mem hNot

end Waiters

open Waiters

/-- A shutdown, whatever happens around it in whatever order. It is triggered, and has a code, if
and only if it was requested, and the code is that of the first request. What was taken from it, at
any time, is cancelled when it was requested or when that very token was; what is made from such a
token ends with it as well. To cancel one of them is no request, and touches no other one. Nobody
who waits for the shutdown is answered before a request, and from the request on the clock stands
until everybody who waits is answered. What is performed in whole steps is among all this. -/
theorem requests_reach {moves : List Move} {r : Waiters} (h : Reached .start moves r) :
    (r.shutdown.isTriggered = true ↔ codes moves ≠ []) ∧
    (r.shutdown.exitCode.isSome = true ↔ codes moves ≠ []) ∧
    r.shutdown.exitCode = (codes moves).head? ∧
    (∀ m, m = .token ∨ m = .scope → ∃ t, (r.move m).taken = r.taken ++ [t] ∧ (r.move m).Direct t) ∧
    (∀ i t, r.taken[i]? = some t → r.Direct t →
      (r.shutdown.tokens.isCancelled t = true ↔ codes moves ≠ [] ∨ .cancel i ∈ moves)) ∧
    (∀ t ∈ r.taken, r.shutdown.tokens.isCancelled t = true ↔ codes moves ≠ [] ∨
      ∃ j u, .cancel j ∈ moves ∧ r.taken[j]? = some u ∧ u.number ∈ t.lineage) ∧
    (∀ j u, r.taken[j]? = some u →
      (r.move (.cancel j)).shutdown.isTriggered = r.shutdown.isTriggered ∧
      (r.move (.cancel j)).shutdown.exitCode = r.shutdown.exitCode ∧
      ∀ i t, r.taken[i]? = some t → u.number ∉ t.lineage ∨ r.Direct t ∧ j ≠ i →
        (r.move (.cancel j)).shutdown.tokens.isCancelled t =
          r.shutdown.tokens.isCancelled t) ∧
    (∀ w ∈ r.waiters, w.target = .shutdown →
      w.ended = none ∨ w.ended = some .done ∧ codes moves ≠ []) ∧
    (codes moves ≠ [] → ∀ w ∈ r.settle.waiters, w.ended ≠ none) ∧
    (∀ later r', Reached r later r' →
      (∀ code, r.shutdown.exitCode = some code → r'.shutdown.exitCode = some code) ∧
      r.taken <+: r'.taken ∧
      ∀ (i : Nat) (w : Waiter), r.waiters[i]? = some w → ∃ ended,
        r'.waiters[i]? = some { w with ended := ended } ∧
        (w.ended ≠ none → ended = w.ended) ∧
        (codes moves ≠ [] → ended ≠ none ∨ r'.now = r.now)) ∧
    ∀ steps : List Step, Later r (steps.foldl Waiters.perform r.settle) := by
  have hHeard := h.heard
  have hPlanted := h.planted
  refine ⟨hHeard.isTriggered_iff hPlanted, ?_, hHeard.exitCode, ?_, fun i t ht hDirect => ?_,
    fun t ht => hHeard.isCancelled_iff (hPlanted.number_mem ht), fun j u hj => move_cancel h hj,
    h.honest, fun hCodes w hw => ?_, fun later r' hLater => ?_,
    (Later.refl r).settle.run (settled_settle r)⟩
  · rw [hHeard.exitCode]
    cases codes moves <;> simp
  · rintro m (rfl | rfl)
    · exact ⟨_, rfl, rfl⟩
    · exact ⟨_, rfl, rfl⟩
  · rw [hHeard.isCancelled_iff (hPlanted.number_mem (List.mem_of_getElem? ht))]
    refine or_congr_right ⟨?_, fun hCancel => ?_⟩
    · rintro ⟨j, u, hCancel, hj, hMem⟩
      rwa [← (hPlanted.number_mem_lineage_iff ht hDirect hj).mp hMem]
    · exact ⟨i, t, hCancel, ht, List.mem_cons_self⟩
  · obtain ⟨w', hw', rfl⟩ := List.mem_map.mp hw
    obtain ⟨release, hLook, -⟩ := hHeard.exists_look hPlanted hCodes hw'
    rw [release_eq, hLook]
    cases w'.ended <;> simp
  · refine ⟨fun code hCode => ?_, hLater.isPrefix, fun i w hw => ?_⟩
    · have hAll := (h.trans hLater).heard.exitCode
      rw [codes, List.filterMap_append, List.head?_append, ← codes, ← hHeard.exitCode,
        hCode] at hAll
      exact hAll
    · obtain ⟨ended, hNow, hKept⟩ := hLater.keeps hw
      refine ⟨ended, hNow, hKept, fun hCodes => ?_⟩
      obtain ⟨ended', hNow', hAnswered⟩ := h.answered hCodes hLater hw
      obtain rfl : ended' = ended :=
        congrArg Waiter.ended (Option.some.inj (hNow'.symm.trans hNow))
      exact hAnswered

/-- One of two tokens is cancelled. Then shutdown is requested twice, and a third one is taken. -/
def bothSides : List Move :=
  [.token, .scope, .wait "early", .cancel 0, .clock 3, .request 7, .visit 0, .trigger, .token,
    .clock 5]

theorem requests_reach_bothSides :
    let q := (bothSides.take 5).foldl Waiters.move .start
    let r := bothSides.foldl Waiters.move .start
    q.shutdown.tokens.isCancelled ⟨1, [0]⟩ = true ∧
    q.shutdown.tokens.isCancelled ⟨2, [0]⟩ = false ∧ q.shutdown.isTriggered = false ∧
    r.shutdown.isTriggered = true ∧ r.shutdown.exitCode = some 7 ∧
    r.shutdown.tokens.isCancelled ⟨2, [0]⟩ = true ∧
    r.shutdown.tokens.isCancelled ⟨3, [0]⟩ = true ∧
    ∃ ended, r.waiters[0]? = some ⟨"early", .shutdown, ended⟩ ∧ ended ≠ none := by
  intro q r
  have hBefore : Reached .start (bothSides.take 5) q :=
    (((((@Reached.begun .start).move .token trivial).move .scope trivial).move
      (.wait "early") trivial).move (.cancel 0) Nat.zero_lt_two).move (.clock 3)
        ⟨by decide, by decide⟩
  have hAsked : Reached .start (bothSides.take 6) (q.move (.request 7)) :=
    hBefore.move (.request 7) trivial
  have hSince : Reached (q.move (.request 7)) (bothSides.drop 6) r :=
    (((Reached.begun.move (.visit 0) trivial).move .trigger trivial).move .token trivial).move
      (.clock 5) ⟨by decide, by decide⟩
  obtain ⟨hNot, -, -, -, hTokens, -⟩ := requests_reach hBefore
  obtain ⟨-, -, -, -, -, -, -, -, -, hLater, -⟩ := requests_reach hAsked
  obtain ⟨hTriggered, -, hCode, -, hCancelled, -⟩ := requests_reach (hAsked.trans hSince)
  obtain ⟨ended, hNow, -, hAnswered⟩ :=
    (hLater _ r hSince).2.2 0 ⟨"early", .shutdown, none⟩ rfl
  refine ⟨(hTokens 0 ⟨1, [0]⟩ rfl rfl).mpr (.inr (by decide)), ?_, ?_, hTriggered.mpr (by decide),
    hCode, (hCancelled 1 ⟨2, [0]⟩ rfl rfl).mpr (.inl (by decide)),
    (hCancelled 2 ⟨3, [0]⟩ rfl rfl).mpr (.inl (by decide)), ended, hNow, ?_⟩
  · rw [Bool.eq_false_iff, ne_eq, hTokens 1 ⟨2, [0]⟩ rfl rfl]
    decide
  · rw [Bool.eq_false_iff, ne_eq, hNot]
    decide
  · exact (hAnswered (by decide)).resolve_right (by decide)

end Gatehouse.Shutdown
