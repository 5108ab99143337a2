import Gatehouse.Proofs.Clock
import Gatehouse.Proofs.Scope.Causes
import Mathlib.Data.List.Induction
import Mathlib.Order.Bounds.Basic

/-!
# What a scope inherits

A scope takes two things from the scope that it is made from, and each goes its own way. The token
line goes on whatever the scope is made from: a child has a token below that of its parent, and a
scope over a token has that very token. The deadline goes on to children only: a scope over a token
starts without one. So the chronicle of all births, in which scopes are known by the order of their
births, says of every scope when it ends by itself and by whose cancellation it ends before.

* `Chronicle.perform`: the births and cancellations behind a sequence of commands.
* `Limits`: the instants by which a scope ends. `Holds`, `Under`: its token, and those above it.
* `Mirrors`: the scopes of a directory are what the chronicle says.
* `Mirrors.deadline_iff`: the deadline of a scope is the first of its limits.
* `Mirrors.cause?_eq_cancelled`: exactly the cancellations of scopes whose token is above end it.
* `Reaches.not_of_ancestor`, `Reaches.not_of_sibling`: whom a cancellation does not reach.
-/

namespace Gatehouse.Scope

/-! ## Births -/

/-- How a scope was made. Other scopes are known by the order of their births. -/
inductive Origin where
  | root
  | timedRoot (timeout : Nat)
  | child (parent : Nat)
  | timedChild (parent timeout : Nat)
  /-- Over the token of another scope. -/
  | shared (source : Nat)
  deriving DecidableEq, Repr

namespace Origin

/-- The scope that passes its deadline on. -/
def parent? : Origin → Option Nat
  | .child p => some p
  | .timedChild p _ => some p
  | _ => none

/-- The scope whose token is used again. -/
def source? : Origin → Option Nat
  | .shared s => some s
  | _ => none

def timeout? : Origin → Option Nat
  | .timedRoot timeout => some timeout
  | .timedChild _ timeout => some timeout
  | _ => none

end Origin

structure Birth where
  name : String
  moment : Nat
  origin : Origin
  deriving DecidableEq, Repr

/-- All births, the earliest first, and the scopes on which cancellation was asked for. -/
structure Chronicle where
  births : List Birth
  cancelled : List Nat
  deriving DecidableEq, Repr

namespace Chronicle

def empty : Chronicle := ⟨[], []⟩

/-- The latest scope that was made under a name. -/
def latest? (c : Chronicle) (name : String) : Option Nat :=
  (c.births.zipIdx.reverse.find? (·.1.name == name)).map (·.2)

def bear (c : Chronicle) (name : String) (now : Nat) (origin : Origin) : Chronicle :=
  { c with births := c.births ++ [⟨name, now, origin⟩] }

/-- A scope made from the latest one of a name, where there is one. -/
def bearFrom (c : Chronicle) (name : String) (now : Nat) (from_ : String) (origin : Nat → Origin) :
    Chronicle :=
  match c.latest? from_ with
  | some i => c.bear name now (origin i)
  | none => c

/-- Nothing is born of a command whose timeout would end at an instant that no clock shows. -/
def perform (c : Chronicle) (now : Nat) : Command → Chronicle
  | .create name => c.bear name now .root
  | .createWithTimeout name timeout =>
    if now + timeout ≤ Instant.latest then c.bear name now (.timedRoot timeout) else c
  | .derive name parent => c.bearFrom name now parent .child
  | .deriveWithTimeout name parent timeout =>
    if now + timeout ≤ Instant.latest then
      c.bearFrom name now parent fun p => .timedChild p timeout
    else c
  | .shareToken name source => c.bearFrom name now source .shared
  | .cancel name =>
    match c.latest? name with
    | some i => { c with cancelled := i :: c.cancelled }
    | none => c

/-- What some commands, each at its instant, have come to. -/
def ofHistory (history : List (Nat × Command)) : Chronicle :=
  history.foldl (fun c deed => c.perform deed.1 deed.2) empty

end Chronicle

/-! ## Inheritance -/

def parentOf? (births : List Birth) (i : Nat) : Option Nat :=
  births[i]?.bind fun b : Birth => b.origin.parent?

section Inheritance

variable (births : List Birth)

/-- Scope `i` ends by the instant `t`: it has, or has inherited, a timeout that is over then. -/
inductive Limits : Nat → Nat → Prop where
  | own {i timeout : Nat} {b : Birth} (hBirth : births[i]? = some b)
      (hTimeout : b.origin.timeout? = some timeout) : Limits i (b.moment + timeout)
  | inherited {i p t : Nat} {b : Birth} (hBirth : births[i]? = some b)
      (hParent : b.origin.parent? = some p) (hLimits : Limits p t) : Limits i t

/-- Scope `i` has the token that was made for scope `n`. -/
inductive Holds : Nat → Nat → Prop where
  | own {i : Nat} {b : Birth} (hBirth : births[i]? = some b) (hOwn : b.origin.source? = none) :
      Holds i i
  | shared {i s n : Nat} {b : Birth} (hBirth : births[i]? = some b)
      (hSource : b.origin.source? = some s) (hHolds : Holds s n) : Holds i n

/-- The token that was made for scope `n` is that of scope `i`, or above it. -/
inductive Under : Nat → Nat → Prop where
  | own {i n : Nat} (hHolds : Holds births i n) : Under i n
  | above {i m p n : Nat} {b : Birth} (hHolds : Holds births i m) (hBirth : births[m]? = some b)
      (hParent : b.origin.parent? = some p) (hUnder : Under p n) : Under i n

/-- To cancel scope `k` is to cancel scope `i`. -/
def Reaches (k i : Nat) : Prop := ∃ n, Holds births k n ∧ Under births i n

/-- The token of scope `a` is above that of scope `i`. -/
def Ancestor (a i : Nat) : Prop := ∃ n, Holds births a n ∧ Under births i n ∧ ¬ Holds births i n

/-- The tokens of two scopes are two children of one token. -/
def Sibling (i k : Nat) : Prop :=
  ∃ m n parent, Holds births i m ∧ Holds births k n ∧ m ≠ n ∧
    (∃ p, parentOf? births m = some p ∧ Holds births p parent) ∧
    ∃ q, parentOf? births n = some q ∧ Holds births q parent

end Inheritance

/-- What a scope is made from came before it. -/
def Ordered (births : List Birth) : Prop :=
  ∀ (i : Nat) (b : Birth), births[i]? = some b →
    (∀ p, b.origin.parent? = some p → p < i) ∧ ∀ s, b.origin.source? = some s → s < i

variable {births : List Birth} {b : Birth} {a i k m n p t : Nat}

theorem limits_iff (hBirth : births[i]? = some b) :
    Limits births i t ↔ (∃ timeout, b.origin.timeout? = some timeout ∧ t = b.moment + timeout) ∨
      ∃ p, b.origin.parent? = some p ∧ Limits births p t := by
  constructor
  · intro h
    cases h with
    | own hBirth' hTimeout =>
      obtain rfl := Option.some.inj (hBirth.symm.trans hBirth')
      exact .inl ⟨_, hTimeout, rfl⟩
    | inherited hBirth' hParent hLimits =>
      obtain rfl := Option.some.inj (hBirth.symm.trans hBirth')
      exact .inr ⟨_, hParent, hLimits⟩
  · rintro (⟨timeout, hTimeout, rfl⟩ | ⟨p, hParent, hLimits⟩)
    · exact .own hBirth hTimeout
    · exact .inherited hBirth hParent hLimits

theorem holds_iff (hBirth : births[i]? = some b) :
    Holds births i n ↔
      (n = i ∧ b.origin.source? = none) ∨
        ∃ s, b.origin.source? = some s ∧ Holds births s n := by
  constructor
  · intro h
    cases h with
    | own hBirth' hOwn =>
      obtain rfl := Option.some.inj (hBirth.symm.trans hBirth')
      exact .inl ⟨rfl, hOwn⟩
    | shared hBirth' hSource hHolds =>
      obtain rfl := Option.some.inj (hBirth.symm.trans hBirth')
      exact .inr ⟨_, hSource, hHolds⟩
  · rintro (⟨rfl, hOwn⟩ | ⟨s, hSource, hHolds⟩)
    · exact .own hBirth hOwn
    · exact .shared hBirth hSource hHolds

theorem Origin.source?_of_parent? {origin : Origin} (h : origin.parent? = some p) :
    origin.source? = none := by
  cases origin with
  | child | timedChild => rfl
  | root | timedRoot | shared => cases h

/-- The way up: from a child to its parent, and from a scope over a token to the source of it. -/
theorem under_iff (hBirth : births[i]? = some b) :
    Under births i n ↔ (n = i ∧ b.origin.source? = none) ∨
      (∃ p, b.origin.parent? = some p ∧ Under births p n) ∨
        ∃ s, b.origin.source? = some s ∧ Under births s n := by
  constructor
  · intro h
    cases h with
    | own hHolds =>
      rcases (holds_iff hBirth).mp hHolds with hOwn | ⟨s, hSource, hRest⟩
      · exact .inl hOwn
      · exact .inr (.inr ⟨s, hSource, .own hRest⟩)
    | above hHolds hMade hParent hUnder =>
      rcases (holds_iff hBirth).mp hHolds with ⟨rfl, -⟩ | ⟨s, hSource, hRest⟩
      · obtain rfl := Option.some.inj (hBirth.symm.trans hMade)
        exact .inr (.inl ⟨_, hParent, hUnder⟩)
      · exact .inr (.inr ⟨s, hSource, .above hRest hMade hParent hUnder⟩)
  · rintro (⟨rfl, hOwn⟩ | ⟨p, hParent, hUnder⟩ | ⟨s, hSource, hUnder⟩)
    · exact .own (.own hBirth hOwn)
    · exact .above (.own hBirth (Origin.source?_of_parent? hParent)) hBirth hParent hUnder
    · cases hUnder with
      | own hHolds => exact .own (.shared hBirth hSource hHolds)
      | above hHolds hMade hParent hRest =>
        exact .above (.shared hBirth hSource hHolds) hMade hParent hRest

/-! ## Whom a cancellation does not reach -/

theorem Holds.unique (h : Holds births i m) (h' : Holds births i n) : m = n := by
  induction h with
  | own hBirth hOwn =>
    rcases (holds_iff hBirth).mp h' with ⟨rfl, -⟩ | ⟨s, hSource, -⟩
    · rfl
    · rw [hOwn] at hSource
      cases hSource
  | shared hBirth hSource _ ih =>
    rcases (holds_iff hBirth).mp h' with ⟨-, hOwn⟩ | ⟨s, hSource', hRest⟩
    · rw [hSource] at hOwn
      cases hOwn
    · obtain rfl := Option.some.inj (hSource.symm.trans hSource')
      exact ih hRest

theorem Holds.le (hOrdered : Ordered births) (h : Holds births i n) : n ≤ i := by
  induction h with
  | own => exact Nat.le_refl _
  | @shared i s n b hBirth hSource _ ih =>
    have hBefore := (hOrdered i b hBirth).2 s hSource
    omega

theorem Under.le (hOrdered : Ordered births) (h : Under births i n) : n ≤ i := by
  induction h with
  | own hHolds => exact hHolds.le hOrdered
  | @above i m p n b hHolds hBirth hParent _ ih =>
    have hUp := hHolds.le hOrdered
    have hBefore := (hOrdered m b hBirth).1 p hParent
    omega

/-- Strictly above its own token a scope has only tokens that were made earlier. -/
theorem Under.lt_of_holds (hOrdered : Ordered births) (hHolds : Holds births i m)
    (h : Under births i n) : n = m ∨ ∃ p, n ≤ p ∧ p < m ∧
      parentOf? births m = some p ∧ Under births p n := by
  cases h with
  | own hHolds' => exact .inl (hHolds'.unique hHolds)
  | @above i m' p n b hHolds' hBirth hParent hUnder =>
    obtain rfl := hHolds'.unique hHolds
    refine .inr ⟨p, hUnder.le hOrdered, (hOrdered _ b hBirth).1 p hParent, ?_, hUnder⟩
    rw [parentOf?, hBirth]
    exact hParent

/-- A cancellation does not go upwards. -/
theorem Reaches.not_of_ancestor (hOrdered : Ordered births) (hAncestor : Ancestor births a k) :
    ¬ Reaches births k a := by
  rintro ⟨m, hOwn, hUnder⟩
  obtain ⟨n, hAbove, hUnderAbove, hOther⟩ := hAncestor
  have hLater : n < m := by
    rcases hUnderAbove.lt_of_holds hOrdered hOwn with rfl | ⟨p, hLe, hLt, -⟩
    · exact absurd hOwn hOther
    · omega
  rcases hUnder.lt_of_holds hOrdered hAbove with rfl | ⟨p, hLe, hLt, -⟩ <;> omega

/-- Nor does it go to another child of the same token. -/
theorem Reaches.not_of_sibling (hOrdered : Ordered births) (hSibling : Sibling births i k) :
    ¬ Reaches births k i := by
  rintro ⟨n', hOwn', hUnder⟩
  obtain ⟨m, n, parent, hMine, hOwn, hNe, ⟨p, hParent, hShared⟩, q, hParent', hShared'⟩ := hSibling
  obtain rfl := hOwn'.unique hOwn
  rcases hUnder.lt_of_holds hOrdered hMine with hSame | ⟨p', -, -, hOf, hUp⟩
  · exact hNe hSame.symm
  · obtain rfl := Option.some.inj (hOf.symm.trans hParent)
    have hBelow : n' ≤ parent := by
      rcases hUp.lt_of_holds hOrdered hShared with rfl | ⟨p'', hLe, hLt, -⟩ <;> omega
    have hEarlier : q < n' := by
      cases hBirth : births[n']? with
      | none =>
        rw [parentOf?, hBirth] at hParent'
        cases hParent'
      | some b =>
        rw [parentOf?, hBirth] at hParent'
        exact (hOrdered n' b hBirth).1 q hParent'
    have hUpTo := hShared'.le hOrdered
    omega

/-! ## The scopes of a directory -/

theorem cause?_eq_deadlineExceeded {s : Scope} {ts : Tokens} {now : Nat} :
    s.cause? ts now = some .deadlineExceeded ↔
      ts.isCancelled s.token = false ∧ ∃ t, s.deadline = some t ∧ t ≤ now := by
  unfold cause?
  cases hCancelled : ts.isCancelled s.token with
  | true => simp
  | false =>
    cases hDeadline : s.deadline <;> simp [passed]

def Directory.scopeAt? (d : Directory) (i : Nat) : Option Scope := d.named[i]?.map (·.2)

/-- What becomes of a birth among scopes that are known by their places, where `base` is the first
number that has not been handed out. -/
inductive Formed (scopeAt? : Nat → Option Scope) (i base moment : Nat) :
    Origin → Scope → Prop where
  | root : Formed scopeAt? i base moment .root ⟨⟨base, []⟩, none⟩
  | timedRoot (timeout : Nat) :
      Formed scopeAt? i base moment (.timedRoot timeout) ⟨⟨base + 1, [base]⟩, some (moment + timeout)⟩
  | child {p : Nat} {s : Scope} (hBefore : p < i) (hParent : scopeAt? p = some s) :
      Formed scopeAt? i base moment (.child p) ⟨⟨base, s.token.lineage⟩, s.deadline⟩
  | timedChild {p : Nat} {s : Scope} (hBefore : p < i) (hParent : scopeAt? p = some s)
      (timeout : Nat) :
      Formed scopeAt? i base moment (.timedChild p timeout)
        ⟨⟨base, s.token.lineage⟩, Clock.earlier s.deadline (some (moment + timeout))⟩
  | shared {p : Nat} {s : Scope} (hBefore : p < i) (hSource : scopeAt? p = some s) :
      Formed scopeAt? i base moment (.shared p) (.ofToken s.token)

/-- The scopes of a directory are what a chronicle says, under the same names, and so are the
cancellations. -/
structure Mirrors (c : Chronicle) (d : Directory) : Prop where
  names : d.named.map (·.1) = c.births.map (·.name)
  formed : ∀ i b s, c.births[i]? = some b → d.scopeAt? i = some s →
    ∃ base, Formed d.scopeAt? i base b.moment b.origin s ∧
      ∀ j s', j < i → d.scopeAt? j = some s' → ∀ n ∈ s'.token.lineage, n < base
  issued : ∀ i s, d.scopeAt? i = some s → ∀ n ∈ s.token.lineage, n < d.tokens.issued
  born : ∀ k ∈ c.cancelled, k < c.births.length
  cancelled : ∀ n, n ∈ d.tokens.cancelled ↔
    ∃ k ∈ c.cancelled, ∃ s, d.scopeAt? k = some s ∧ s.token.number = n

namespace Mirrors

variable {c : Chronicle} {d : Directory} {s : Scope} {now : Nat}

theorem length_eq (h : Mirrors c d) : d.named.length = c.births.length := by
  have hLengths := congrArg List.length h.names
  rwa [List.length_map, List.length_map] at hLengths

theorem lt_of_scopeAt? (h : Mirrors c d) (hScope : d.scopeAt? i = some s) : i < c.births.length := by
  obtain ⟨entry, hEntry, -⟩ := Option.map_eq_some_iff.mp hScope
  obtain ⟨hLess, -⟩ := List.getElem?_eq_some_iff.mp hEntry
  rwa [h.length_eq] at hLess

theorem exists_scope (h : Mirrors c d) (hBirth : c.births[i]? = some b) :
    ∃ s, d.scopeAt? i = some s := by
  obtain ⟨hLess, -⟩ := List.getElem?_eq_some_iff.mp hBirth
  rw [← h.length_eq] at hLess
  exact ⟨d.named[i].2, by rw [Directory.scopeAt?, List.getElem?_eq_getElem hLess, Option.map_some]⟩

theorem exists_birth (h : Mirrors c d) (hScope : d.scopeAt? i = some s) :
    ∃ b, c.births[i]? = some b :=
  ⟨_, List.getElem?_eq_getElem (h.lt_of_scopeAt? hScope)⟩

/-- A name stands for the scope of the latest birth under it. -/
theorem find?_eq (h : Mirrors c d) (name : String) :
    d.find? name = (c.latest? name).bind d.scopeAt? ∧
      ∀ i, c.latest? name = some i → ∃ s, d.scopeAt? i = some s := by
  have hNames := h.names
  obtain ⟨births, cancelled⟩ := c
  obtain ⟨tokens, named⟩ := d
  clear h
  simp only [Directory.find?, Chronicle.latest?] at hNames ⊢
  induction births using List.reverseRecOn generalizing named with
  | nil =>
    obtain rfl : named = [] := List.map_eq_nil_iff.mp hNames
    exact ⟨rfl, nofun⟩
  | append_singleton births b ih =>
    obtain ⟨named, last, rfl, hEarlier, hLast⟩ := List.map_eq_append_iff.mp
      (hNames.trans List.map_append)
    obtain ⟨entry, rfl, hName⟩ := List.map_eq_singleton_iff.mp hLast
    obtain ⟨hFind, hSome⟩ := ih named hEarlier
    have hLength : named.length = births.length := by
      simpa using congrArg List.length hEarlier
    simp only [List.zipIdx_append, List.zipIdx_singleton, List.reverse_append,
      List.reverse_singleton, List.singleton_append, List.find?_cons, Nat.zero_add, hName]
    cases b.name == name with
    | true =>
      have hHere : Directory.scopeAt? ⟨tokens, named ++ [entry]⟩ births.length = some entry.2 := by
        rw [Directory.scopeAt?, ← hLength, List.getElem?_concat_length, Option.map_some]
      refine ⟨hHere.symm, fun i hLatest => ?_⟩
      obtain rfl : births.length = i := Option.some.inj hLatest
      exact ⟨entry.2, hHere⟩
    | false =>
      -- An earlier scope stands where it stood before.
      have hStays : ∀ i s, Directory.scopeAt? ⟨tokens, named⟩ i = some s →
          Directory.scopeAt? ⟨tokens, named ++ [entry]⟩ i = some s := by
        intro i s hScope
        obtain ⟨e, hEntry, hSame⟩ := Option.map_eq_some_iff.mp hScope
        obtain ⟨hLess, -⟩ := List.getElem?_eq_some_iff.mp hEntry
        rw [Directory.scopeAt?, List.getElem?_append_left hLess, hEntry, Option.map_some, hSame]
      constructor
      · refine hFind.trans ?_
        cases hLatest : (births.zipIdx.reverse.find? (·.1.name == name)).map (·.2) with
        | none => rfl
        | some i =>
          obtain ⟨s, hScope⟩ := hSome i hLatest
          show Directory.scopeAt? _ i = Directory.scopeAt? _ i
          rw [hScope, hStays i s hScope]
      · intro i hLatest
        obtain ⟨s, hScope⟩ := hSome i hLatest
        exact ⟨s, hStays i s hScope⟩

theorem find?_eq_none (h : Mirrors c d) {name : String} (hNone : c.latest? name = none) :
    d.find? name = none := by
  rw [(h.find?_eq name).1, hNone]
  rfl

theorem find?_eq_some (h : Mirrors c d) {name : String} (hLatest : c.latest? name = some i) :
    ∃ s, d.find? name = some s ∧ d.scopeAt? i = some s := by
  obtain ⟨s, hScope⟩ := (h.find?_eq name).2 i hLatest
  refine ⟨s, ?_, hScope⟩
  rw [(h.find?_eq name).1, hLatest]
  exact hScope

/-! ## Commands -/

theorem scopeAt?_record (d : Directory) (name : String) (made : Scope × Tokens) (j : Nat) :
    (d.record name made).scopeAt? j =
      if j = d.named.length then some made.1 else d.scopeAt? j := by
  unfold Directory.scopeAt? Directory.record
  dsimp only
  rcases Nat.lt_trichotomy j d.named.length with hBelow | rfl | hAbove
  · rw [List.getElem?_append_left hBelow, if_neg (by omega)]
  · rw [List.getElem?_concat_length, if_pos rfl]
    rfl
  · have hOld : d.named[j]? = none := List.getElem?_eq_none (by omega)
    have hNew : (d.named ++ [(name, made.1)])[j]? = none :=
      List.getElem?_eq_none (by simp; omega)
    rw [hOld, hNew, if_neg (by omega)]

theorem formed_record {name : String} {made : Scope × Tokens} {base moment : Nat} {origin : Origin}
    (hi : i ≤ d.named.length) (h : Formed d.scopeAt? i base moment origin s) :
    Formed (d.record name made).scopeAt? i base moment origin s := by
  have hStays : ∀ p s', p < i → d.scopeAt? p = some s' →
      (d.record name made).scopeAt? p = some s' := by
    intro p s' hp hScope
    rw [scopeAt?_record, if_neg (by omega)]
    exact hScope
  cases h with
  | root => exact .root
  | timedRoot timeout => exact .timedRoot timeout
  | child hBefore hParent => exact .child hBefore (hStays _ _ hBefore hParent)
  | timedChild hBefore hParent timeout =>
    exact .timedChild hBefore (hStays _ _ hBefore hParent) timeout
  | shared hBefore hSource => exact .shared hBefore (hStays _ _ hBefore hSource)

/-- A scope that is made takes its numbers from those that have not been handed out. -/
structure Makes (d : Directory) (now : Nat) (origin : Origin) (made : Scope × Tokens) : Prop where
  formed : Formed d.scopeAt? d.named.length d.tokens.issued now origin made.1
  cancelled : made.2.cancelled = d.tokens.cancelled
  issued : d.tokens.issued ≤ made.2.issued
  own : ∀ n ∈ made.1.token.lineage, n < made.2.issued

theorem bear (h : Mirrors c d) {name : String} {origin : Origin} {made : Scope × Tokens}
    (hMakes : Makes d now origin made) :
    Mirrors (c.bear name now origin) (d.record name made) := by
  have hLength := h.length_eq
  refine ⟨?_, ?_, ?_, ?_, ?_⟩
  · simp [Directory.record, Chronicle.bear, h.names]
  · intro i b s hBirth hScope
    rw [scopeAt?_record] at hScope
    by_cases hNew : i = d.named.length
    · rw [if_pos hNew] at hScope
      obtain rfl := Option.some.inj hScope
      rw [hNew, hLength, Chronicle.bear, List.getElem?_concat_length] at hBirth
      obtain rfl := Option.some.inj hBirth
      rw [hNew]
      refine ⟨_, formed_record (Nat.le_refl _) hMakes.formed, ?_⟩
      intro j s' hj hScope' n hn
      rw [scopeAt?_record, if_neg (by omega)] at hScope'
      exact h.issued j s' hScope' n hn
    · rw [if_neg hNew] at hScope
      have hLess := h.lt_of_scopeAt? hScope
      rw [Chronicle.bear, List.getElem?_append_left hLess] at hBirth
      obtain ⟨base, hOld, hFresh⟩ := h.formed i b s hBirth hScope
      refine ⟨base, formed_record (by omega) hOld, ?_⟩
      intro j s' hj hScope' n hn
      rw [scopeAt?_record, if_neg (by omega)] at hScope'
      exact hFresh j s' hj hScope' n hn
  · intro j s' hScope n hn
    rw [scopeAt?_record] at hScope
    by_cases hNew : j = d.named.length
    · rw [if_pos hNew] at hScope
      obtain rfl := Option.some.inj hScope
      exact hMakes.own n hn
    · rw [if_neg hNew] at hScope
      exact Nat.lt_of_lt_of_le (h.issued j s' hScope n hn) hMakes.issued
  · intro k hk
    have hBefore := h.born k hk
    simp only [Chronicle.bear, List.length_append, List.length_singleton]
    omega
  · intro n
    show n ∈ made.2.cancelled ↔ _
    rw [hMakes.cancelled, h.cancelled n]
    apply exists_congr
    intro k
    apply and_congr_right
    intro hk
    have hBefore := h.born k hk
    rw [scopeAt?_record, if_neg (by omega)]

/-- A scope is made from the latest one of a name, where there is one. -/
theorem bearFrom (h : Mirrors c d) {name source : String} {origin : Nat → Origin}
    {f : Scope → Scope × Tokens}
    (hMakes : ∀ p s, p < d.named.length → d.scopeAt? p = some s →
      Makes d now (origin p) (f s)) :
    Mirrors (c.bearFrom name now source origin)
      (match d.find? source with
        | some s => d.record name (f s)
        | none => d) := by
  unfold Chronicle.bearFrom
  cases hLatest : c.latest? source with
  | none =>
    rw [h.find?_eq_none hLatest]
    exact h
  | some p =>
    obtain ⟨s, hFind, hScope⟩ := h.find?_eq_some hLatest
    rw [hFind]
    have hBefore := h.lt_of_scopeAt? hScope
    rw [← h.length_eq] at hBefore
    exact h.bear (hMakes p s hBefore hScope)

theorem cancel (h : Mirrors c d) (hScope : d.scopeAt? k = some s) :
    Mirrors { c with cancelled := k :: c.cancelled } { d with tokens := s.cancel d.tokens } := by
  refine ⟨h.names, h.formed, h.issued, ?_, ?_⟩
  · intro k' hk
    rcases List.mem_cons.mp hk with rfl | hOld
    · exact h.lt_of_scopeAt? hScope
    · exact h.born k' hOld
  · intro n
    show n ∈ s.token.number :: d.tokens.cancelled ↔ _
    rw [List.mem_cons, h.cancelled n]
    constructor
    · rintro (rfl | ⟨k', hk, hOld⟩)
      · exact ⟨k, List.mem_cons_self, s, hScope, rfl⟩
      · exact ⟨k', List.mem_cons_of_mem k hk, hOld⟩
    · rintro ⟨k', hk, s', hScope', hNumber⟩
      rcases List.mem_cons.mp hk with rfl | hOld
      · obtain rfl := Option.some.inj (hScope.symm.trans hScope')
        exact .inl hNumber.symm
      · exact .inr ⟨k', hOld, s', hScope', hNumber⟩

/-- A new token below that of a scope. -/
theorem child_lineage (h : Mirrors c d) (hScope : d.scopeAt? p = some s) :
    ∀ n ∈ (d.tokens.child s.token).1.lineage, n < d.tokens.issued + 1 := by
  intro n hn
  rcases List.mem_cons.mp hn with rfl | hAbove
  · exact Nat.lt_succ_self _
  · have hBefore := h.issued p s hScope n hAbove
    omega

theorem perform (h : Mirrors c d) (now : Nat) (command : Command) :
    Mirrors (c.perform now command) (d.perform now command) := by
  cases command with
  | create name =>
    refine h.bear ⟨.root, rfl, Nat.le_succ _, ?_⟩
    intro n hn
    obtain rfl := List.mem_singleton.mp hn
    exact Nat.lt_succ_self _
  | createWithTimeout name timeout =>
    simp only [Chronicle.perform, Directory.perform]
    split
    · next hShown =>
      simp only [withTimeout?, childWithTimeout?_eq_some hShown, Directory.recordIfMade]
      refine h.bear ⟨.timedRoot timeout, rfl, ?_, ?_⟩
      · show d.tokens.issued ≤ d.tokens.issued + 1 + 1
        omega
      · intro n hn
        show n < d.tokens.issued + 1 + 1
        rcases List.mem_cons.mp hn with rfl | hRoot
        · exact Nat.lt_succ_self _
        · obtain rfl : n = d.tokens.issued := List.mem_singleton.mp hRoot
          omega
    · next hNot =>
      simp only [withTimeout?, childWithTimeout?_eq_none hNot, Directory.recordIfMade]
      exact h
  | derive name parent =>
    refine h.bearFrom (f := fun s => s.child d.tokens) ?_
    intro p s hBefore hScope
    exact ⟨.child hBefore hScope, rfl, Nat.le_succ _, h.child_lineage hScope⟩
  | deriveWithTimeout name parent timeout =>
    simp only [Chronicle.perform, Directory.perform]
    split
    · next hShown =>
      simp only [childWithTimeout?_eq_some hShown, Directory.recordIfMade]
      refine h.bearFrom (f := fun s => s.childUntil (now + timeout) d.tokens) ?_
      intro p s hBefore hScope
      refine ⟨?_, rfl, Nat.le_succ _, h.child_lineage hScope⟩
      have hFormed : Formed d.scopeAt? d.named.length d.tokens.issued now
          (.timedChild p timeout) _ := .timedChild hBefore hScope timeout
      have hDeadline : (s.childUntil (now + timeout) d.tokens).1.deadline =
          Clock.earlier s.deadline (some (now + timeout)) := by
        unfold childUntil
        cases s.deadline <;> rfl
      rw [← hDeadline] at hFormed
      exact hFormed
    · next hNot =>
      simp only [childWithTimeout?_eq_none hNot, Directory.recordIfMade]
      split <;> exact h
  | shareToken name source =>
    refine h.bearFrom (f := fun s => (ofToken s.token, d.tokens)) ?_
    intro p s hBefore hScope
    exact ⟨.shared hBefore hScope, rfl, Nat.le_refl _, h.issued p s hScope⟩
  | cancel name =>
    simp only [Chronicle.perform, Directory.perform]
    cases hLatest : c.latest? name with
    | none =>
      rw [h.find?_eq_none hLatest]
      exact h
    | some k =>
      obtain ⟨s, hFind, hScope⟩ := h.find?_eq_some hLatest
      rw [hFind]
      exact h.cancel hScope

theorem empty : Mirrors .empty .empty :=
  ⟨rfl, nofun, nofun, nofun, fun _ => ⟨nofun, nofun⟩⟩

theorem ordered (h : Mirrors c d) : Ordered c.births := by
  intro i b hBirth
  obtain ⟨s, hScope⟩ := h.exists_scope hBirth
  obtain ⟨base, hFormed, -⟩ := h.formed i b s hBirth hScope
  generalize b.origin = origin at hFormed ⊢
  cases hFormed with
  | root | timedRoot => exact ⟨nofun, nofun⟩
  | child hBefore | timedChild hBefore =>
    exact ⟨fun p hp => Option.some.inj hp ▸ hBefore, nofun⟩
  | shared hBefore => exact ⟨nofun, fun p hp => Option.some.inj hp ▸ hBefore⟩

/-! ## Deadlines -/

/-- Either nothing limits a scope and it has no deadline, or its deadline is the first limit. -/
theorem first_limit (h : Mirrors c d) (hScope : d.scopeAt? i = some s) :
    (s.deadline = none ∧ ∀ t, ¬ Limits c.births i t) ∨
      ∃ t, s.deadline = some t ∧ IsLeast {t | Limits c.births i t} t := by
  induction i using Nat.strongRecOn generalizing s with
  | ind i ih =>
    obtain ⟨b, hBirth⟩ := h.exists_birth hScope
    obtain ⟨base, hFormed, -⟩ := h.formed i b s hBirth hScope
    have hLimits := fun t => limits_iff (t := t) hBirth
    generalize hOrigin : b.origin = origin at hFormed hLimits
    cases hFormed with
    | root =>
      refine .inl ⟨rfl, fun t hLimit => ?_⟩
      rcases (hLimits t).mp hLimit with ⟨_, hTimeout, -⟩ | ⟨_, hParent, -⟩
      · cases hTimeout
      · cases hParent
    | timedRoot timeout =>
      refine .inr ⟨_, rfl, (hLimits _).mpr (.inl ⟨timeout, rfl, rfl⟩), ?_⟩
      intro t hLimit
      rcases (hLimits t).mp hLimit with ⟨_, hTimeout, rfl⟩ | ⟨_, hParent, -⟩
      · obtain rfl := Option.some.inj hTimeout
        exact Nat.le_refl _
      · cases hParent
    | @child p parent hBefore hParent =>
      have hSame : ∀ t, Limits c.births i t ↔ Limits c.births p t := by
        intro t
        rw [hLimits t]
        simp [Origin.timeout?, Origin.parent?]
      have hInherited := ih p hBefore hParent
      simp only [hSame]
      exact hInherited
    | @timedChild p parent hBefore hParent timeout =>
      have hEither : ∀ t, Limits c.births i t ↔
          t = b.moment + timeout ∨ Limits c.births p t := by
        intro t
        rw [hLimits t]
        simp [Origin.timeout?, Origin.parent?]
      refine .inr ?_
      simp only [hEither]
      rcases ih p hBefore hParent with ⟨hNone, hNo⟩ | ⟨t, hSome, hLeast⟩
      · refine ⟨b.moment + timeout, by rw [hNone]; rfl, .inl rfl, ?_⟩
        rintro t (rfl | hLimit)
        · exact Nat.le_refl _
        · exact absurd hLimit (hNo t)
      · refine ⟨min t (b.moment + timeout), by rw [hSome]; rfl, ?_, ?_⟩
        · rcases Nat.le_total t (b.moment + timeout) with hSooner | hLater
          · rw [Nat.min_eq_left hSooner]
            exact .inr hLeast.1
          · rw [Nat.min_eq_right hLater]
            exact .inl rfl
        · rintro t' (rfl | hLimit)
          · exact Nat.min_le_right _ _
          · exact Nat.le_trans (Nat.min_le_left _ _) (hLeast.2 hLimit)
    | shared hBefore hSource =>
      refine .inl ⟨rfl, fun t hLimit => ?_⟩
      rcases (hLimits t).mp hLimit with ⟨_, hTimeout, -⟩ | ⟨_, hParent, -⟩
      · cases hTimeout
      · cases hParent

theorem deadline_iff (h : Mirrors c d) (hScope : d.scopeAt? i = some s) (t : Nat) :
    s.deadline = some t ↔ IsLeast {t | Limits c.births i t} t := by
  rcases h.first_limit hScope with ⟨hNone, hNo⟩ | ⟨t', hSome, hLeast⟩
  · rw [hNone]
    exact ⟨nofun, fun hLeast => absurd hLeast.1 (hNo t)⟩
  · rw [hSome, Option.some.injEq]
    constructor
    · rintro rfl
      exact hLeast
    · intro hOther
      exact hLeast.unique hOther

theorem deadline_eq_none (h : Mirrors c d) (hScope : d.scopeAt? i = some s) :
    s.deadline = none ↔ ∀ t, ¬ Limits c.births i t := by
  rcases h.first_limit hScope with ⟨hNone, hNo⟩ | ⟨t, hSome, hLeast⟩
  · exact ⟨fun _ => hNo, fun _ => hNone⟩
  · rw [hSome]
    exact ⟨nofun, fun hNo => absurd hLeast.1 (hNo t)⟩

/-- A child ends no later than its parent. -/
theorem deadline_le (h : Mirrors c d) {parent : Scope} (hParent : parentOf? c.births i = some p)
    (hScope : d.scopeAt? i = some s) (hAbove : d.scopeAt? p = some parent)
    (hDeadline : parent.deadline = some t) : ∃ t', s.deadline = some t' ∧ t' ≤ t := by
  obtain ⟨b, hBirth⟩ := h.exists_birth hScope
  rw [parentOf?, hBirth] at hParent
  have hLeast := (h.deadline_iff hAbove t).mp hDeadline
  have hLimit : Limits c.births i t := .inherited hBirth hParent hLeast.1
  rcases h.first_limit hScope with ⟨-, hNo⟩ | ⟨t', hSome, hFirst⟩
  · exact absurd hLimit (hNo t)
  · exact ⟨t', hSome, hFirst.2 hLimit⟩

/-! ## Cancellations -/

theorem exists_holds (h : Mirrors c d) (hScope : d.scopeAt? i = some s) :
    ∃ n own b, Holds c.births i n ∧ d.scopeAt? n = some own ∧ own.token = s.token ∧
      c.births[n]? = some b ∧ b.origin.source? = none := by
  induction i using Nat.strongRecOn generalizing s with
  | ind i ih =>
    obtain ⟨b, hBirth⟩ := h.exists_birth hScope
    obtain ⟨base, hFormed, -⟩ := h.formed i b s hBirth hScope
    generalize hOrigin : b.origin = origin at hFormed
    cases hFormed with
    | root | timedRoot | child | timedChild =>
      have hOwn : b.origin.source? = none := by rw [hOrigin]; rfl
      exact ⟨i, _, b, .own hBirth hOwn, hScope, rfl, hBirth, hOwn⟩
    | @shared p source hBefore hSource =>
      obtain ⟨n, own, b', hHolds, hOwn, hToken, hMade⟩ := ih p hBefore hSource
      have hFrom : b.origin.source? = some p := by rw [hOrigin]; rfl
      exact ⟨n, own, b', .shared hBirth hFrom hHolds, hOwn, hToken, hMade⟩

/-- A scope with a token of its own has a number for it that no earlier scope knows. -/
theorem number_fresh (h : Mirrors c d) (hBirth : c.births[i]? = some b)
    (hOwn : b.origin.source? = none) (hScope : d.scopeAt? i = some s) {j : Nat} {s' : Scope}
    (hBefore : j < i) (hScope' : d.scopeAt? j = some s') :
    ∀ n ∈ s'.token.lineage, n < s.token.number := by
  intro n hn
  obtain ⟨base, hFormed, hFresh⟩ := h.formed i b s hBirth hScope
  have hLess := hFresh j s' hBefore hScope' n hn
  generalize b.origin = origin at hFormed hOwn
  cases hFormed with
  | root | child | timedChild => exact hLess
  | timedRoot => exact Nat.lt_succ_of_lt hLess
  | shared => cases hOwn

/-- The lineage of a token lists exactly the tokens that are above it. -/
theorem number_mem_lineage (h : Mirrors c d) {own : Scope} (hBirth : c.births[k]? = some b)
    (hOwn : b.origin.source? = none) (hOwnScope : d.scopeAt? k = some own)
    (hScope : d.scopeAt? i = some s) :
    own.token.number ∈ s.token.lineage ↔ Under c.births i k := by
  induction i using Nat.strongRecOn generalizing s with
  | ind i ih =>
    rcases Nat.lt_trichotomy i k with hBelow | rfl | hAbove
    · -- The token is younger than this scope.
      constructor
      · intro hMem
        have hFresh := h.number_fresh hBirth hOwn hOwnScope hBelow hScope _ hMem
        exact absurd hFresh (Nat.lt_irrefl _)
      · intro hUnder
        have hLe := hUnder.le h.ordered
        omega
    · obtain rfl := Option.some.inj (hScope.symm.trans hOwnScope)
      exact ⟨fun _ => .own (.own hBirth hOwn), fun _ => List.mem_cons_self⟩
    · obtain ⟨b', hBirth'⟩ := h.exists_birth hScope
      obtain ⟨base, hFormed, hFresh⟩ := h.formed i b' s hBirth' hScope
      have hOld : own.token.number < base :=
        hFresh k own hAbove hOwnScope _ List.mem_cons_self
      have hOther : k ≠ i := by omega
      rw [under_iff hBirth']
      generalize b'.origin = origin at hFormed
      cases hFormed with
      | root =>
        have hNot : own.token.number ≠ base := by omega
        simp [Token.lineage, Origin.parent?, Origin.source?, hOther, hNot]
      | timedRoot =>
        have hNot : own.token.number ≠ base := by omega
        have hNot' : own.token.number ≠ base + 1 := by omega
        simp [Token.lineage, Origin.parent?, Origin.source?, hOther, hNot, hNot']
      | @child p parent hBefore hParent =>
        have hNot : own.token.number ≠ base := by omega
        have hRest := ih p hBefore hParent
        rw [Token.lineage, List.mem_cons]
        simp [Origin.parent?, Origin.source?, hOther, hNot, hRest]
      | @timedChild p parent hBefore hParent =>
        have hNot : own.token.number ≠ base := by omega
        have hRest := ih p hBefore hParent
        rw [Token.lineage, List.mem_cons]
        simp [Origin.parent?, Origin.source?, hOther, hNot, hRest]
      | @shared p source hBefore hSource =>
        have hRest := ih p hBefore hSource
        simp [ofToken, Origin.parent?, Origin.source?, hRest]

theorem isCancelled_iff (h : Mirrors c d) (hScope : d.scopeAt? i = some s) :
    d.tokens.isCancelled s.token = true ↔ ∃ k ∈ c.cancelled, Reaches c.births k i := by
  simp only [Tokens.isCancelled, List.any_eq_true, List.contains_iff_mem]
  constructor
  · rintro ⟨n, hLineage, hCancelled⟩
    obtain ⟨k, hk, asked, hAsked, rfl⟩ := (h.cancelled n).mp hCancelled
    obtain ⟨m, own, b, hHolds, hOwn, hToken, hBirth, hSource⟩ := h.exists_holds hAsked
    rw [← hToken] at hLineage
    exact ⟨k, hk, m, hHolds, (h.number_mem_lineage hBirth hSource hOwn hScope).mp hLineage⟩
  · rintro ⟨k, hk, m, hHolds, hUnder⟩
    obtain ⟨asked, hAsked⟩ : ∃ asked, d.scopeAt? k = some asked :=
      h.exists_scope (List.getElem?_eq_getElem (h.born k hk))
    obtain ⟨m', own, b, hHolds', hOwn, hToken, hBirth, hSource⟩ := h.exists_holds hAsked
    obtain rfl := hHolds'.unique hHolds
    refine ⟨own.token.number, (h.number_mem_lineage hBirth hSource hOwn hScope).mpr hUnder, ?_⟩
    exact (h.cancelled _).mpr ⟨k, hk, asked, hAsked, by rw [hToken]⟩

theorem cause?_eq_cancelled (h : Mirrors c d) (hScope : d.scopeAt? i = some s) (now : Nat) :
    s.cause? d.tokens now = some .cancelled ↔ ∃ k ∈ c.cancelled, Reaches c.births k i := by
  rw [← h.isCancelled_iff hScope, cause?]
  cases d.tokens.isCancelled s.token <;> cases passed now s.deadline <;> simp

/-- A cancellation that does not reach a scope leaves it as it was. -/
theorem cause?_cancel (h : Mirrors c d) (hScope : d.scopeAt? i = some s) {other : Scope}
    (hOther : d.scopeAt? k = some other) (hNot : ¬ Reaches c.births k i) (now : Nat) :
    s.cause? (other.cancel d.tokens) now = s.cause? d.tokens now := by
  have hAfter := (h.cancel hOther).isCancelled_iff hScope
  have hBefore := h.isCancelled_iff hScope
  have hSame : (other.cancel d.tokens).isCancelled s.token = d.tokens.isCancelled s.token := by
    rw [Bool.eq_iff_iff, hBefore]
    refine hAfter.trans ?_
    constructor
    · rintro ⟨k', hk, hReaches⟩
      rcases List.mem_cons.mp hk with rfl | hOld
      · exact absurd hReaches hNot
      · exact ⟨k', hOld, hReaches⟩
    · rintro ⟨k', hk, hReaches⟩
      exact ⟨k', List.mem_cons_of_mem k hk, hReaches⟩
  rw [cause?, cause?, hSame]

end Mirrors

end Gatehouse.Scope
