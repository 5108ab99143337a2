import Gatehouse.Proofs.Readiness.Signals
import Mathlib.Data.List.Nodup
import Mathlib.Data.String.Basic

/-!
# What a snapshot shows

A snapshot is read off the components and the two signals, and can be told from the calls alone.
The components are those that were added, each once and in the order of their names. One call sets
at most one moment of one component, and only where none is set yet, so every moment is that of the
first call which could set it.

* `Component.told`: what a call makes of a component that is registered.
* `Component.Agrees`: the flag of a component says whether it has a moment.
* `Coordinator.mem_components_next`: the components after a call, new ones included.
* `Recorded`: what the calls say of a component; `recorded_after`, with its flag and its moment.
* `snapshots_exact`: what a snapshot shows, and what no later call takes back.
-/

namespace Gatehouse.Readiness

open Config (TrafficMode)

/-! ## What a call says of a component -/

/-- The moment at which a call marks a component. -/
def Call.marks? (name : String) : Call → Option Nat
  | (.mark marked, moment) => if marked = name then some moment else none
  | (.add _, _) => none
  | (.notify, _) => none

/-- The moment at which a component is marked for the first time. -/
def firstMark (name : String) (calls : List Call) : Option Nat := calls.findSome? (Call.marks? name)

/-- A registered component after a call: the first mark makes it ready, and sets the moment. -/
def Component.told (x : Component) (call : Call) : Component :=
  match x.ready, call.marks? x.name with
  | false, some moment => { x with ready := true, readyAt := some moment }
  | _, _ => x

/-- A component has a moment exactly if it is ready. -/
def Component.Agrees (x : Component) : Prop := x.ready = x.readyAt.isSome

/-- A component after many calls, of which the first mark counts. -/
def Component.since (x : Component) (later : List Call) : Component :=
  let readyAt := x.readyAt.or (firstMark x.name later)
  { x with ready := readyAt.isSome, readyAt := readyAt }

variable {calls : List Call} {call : Call} {x y : Component} {name : String} {moment : Nat}

theorem firstMark_concat :
    firstMark name (calls ++ [call]) = (firstMark name calls).or (call.marks? name) := by
  simp [firstMark, List.findSome?_append]

theorem mem_of_firstMark (h : firstMark name calls = some moment) :
    (.mark name, moment) ∈ calls := by
  obtain ⟨⟨command, at'⟩, hMem, hMarks⟩ := List.exists_of_findSome?_eq_some h
  cases command with
  | mark marked =>
    obtain ⟨rfl, rfl⟩ : marked = name ∧ at' = moment := by simpa [Call.marks?] using hMarks
    exact hMem
  | add _ => cases hMarks
  | notify => cases hMarks

namespace Component

theorem told_of_not_mark (h : call.marks? x.name = none) : x.told call = x := by
  unfold told
  rw [h]
  cases x.ready <;> rfl

theorem told_of_ready (h : x.ready = true) : x.told call = x := by
  unfold told
  rw [h]

theorem told_of_ne (h : name ≠ x.name) : x.told (.mark name, moment) = x :=
  told_of_not_mark (if_neg h)

theorem told_mark (h : x.ready = false) :
    x.told (.mark x.name, moment) = { x with ready := true, readyAt := some moment } := by
  have hMarks : Call.marks? x.name (.mark x.name, moment) = some moment := if_pos rfl
  unfold told
  rw [h, hMarks]

theorem name_told (x : Component) (call : Call) : (x.told call).name = x.name := by
  unfold told
  split <;> rfl

theorem startedAt_told (x : Component) (call : Call) : (x.told call).startedAt = x.startedAt := by
  unfold told
  split <;> rfl

theorem readyAt_told (h : x.Agrees) :
    (x.told call).readyAt = x.readyAt.or (call.marks? x.name) := by
  cases hReady : x.readyAt with
  | none =>
    have hNot : x.ready = false := by rw [h, hReady, Option.isSome_none]
    unfold told
    rw [hNot]
    cases hMarks : call.marks? x.name <;> simp [hReady]
  | some moment =>
    have hIs : x.ready = true := by rw [h, hReady, Option.isSome_some]
    rw [told_of_ready hIs, hReady, Option.some_or]

theorem agrees_told (h : x.Agrees) (call : Call) : (x.told call).Agrees := by
  unfold told
  split
  · rfl
  · exact h

theorem since_nil (h : x.Agrees) : x.since [] = x := by
  have hFlag : x.readyAt.isSome = x.ready := h.symm
  simp only [since, firstMark, List.findSome?_nil, Option.or_none, hFlag]

theorem since_cons (h : x.Agrees) (call : Call) (later : List Call) :
    x.since (call :: later) = (x.told call).since later := by
  have hFirst : firstMark x.name (call :: later) =
      (call.marks? x.name).or (firstMark x.name later) := by
    rw [firstMark, List.findSome?_cons]
    cases call.marks? x.name <;> rfl
  simp only [since, name_told, startedAt_told, readyAt_told h, hFirst, Option.or_assoc]

end Component

namespace Coordinator

variable {c : Coordinator}

/-! ## The order of the components -/

/-- The components stand in the order of their names, no two of which are the same. -/
def Sorted (components : List Component) : Prop := components.Pairwise (·.name < ·.name)

theorem Sorted.insert {components : List Component} (h : Sorted components)
    (hNew : ∀ y ∈ components, y.name ≠ x.name) : Sorted (insertSorted x components) := by
  induction components with
  | nil => exact List.pairwise_singleton _ x
  | cons first rest ih =>
    obtain ⟨hFirst, hRest⟩ := List.pairwise_cons.mp h
    rw [insertSorted]
    split
    · next hBefore =>
      refine List.pairwise_cons.mpr ⟨fun y hMem => ?_, h⟩
      rcases List.mem_cons.mp hMem with rfl | hMem
      · exact hBefore
      · exact lt_trans hBefore (hFirst y hMem)
    · next hNotBefore =>
      have hAfter : first.name < x.name :=
        lt_of_le_of_ne (not_lt.mp hNotBefore) (hNew first List.mem_cons_self)
      refine List.pairwise_cons.mpr
        ⟨fun y hMem => ?_, ih hRest fun y hMem => hNew y (List.mem_cons_of_mem _ hMem)⟩
      rcases List.mem_cons.mp ((insertSorted_perm x rest).mem_iff.mp hMem) with rfl | hMem
      · exact hAfter
      · exact hFirst y hMem

theorem Sorted.setReady {components : List Component} (h : Sorted components) (name : String)
    (moment : Nat) : Sorted (setReady name moment components) := by
  unfold Sorted at h ⊢
  rw [← List.pairwise_map (f := Component.name) (R := (· < ·))] at h ⊢
  rw [setReady_names]
  exact h

theorem Sorted.eq_of_name {components : List Component} (h : Sorted components)
    (hx : x ∈ components) (hy : y ∈ components) (hName : x.name = y.name) : x = y := by
  have hNames : (components.map Component.name).Nodup :=
    List.pairwise_map.mpr (h.imp fun hBefore => hBefore.ne)
  exact List.inj_on_of_nodup_map hNames hx hy hName

theorem sorted_next (h : Sorted c.components) (call : Call) : Sorted (c.next call).components := by
  have hChange := c.change call
  generalize c.next call = c' at hChange ⊢
  cases hChange with
  | emptyName | again | unknown | remarked | unmoved | notified => exact h
  | added moment hName hNew =>
    exact h.insert fun y hMem => by simpa using List.find?_eq_none.mp hNew y hMem
  | marked moment hKnown hReady =>
    rw [fireIfAllReady_components]
    exact h.setReady _ moment

theorem sorted_after (mode : TrafficMode) (calls : List Call) :
    Sorted ((create mode).after calls).components := by
  induction calls using List.reverseRecOn with
  | nil => exact List.Pairwise.nil
  | append_singleton calls call ih =>
    rw [after_concat]
    exact sorted_next ih call

theorem component?_eq_some_iff (h : Sorted c.components) :
    c.component? name = some x ↔ x ∈ c.components ∧ x.name = name := by
  refine ⟨component?_cases, ?_⟩
  rintro ⟨hMem, rfl⟩
  cases hFound : c.component? x.name with
  | none => simpa using List.find?_eq_none.mp hFound x hMem
  | some y =>
    obtain ⟨hFoundMem, hName⟩ := component?_cases hFound
    rw [h.eq_of_name hFoundMem hMem hName]

/-! ## One call -/

theorem exists_told_iff (h : ∀ y ∈ c.components, y.told call = y) :
    (∃ y ∈ c.components, x = y.told call) ↔ x ∈ c.components := by
  constructor
  · rintro ⟨y, hMem, rfl⟩
    rw [h y hMem]
    exact hMem
  · exact fun hMem => ⟨x, hMem, (h x hMem).symm⟩

/-- The components after a call are those before it, told of the call, and the one that it adds. -/
theorem mem_components_next (h : Sorted c.components) :
    x ∈ (c.next call).components ↔
      (∃ y ∈ c.components, x = y.told call) ∨
        call = (.add x.name, x.startedAt) ∧ x.name ≠ "" ∧ (x.ready = false ∧ x.readyAt = none) ∧
          c.component? x.name = none := by
  have hChange := c.change call
  generalize c.next call = c' at hChange ⊢
  cases hChange with
  | emptyName moment =>
    rw [exists_told_iff fun y _ => Component.told_of_not_mark rfl, iff_self_or]
    rintro ⟨hCall, hName, -⟩
    simp_all
  | again moment hKnown =>
    rw [exists_told_iff fun y _ => Component.told_of_not_mark rfl, iff_self_or]
    rintro ⟨hCall, -, -, hNew⟩
    simp_all
  | added moment hName hNew =>
    rw [exists_told_iff fun y _ => Component.told_of_not_mark rfl,
      (insertSorted_perm _ _).mem_iff, List.mem_cons, or_comm]
    refine or_congr_right ⟨?_, ?_⟩
    · rintro rfl
      exact ⟨rfl, hName, ⟨rfl, rfl⟩, hNew⟩
    · rintro ⟨hCall, -, hNone, -⟩
      obtain ⟨name, ready, startedAt, readyAt⟩ := x
      simp_all
  | @unknown name moment hNone =>
    rw [exists_told_iff fun y hMem => Component.told_of_ne fun hSame => ?_]
    · simp
    · simpa [hSame] using List.find?_eq_none.mp hNone y hMem
  | @remarked name z moment hKnown hReady =>
    obtain ⟨hMem, rfl⟩ := component?_cases hKnown
    rw [exists_told_iff fun y hMemY => ?_]
    · simp
    · by_cases hSame : z.name = y.name
      · exact Component.told_of_ready (h.eq_of_name hMem hMemY hSame ▸ hReady)
      · exact Component.told_of_ne hSame
  | unmoved | notified =>
    rw [exists_told_iff fun y _ => Component.told_of_not_mark rfl]
    simp
  | @marked name z moment hKnown hReady =>
    obtain ⟨hMem, rfl⟩ := component?_cases hKnown
    -- The mark reaches by its name what `told` finds by its name: no two names are the same.
    have hTold : ∀ y ∈ c.components, y.told (.mark z.name, moment) =
        if y.name = z.name then { y with ready := true, readyAt := some moment } else y := by
      intro y hMemY
      by_cases hSame : y.name = z.name
      · obtain rfl := h.eq_of_name hMemY hMem hSame
        rw [if_pos rfl, Component.told_mark hReady]
      · rw [if_neg hSame, Component.told_of_ne (Ne.symm hSame)]
    rw [fireIfAllReady_components, mem_setReady]
    constructor
    · rintro ⟨y, hMemY, rfl⟩
      exact .inl ⟨y, hMemY, (hTold y hMemY).symm⟩
    · rintro (⟨y, hMemY, rfl⟩ | ⟨hCall, -⟩)
      · exact ⟨y, hMemY, hTold y hMemY⟩
      · cases hCall

/-! ## Many calls -/

/-- No component is removed, and no moment that is set changes. -/
theorem since_after (h : Sorted c.components) (hMem : x ∈ c.components) (hAgrees : x.Agrees)
    (later : List Call) : x.since later ∈ (c.after later).components := by
  induction later generalizing c x with
  | nil =>
    rw [Component.since_nil hAgrees]
    exact hMem
  | cons call later ih =>
    rw [Component.since_cons hAgrees]
    exact ih (sorted_next h call) ((mem_components_next h).mpr (.inl ⟨x, hMem, rfl⟩))
      (Component.agrees_told hAgrees call)

end Coordinator

/-- What the calls say of a component: one of them registered it, at the moment it started, and it
is ready since the first mark after that. -/
def Recorded (calls : List Call) (x : Component) : Prop :=
  ∃ before later, calls = before ++ (.add x.name, x.startedAt) :: later ∧
    (∀ earlier, (.add x.name, earlier) ∉ before) ∧ x.readyAt = firstMark x.name later

theorem Recorded.told (h : Recorded calls x) (hAgrees : x.Agrees) (call : Call) :
    Recorded (calls ++ [call]) (x.told call) := by
  obtain ⟨before, later, rfl, hFirst, hReady⟩ := h
  rw [Recorded, Component.name_told, Component.startedAt_told, Component.readyAt_told hAgrees]
  refine ⟨before, later ++ [call], by simp, hFirst, ?_⟩
  rw [firstMark_concat, hReady]

/-- Who is ready is so later than it was registered. -/
theorem Recorded.startedAt_lt (h : Recorded calls x) (hTimes : calls.Pairwise (·.2 < ·.2))
    (hReady : x.readyAt = some moment) : x.startedAt < moment := by
  obtain ⟨before, later, rfl, -, hFirst⟩ := h
  rw [hFirst] at hReady
  have hLater := (List.pairwise_cons.mp (List.pairwise_append.mp hTimes).2.1).1
  exact hLater _ (mem_of_firstMark hReady)

namespace Coordinator

variable {c : Coordinator}

theorem recorded_after (mode : TrafficMode) (calls : List Call) :
    ∀ x ∈ ((create mode).after calls).components, Recorded calls x ∧ x.Agrees := by
  induction calls using List.reverseRecOn with
  | nil => exact nofun
  | append_singleton calls call ih =>
    intro x hMem
    rw [after_concat, mem_components_next (sorted_after mode calls)] at hMem
    rcases hMem with ⟨y, hMem, rfl⟩ | ⟨rfl, hName, ⟨hNot, hNone⟩, hNew⟩
    · obtain ⟨hRecorded, hAgrees⟩ := ih y hMem
      exact ⟨hRecorded.told hAgrees call, Component.agrees_told hAgrees call⟩
    · have hFirst : ¬ Registered calls x.name := by
        rw [(books_after mode calls).component_iff, hNew]
        nofun
      exact ⟨⟨calls, [], rfl, fun earlier hMem => hFirst ⟨hName, earlier, hMem⟩, hNone⟩,
        by rw [Component.Agrees, hNot, hNone, Option.isSome_none]⟩

/-! ## The signals -/

/-- A notification of traffic follows the all-ready signal. -/
def Notified (c : Coordinator) : Prop :=
  ∀ notified, c.trafficReadyAt = some notified →
    ∃ fired, c.allReadyAt = some fired ∧ fired ≤ notified

theorem notified_next (h : c.Notified) (call : Call)
    (hTimes : ∀ fired, c.allReadyAt = some fired → fired ≤ call.2) : (c.next call).Notified := by
  have hChange := c.change call
  generalize c.next call = c' at hChange ⊢
  cases hChange with
  | emptyName | again | unknown | remarked | unmoved | added => exact h
  | notified moment hMode hReady hFirst =>
    rintro _ ⟨⟩
    obtain ⟨fired, hFired⟩ := Option.isSome_iff_exists.mp hReady
    exact ⟨fired, hFired, hTimes fired hFired⟩
  | marked moment hKnown hReady =>
    rw [fireIfAllReady_eq]
    split
    · next hFires =>
      have hBefore : c.allReadyAt = none := by
        simpa [isReady] using (Bool.and_eq_true_iff.mp hFires).2
      -- Traffic cannot have been notified, or the signal would have fired before.
      have hTraffic : c.trafficReadyAt = none := by
        refine Option.eq_none_iff_forall_ne_some.mpr fun notified hNotified => ?_
        obtain ⟨fired, hFired, -⟩ := h notified hNotified
        rw [hBefore] at hFired
        cases hFired
      intro notified hNotified
      refine ⟨moment, rfl, ?_⟩
      cases hMode : c.mode <;> simp_all
    · exact h

theorem trafficReadyAt_next_of_some (hTraffic : c.trafficReadyAt = some moment) (call : Call) :
    (c.next call).trafficReadyAt = some moment := by
  have hChange := c.change call
  generalize c.next call = c' at hChange ⊢
  cases hChange with
  | emptyName | again | unknown | remarked | unmoved | added => exact hTraffic
  | notified _ _ _ hFirst =>
    rw [hFirst] at hTraffic
    cases hTraffic
  | marked at' hKnown hReady =>
    rw [fireIfAllReady_eq]
    split
    · cases hMode : c.mode <;> simp [hTraffic]
    · exact hTraffic

theorem trafficReadyAt_after_of_some (hTraffic : c.trafficReadyAt = some moment)
    (later : List Call) : (c.after later).trafficReadyAt = some moment := by
  induction later generalizing c with
  | nil => exact hTraffic
  | cons call later ih => exact ih (trafficReadyAt_next_of_some hTraffic call)

/-- The mark that fired the all-ready signal. -/
theorem exists_mark_of_fired (mode : TrafficMode) {calls : List Call} {fired : Nat}
    (hFired : ((create mode).after calls).allReadyAt = some fired) :
    ∃ before name later, calls = before ++ (.mark name, fired) :: later ∧
      ((create mode).after before).isReady = false ∧
      ((create mode).after (before ++ [(.mark name, fired)])).isReady = true := by
  have hReady : ((create mode).after calls).isReady = true := by
    rw [isReady, hFired]
    rfl
  obtain ⟨before, name, moment, later, hCalls, hMoment, hExact⟩ := exists_mark mode calls hReady
  obtain rfl : fired = moment := Option.some.inj (hFired.symm.trans hMoment)
  refine ⟨before, name, later, hCalls, ?_, (hExact _ ?_).mpr (by simp)⟩
  · have hNotYet := hExact before (hCalls ▸ List.prefix_append _ _)
    simpa using hNotYet
  · exact ⟨later, by rw [hCalls, List.append_assoc, List.singleton_append]⟩

theorem notified_after (mode : TrafficMode) {calls : List Call}
    (hTimes : calls.Pairwise (·.2 < ·.2)) : ((create mode).after calls).Notified := by
  induction calls using List.reverseRecOn with
  | nil => exact nofun
  | append_singleton calls call ih =>
    obtain ⟨hBefore, -, hLast⟩ := List.pairwise_append.mp hTimes
    rw [after_concat]
    refine notified_next (ih hBefore) call fun fired hFired => ?_
    -- It was fired by a call before this one.
    obtain ⟨before, name, later, hCalls, -⟩ := exists_mark_of_fired mode hFired
    refine (hLast (.mark name, fired) ?_ call List.mem_cons_self).le
    rw [hCalls]
    exact List.mem_append_right _ List.mem_cons_self

/-! ## The moment of a snapshot -/

theorem le_foldr_later {moments : List (Option Nat)} (h : some moment ∈ moments) :
    ∃ last, moments.foldr later none = some last ∧ moment ≤ last := by
  induction moments with
  | nil => cases h
  | cons first rest ih =>
    rw [List.foldr_cons]
    rcases List.mem_cons.mp h with rfl | hRest
    · cases rest.foldr later none with
      | none => exact ⟨moment, rfl, Nat.le_refl _⟩
      | some last => exact ⟨max moment last, rfl, Nat.le_max_left _ _⟩
    · obtain ⟨last, hLast, hLe⟩ := ih hRest
      rw [hLast]
      cases first with
      | none => exact ⟨last, rfl, hLe⟩
      | some other => exact ⟨max other last, rfl, Nat.le_trans hLe (Nat.le_max_right _ _)⟩

theorem mem_of_foldr_later {moments : List (Option Nat)} {last : Nat}
    (h : moments.foldr later none = some last) : some last ∈ moments := by
  induction moments generalizing last with
  | nil => cases h
  | cons first rest ih =>
    rw [List.foldr_cons] at h
    cases hRest : rest.foldr later none with
    | none =>
      rw [hRest] at h
      cases first with
      | none => cases h
      | some other => exact h ▸ List.mem_cons_self
    | some other =>
      rw [hRest] at h
      have hOther := List.mem_cons_of_mem first (ih hRest)
      cases first with
      | none => exact h ▸ hOther
      | some moment =>
        obtain rfl : max moment other = last := Option.some.inj h
        rcases Nat.le_total moment other with hLe | hLe
        · rw [Nat.max_eq_right hLe]
          exact hOther
        · rw [Nat.max_eq_left hLe]
          exact List.mem_cons_self

/-- The moment of a snapshot is the last one of those at which a component became ready. -/
theorem status_readyAt_eq_some (c : Coordinator) {last : Nat} :
    c.status.readyAt = some last ↔ (∃ x ∈ c.components, x.readyAt = some last) ∧
      ∀ x ∈ c.components, ∀ moment, x.readyAt = some moment → moment ≤ last := by
  constructor
  · intro h
    refine ⟨List.mem_map.mp (mem_of_foldr_later h), fun x hMem moment hReady => ?_⟩
    obtain ⟨last', hLast, hLe⟩ := le_foldr_later (List.mem_map.mpr ⟨x, hMem, hReady⟩)
    obtain rfl : last = last' := Option.some.inj (h.symm.trans hLast)
    exact hLe
  · rintro ⟨hMem, hAll⟩
    obtain ⟨last', hLast, hLe⟩ := le_foldr_later (List.mem_map.mpr hMem)
    obtain ⟨x, hMemX, hReady⟩ := List.mem_map.mp (mem_of_foldr_later hLast)
    obtain rfl : last' = last := Nat.le_antisymm (hAll x hMemX last' hReady) hLe
    exact hLast

theorem add_ok_iff (c : Coordinator) (name : String) (moment : Nat) :
    (c.add name moment).1 = .ok () ↔ name ≠ "" := by
  unfold add
  split
  · next hEmpty => simp [hEmpty]
  · next hName =>
    split <;> simp [hName]

end Coordinator

open Coordinator

/-- What a snapshot shows after any calls whose moments increase. It has each name that was added
with success once, in ascending order, and nothing else; a component started when it was added
first, and is ready since it was marked first after that; the flag and the moment agree. The
snapshot is as late as the last of them. Traffic was notified at or after the mark that fired the
all-ready signal. A component that is asked for is the one in the snapshot. Later calls remove
nothing and change no moment. -/
theorem snapshots_exact (mode : TrafficMode) {calls : List Call}
    (hTimes : calls.Pairwise (·.2 < ·.2)) :
    let c := (create mode).after calls
    let s := c.status
    (∀ name moment, (c.perform moment (.add name)).1 = .ok () ↔ name ≠ "") ∧
    Sorted s.components ∧
    (∀ name, name ∈ s.components.map Component.name ↔ Registered calls name) ∧
    (∀ x ∈ s.components, Recorded calls x ∧ (x.ready = true ↔ MarkedReady calls x.name) ∧
      x.Agrees ∧ ∀ moment, x.readyAt = some moment → x.startedAt < moment) ∧
    (∀ last, s.readyAt = some last ↔ (∃ x ∈ s.components, x.readyAt = some last) ∧
      ∀ x ∈ s.components, ∀ moment, x.readyAt = some moment → moment ≤ last) ∧
    (∀ notified, s.trafficNotifiedAt = some notified → s.ready = true ∧
      ∃ before name fired later, calls = before ++ (.mark name, fired) :: later ∧
        ((create mode).after before).isReady = false ∧
        ((create mode).after (before ++ [(.mark name, fired)])).isReady = true ∧
        c.allReadyAt = some fired ∧ fired ≤ notified) ∧
    (∀ name x, c.component? name = some x ↔ x ∈ s.components ∧ x.name = name) ∧
    ∀ later,
      let c' := (create mode).after (calls ++ later)
      (∀ x ∈ s.components,
        { x with
          ready := (x.readyAt.or (firstMark x.name later)).isSome
          readyAt := x.readyAt.or (firstMark x.name later) } ∈ c'.status.components) ∧
      (∀ fired, c.allReadyAt = some fired → c'.allReadyAt = some fired) ∧
      (∀ notified, s.trafficNotifiedAt = some notified →
        c'.status.trafficNotifiedAt = some notified) := by
  intro c s
  have hBooks : Books calls c := books_after mode calls
  have hSorted : Sorted c.components := sorted_after mode calls
  refine ⟨add_ok_iff c, hSorted, fun name => (hBooks.registered name).symm, fun x hMem => ?_,
    fun last => status_readyAt_eq_some c, fun notified hNotified => ?_,
    fun name x => component?_eq_some_iff hSorted, fun later => ?_⟩
  · obtain ⟨hRecorded, hAgrees⟩ := recorded_after mode calls x hMem
    exact ⟨hRecorded, hBooks.marked x hMem, hAgrees, fun moment => hRecorded.startedAt_lt hTimes⟩
  · obtain ⟨fired, hFired, hLe⟩ := notified_after mode hTimes notified hNotified
    obtain ⟨before, name, later, hCalls, hNotYet, hThen⟩ := exists_mark_of_fired mode hFired
    have hReady : c.isReady = true := by
      rw [isReady, hFired]
      rfl
    exact ⟨hReady, before, name, fired, later, hCalls, hNotYet, hThen, hFired, hLe⟩
  · intro c'
    have hAfter : c' = c.after later := after_append _ calls later
    rw [hAfter]
    refine ⟨fun x hMem => since_after hSorted hMem (recorded_after mode calls x hMem).2 later,
      fun fired hFired => ?_,
      fun notified hNotified => trafficReadyAt_after_of_some hNotified later⟩
    rw [allReadyAt_after c later (by rw [isReady, hFired]; rfl), hFired]

/-- A database that is registered and marked twice, a cache that comes before it by name and after
it in time, and a queue that is late. -/
def busyCalls : List Call :=
  [(.add "database", 1), (.add "database", 2), (.add "cache", 3), (.mark "database", 4),
    (.mark "database", 5), (.mark "cache", 6), (.add "queue", 7), (.notify, 8)]

theorem snapshots_exact_busy :
    let c := (create .orchestrated).after busyCalls
    c.status = ⟨true, [⟨"cache", true, 3, some 6⟩, ⟨"database", true, 1, some 4⟩,
      ⟨"queue", false, 7, none⟩], some 6, some 8⟩ ∧
    Sorted c.status.components ∧
    (∃ fired, c.allReadyAt = some fired ∧ fired ≤ 8) ∧
    ⟨"queue", true, 7, some 9⟩ ∈
      ((create .orchestrated).after (busyCalls ++ [(.mark "queue", 9)])).status.components := by
  intro c
  have hTimes : busyCalls.Pairwise (·.2 < ·.2) := by decide
  obtain ⟨-, hSorted, -, -, -, hNotified, -, hLater⟩ := snapshots_exact .orchestrated hTimes
  obtain ⟨-, -, -, fired, -, -, -, -, hFired, hLe⟩ := hNotified 8 (by decide)
  exact ⟨by decide, hSorted, ⟨fired, hFired, hLe⟩,
    (hLater [(.mark "queue", 9)]).1 ⟨"queue", false, 7, none⟩ (by decide)⟩

end Gatehouse.Readiness
