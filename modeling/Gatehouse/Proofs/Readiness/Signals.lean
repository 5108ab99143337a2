import Gatehouse.Readiness.Coordinator
import Mathlib.Data.List.Induction

/-!
# When the signals fire

What a coordinator answers depends on the calls that were made only: a name is registered by the
first call that adds it, and ready by the first later call that marks it. The coordinator looks at
its components when one of them becomes ready and at no other call, so a component that is
registered after the signal does not take it back, and one that is registered before delays it.

* `Registered`, `MarkedReady`, `AllMarked`: what the calls say of the components.
* `Coordinator.Change`: the inversion of a call.
* `Coordinator.Books`: the components are those that the calls speak of; `books_after`.
* `signals_exact`: when each signal fires, at which moment, and what leaves the coordinator alone.
-/

namespace Gatehouse.Readiness

open Config (TrafficMode)

/-- A call on a coordinator, and the moment at which it is made. -/
abbrev Call := Command × Nat

/-! ## What the calls say -/

def Registered (calls : List Call) (name : String) : Prop :=
  name ≠ "" ∧ ∃ moment, (.add name, moment) ∈ calls

/-- A component was marked after it was registered. -/
def MarkedReady (calls : List Call) (name : String) : Prop :=
  ∃ before moment later, calls = before ++ (.mark name, moment) :: later ∧ Registered before name

/-- There are components, and each of them was marked. -/
def AllMarked (calls : List Call) : Prop :=
  (∃ name, Registered calls name) ∧ ∀ name, Registered calls name → MarkedReady calls name

variable {calls : List Call} {call : Call} {name : String} {moment : Nat}

theorem concat_eq_append_cons {before later : List Call} {call' : Call} :
    calls ++ [call] = before ++ call' :: later ↔
      (calls = before ∧ call = call' ∧ later = []) ∨
        ∃ rest, later = rest ++ [call] ∧ calls = before ++ call' :: rest := by
  rcases List.eq_nil_or_concat later with rfl | ⟨rest, last, rfl⟩
  · constructor
    · intro h
      obtain ⟨hCalls, hCall⟩ := List.append_inj' h rfl
      exact .inl ⟨hCalls, List.singleton_inj.mp hCall, rfl⟩
    · rintro (⟨rfl, rfl, -⟩ | ⟨rest, hNil, -⟩)
      · rfl
      · exact absurd hNil.symm (by simp)
  · constructor
    · intro h
      rw [List.concat_eq_append, ← List.cons_append, ← List.append_assoc] at h
      obtain ⟨hCalls, hCall⟩ := List.append_inj' h rfl
      exact .inr ⟨rest, by rw [List.concat_eq_append, List.singleton_inj.mp hCall], hCalls⟩
    · rintro (⟨-, -, hNil⟩ | ⟨rest', hLater, rfl⟩)
      · exact absurd hNil (by simp)
      · rw [hLater, ← List.cons_append, List.append_assoc]

theorem registered_concat :
    Registered (calls ++ [call]) name ↔
      Registered calls name ∨ (name ≠ "" ∧ call.1 = .add name) := by
  obtain ⟨command, moment⟩ := call
  simp only [Registered, List.mem_append, List.mem_singleton, Prod.mk.injEq]
  constructor
  · rintro ⟨hName, m, hOld | ⟨rfl, -⟩⟩
    · exact .inl ⟨hName, m, hOld⟩
    · exact .inr ⟨hName, rfl⟩
  · rintro (⟨hName, m, hOld⟩ | ⟨hName, rfl⟩)
    · exact ⟨hName, m, .inl hOld⟩
    · exact ⟨hName, moment, .inr ⟨rfl, rfl⟩⟩

theorem markedReady_concat :
    MarkedReady (calls ++ [call]) name ↔
      MarkedReady calls name ∨ (Registered calls name ∧ call.1 = .mark name) := by
  constructor
  · rintro ⟨before, moment, later, hCalls, hRegistered⟩
    rcases concat_eq_append_cons.mp hCalls with ⟨rfl, rfl, -⟩ | ⟨rest, -, rfl⟩
    · exact .inr ⟨hRegistered, rfl⟩
    · exact .inl ⟨before, moment, rest, rfl, hRegistered⟩
  · rintro (⟨before, moment, later, rfl, hRegistered⟩ | ⟨hRegistered, hMark⟩)
    · exact ⟨before, moment, later ++ [call], by simp, hRegistered⟩
    · exact ⟨calls, call.2, [], by rw [← hMark], hRegistered⟩

theorem MarkedReady.registered (h : MarkedReady calls name) : Registered calls name := by
  obtain ⟨before, moment, later, rfl, hName, added, hMem⟩ := h
  exact ⟨hName, added, List.mem_append_left _ hMem⟩

theorem MarkedReady.mono {before : List Call} (h : MarkedReady before name)
    (hPrefix : before <+: calls) : MarkedReady calls name := by
  obtain ⟨later, rfl⟩ := hPrefix
  obtain ⟨earlier, moment, rest, rfl, hRegistered⟩ := h
  exact ⟨earlier, moment, rest ++ later, by simp, hRegistered⟩

namespace Coordinator

def next (c : Coordinator) (call : Call) : Coordinator := (c.perform call.2 call.1).2.1

/-- A coordinator after some calls. -/
def after (c : Coordinator) (calls : List Call) : Coordinator := calls.foldl next c

/-- The moments of the notifications that come once the all-ready signal has fired. -/
def notices (c : Coordinator) : List Call → List Nat
  | [] => []
  | (command, moment) :: calls =>
    match command, c.isReady with
    | .notify, true => moment :: notices (c.next (command, moment)) calls
    | _, _ => notices (c.next (command, moment)) calls

variable {c c' : Coordinator}

/-! ## The components -/

theorem component?_cases {x : Component} (h : c.component? name = some x) :
    x ∈ c.components ∧ x.name = name :=
  ⟨List.mem_of_find?_eq_some h, by simpa using List.find?_some h⟩

theorem insertSorted_perm (new : Component) (components : List Component) :
    (insertSorted new components).Perm (new :: components) := by
  induction components with
  | nil => exact .refl _
  | cons x rest ih =>
    rw [insertSorted]
    split
    · exact .refl _
    · exact (ih.cons x).trans (.swap new x rest)

theorem setReady_names (name : String) (moment : Nat) (components : List Component) :
    (setReady name moment components).map (·.name) = components.map (·.name) := by
  simp only [setReady, List.map_map]
  refine List.map_congr_left fun x _ => ?_
  simp only [Function.comp_apply]
  split <;> rfl

theorem mem_setReady {x : Component} {components : List Component} :
    x ∈ setReady name moment components ↔
      ∃ y ∈ components,
        x = if y.name = name then { y with ready := true, readyAt := some moment } else y := by
  simp only [setReady, List.mem_map, eq_comm]

/-! ## One call -/

theorem recordTraffic_eq (c : Coordinator) (moment : Nat) :
    (c.recordTraffic moment).1 =
      { c with trafficReadyAt := c.trafficReadyAt.or (some moment) } := by
  cases hTraffic : c.trafficReadyAt with
  | none => simp [recordTraffic, isTrafficReady, hTraffic]
  | some at' =>
    simp only [recordTraffic, isTrafficReady, hTraffic, Option.isSome_some, if_true, Option.some_or]
    rw [← hTraffic]

/-- The all-ready signal as one change, with the traffic signal that follows it in standalone
mode. -/
theorem fireIfAllReady_eq (c : Coordinator) (moment : Nat) :
    (c.fireIfAllReady moment).1 =
      if c.components.all Component.ready && !c.isReady then
        { c with
          allReadyAt := some moment
          trafficReadyAt :=
            match c.mode with
            | .standalone => c.trafficReadyAt.or (some moment)
            | .orchestrated => c.trafficReadyAt }
      else c := by
  unfold fireIfAllReady
  by_cases hAll : (c.components.all Component.ready && !c.isReady) = true
  · simp only [hAll, if_true]
    cases hMode : c.mode with
    | standalone => exact recordTraffic_eq _ moment
    | orchestrated => rfl
  · simp only [hAll, if_false, Bool.false_eq_true]

theorem fireIfAllReady_components (c : Coordinator) (moment : Nat) :
    (c.fireIfAllReady moment).1.components = c.components := by
  rw [fireIfAllReady_eq]
  split <;> rfl

theorem isReady_fireIfAllReady (c : Coordinator) (moment : Nat) :
    (c.fireIfAllReady moment).1.isReady = (c.components.all Component.ready || c.isReady) := by
  rw [fireIfAllReady_eq]
  cases hAll : c.components.all Component.ready <;> cases hReady : c.isReady <;>
    simp [isReady] at hReady ⊢ <;> simp [hReady]

/-- The inversion of a call: what it changes, and why it changes nothing. -/
inductive Change (c : Coordinator) : Call → Coordinator → Prop where
  | emptyName (moment : Nat) : Change c (.add "", moment) c
  | again {name : String} {x : Component} (moment : Nat) (hKnown : c.component? name = some x) :
    Change c (.add name, moment) c
  | added {name : String} (moment : Nat) (hName : name ≠ "") (hNew : c.component? name = none) :
    Change c (.add name, moment)
      { c with components := insertSorted ⟨name, false, moment, none⟩ c.components }
  | unknown {name : String} (moment : Nat) (hNone : c.component? name = none) :
    Change c (.mark name, moment) c
  | remarked {name : String} {x : Component} (moment : Nat) (hKnown : c.component? name = some x)
    (hReady : x.ready = true) : Change c (.mark name, moment) c
  | marked {name : String} {x : Component} (moment : Nat) (hKnown : c.component? name = some x)
    (hReady : x.ready = false) :
    Change c (.mark name, moment)
      ({ c with components := setReady name moment c.components }.fireIfAllReady moment).1
  | unmoved (moment : Nat)
    (hStill : c.mode = .standalone ∨ c.isReady = false ∨ c.isTrafficReady = true) :
    Change c (.notify, moment) c
  | notified (moment : Nat) (hMode : c.mode = .orchestrated) (hReady : c.isReady = true)
    (hFirst : c.trafficReadyAt = none) :
    Change c (.notify, moment) { c with trafficReadyAt := some moment }

theorem change (c : Coordinator) (call : Call) : c.Change call (c.next call) := by
  obtain ⟨command, moment⟩ := call
  cases command with
  | add name =>
    by_cases hEmpty : name = ""
    · subst hEmpty
      exact .emptyName moment
    · cases hKnown : c.component? name with
      | some x =>
        have hNext : c.next (.add name, moment) = c := by simp [next, perform, add, hEmpty, hKnown]
        rw [hNext]
        exact .again moment hKnown
      | none =>
        have hNext : c.next (.add name, moment) =
            { c with components := insertSorted ⟨name, false, moment, none⟩ c.components } := by
          simp [next, perform, add, hEmpty, hKnown]
        rw [hNext]
        exact .added moment hEmpty hKnown
  | mark name =>
    cases hKnown : c.component? name with
    | none =>
      have hNext : c.next (.mark name, moment) = c := by simp [next, perform, mark, hKnown]
      rw [hNext]
      exact .unknown moment hKnown
    | some x =>
      cases hReady : x.ready with
      | true =>
        have hNext : c.next (.mark name, moment) = c := by
          simp [next, perform, mark, hKnown, hReady]
        rw [hNext]
        exact .remarked moment hKnown hReady
      | false =>
        have hNext : c.next (.mark name, moment) =
            ({ c with
                components := setReady name moment c.components }.fireIfAllReady moment).1 := by
          simp [next, perform, mark, hKnown, hReady]
        rw [hNext]
        exact .marked moment hKnown hReady
  | notify =>
    cases hMode : c.mode with
    | standalone =>
      have hNext : c.next (.notify, moment) = c := by simp [next, perform, notify, hMode]
      rw [hNext]
      exact .unmoved moment (.inl hMode)
    | orchestrated =>
      cases hReady : c.isReady with
      | false =>
        have hNext : c.next (.notify, moment) = c := by simp [next, perform, notify, hMode, hReady]
        rw [hNext]
        exact .unmoved moment (.inr (.inl hReady))
      | true =>
        have hNext : c.next (.notify, moment) =
            { c with trafficReadyAt := c.trafficReadyAt.or (some moment) } := by
          rw [← recordTraffic_eq]
          simp [next, perform, notify, hMode, hReady]
        rw [hNext]
        cases hFirst : c.trafficReadyAt with
        | none => exact .notified moment hMode hReady hFirst
        | some at' =>
          rw [Option.some_or, ← hFirst]
          exact .unmoved moment (.inr (.inr (by simp [isTrafficReady, hFirst])))

/-! ## What every call keeps -/

/-- The components are those that the calls speak of, and the signal has fired as soon as all of
them are ready. -/
structure Books (calls : List Call) (c : Coordinator) : Prop where
  registered : ∀ name, Registered calls name ↔ name ∈ c.components.map Component.name
  marked : ∀ x ∈ c.components, (x.ready = true ↔ MarkedReady calls x.name)
  latched : c.components ≠ [] → c.components.all Component.ready = true → c.isReady = true

theorem Books.allMarked_iff (h : Books calls c) :
    AllMarked calls ↔ c.components ≠ [] ∧ c.components.all Component.ready = true := by
  constructor
  · rintro ⟨⟨name, hSome⟩, hAll⟩
    have hMem := (h.registered name).mp hSome
    refine ⟨fun hNil => by simp [hNil] at hMem, List.all_eq_true.mpr fun x hMem => ?_⟩
    exact (h.marked x hMem).mpr (hAll x.name ((h.registered x.name).mpr (List.mem_map_of_mem hMem)))
  · rintro ⟨hSome, hAll⟩
    obtain ⟨x, hMem⟩ := List.exists_mem_of_ne_nil _ hSome
    refine ⟨⟨x.name, (h.registered x.name).mpr (List.mem_map_of_mem hMem)⟩, fun name hName => ?_⟩
    obtain ⟨y, hMem, rfl⟩ := List.mem_map.mp ((h.registered name).mp hName)
    exact (h.marked y hMem).mp (List.all_eq_true.mp hAll y hMem)

theorem Books.component_iff (h : Books calls c) (name : String) :
    Registered calls name ↔ (c.component? name).isSome = true := by
  rw [h.registered]
  simp [component?, List.find?_isSome]

/-- What the calls say of a component is what the coordinator tells. -/
theorem Books.exists_ready (h : Books calls c) (hMarked : MarkedReady calls name) :
    ∃ x, c.component? name = some x ∧ x.ready = true := by
  obtain ⟨x, hKnown⟩ := Option.isSome_iff_exists.mp ((h.component_iff name).mp hMarked.registered)
  obtain ⟨hMem, rfl⟩ := component?_cases hKnown
  exact ⟨x, hKnown, (h.marked x hMem).mpr hMarked⟩

/-- A call that brings no name and marks none leaves the books as they are. -/
theorem Books.aside (h : Books calls c)
    (hAdd : ∀ name, name ≠ "" → call.1 = .add name → Registered calls name)
    (hMark : ∀ name, Registered calls name → call.1 = .mark name → MarkedReady calls name) :
    Books (calls ++ [call]) c := by
  refine ⟨fun name => ?_, fun x hMem => ?_, h.latched⟩
  · rw [registered_concat, h.registered, or_iff_left_iff_imp]
    exact fun hNew => (h.registered name).mp (hAdd name hNew.1 hNew.2)
  · rw [markedReady_concat, h.marked x hMem, iff_comm, or_iff_left_iff_imp]
    exact fun hNew => hMark x.name hNew.1 hNew.2

theorem books_added (h : Books calls c) (moment : Nat) (hName : name ≠ "")
    (hNew : c.component? name = none) :
    Books (calls ++ [(.add name, moment)])
      { c with components := insertSorted ⟨name, false, moment, none⟩ c.components } := by
  have hPerm := insertSorted_perm ⟨name, false, moment, none⟩ c.components
  have hUnknown : ¬ Registered calls name := by simp [h.component_iff, hNew]
  refine ⟨fun name' => ?_, fun x hMem => ?_, fun _ hAll => ?_⟩
  · rw [registered_concat, h.registered, (hPerm.map Component.name).mem_iff]
    simp only [List.map_cons, List.mem_cons, Command.add.injEq]
    constructor
    · rintro (hOld | ⟨-, rfl⟩)
      · exact .inr hOld
      · exact .inl rfl
    · rintro (rfl | hOld)
      · exact .inr ⟨hName, rfl⟩
      · exact .inl hOld
  · rw [markedReady_concat]
    rcases List.mem_cons.mp (hPerm.mem_iff.mp hMem) with rfl | hOld
    · have hNot : ¬ MarkedReady calls name := fun hMarked => hUnknown hMarked.registered
      simp [hNot]
    · simp [h.marked x hOld]
  · have hReady := List.all_eq_true.mp hAll _ (hPerm.mem_iff.mpr List.mem_cons_self)
    cases hReady

theorem books_marked (h : Books calls c) (moment : Nat) {x : Component}
    (hKnown : c.component? name = some x) :
    Books (calls ++ [(.mark name, moment)])
      ({ c with components := setReady name moment c.components }.fireIfAllReady moment).1 := by
  have hRegistered : Registered calls name := by simp [h.component_iff, hKnown]
  refine ⟨fun name' => ?_, fun x' hMem => ?_, fun hSome hAll => ?_⟩
  · rw [fireIfAllReady_components, registered_concat, setReady_names, h.registered]
    simp
  · rw [fireIfAllReady_components] at hMem
    obtain ⟨y, hOld, rfl⟩ := mem_setReady.mp hMem
    rw [markedReady_concat]
    split
    · next hSame => simp [hSame, hRegistered]
    · next hOther =>
      rw [h.marked y hOld, iff_comm, or_iff_left_iff_imp]
      rintro ⟨-, hMark⟩
      cases hMark
      exact absurd rfl hOther
  · rw [fireIfAllReady_components] at hAll
    rw [isReady_fireIfAllReady, hAll, Bool.true_or]

/-- The step lemma: every call keeps the books. -/
theorem books_next (h : Books calls c) (call : Call) : Books (calls ++ [call]) (c.next call) := by
  have hChange := c.change call
  generalize c.next call = c' at hChange ⊢
  cases hChange with
  | emptyName moment =>
    refine h.aside (fun name hName hAdd => ?_) nofun
    cases hAdd
    exact absurd rfl hName
  | again moment hKnown =>
    refine h.aside (fun name _ hAdd => ?_) nofun
    cases hAdd
    simp [h.component_iff, hKnown]
  | added moment hName hNew => exact books_added h moment hName hNew
  | unknown moment hNone =>
    refine h.aside nofun (fun name hName hMark => ?_)
    cases hMark
    simp [h.component_iff, hNone] at hName
  | remarked moment hKnown hReady =>
    refine h.aside nofun (fun name _ hMark => ?_)
    cases hMark
    obtain ⟨hMem, rfl⟩ := component?_cases hKnown
    exact (h.marked _ hMem).mp hReady
  | marked moment hKnown hReady => exact books_marked h moment hKnown
  | unmoved => exact h.aside nofun nofun
  | notified moment =>
    have hAside : Books (calls ++ [(.notify, moment)]) c := h.aside nofun nofun
    exact ⟨hAside.registered, hAside.marked, hAside.latched⟩

/-- A call fires the signal exactly if the components are all marked with it, and never takes it
back. -/
theorem isReady_next (h : Books calls c) (call : Call) :
    (c.next call).isReady = true ↔ c.isReady = true ∨ AllMarked (calls ++ [call]) := by
  have hNext := books_next h call
  have hChange := c.change call
  generalize c.next call = c' at hChange hNext ⊢
  have hLatched : AllMarked (calls ++ [call]) → c'.isReady = true := by
    rw [hNext.allMarked_iff]
    exact fun hAll => hNext.latched hAll.1 hAll.2
  cases hChange with
  | emptyName | again | unknown | remarked | unmoved | added | notified =>
    exact ⟨.inl, fun hReady => hReady.elim id hLatched⟩
  | marked moment hKnown hReady =>
    rw [hNext.allMarked_iff, isReady_fireIfAllReady, fireIfAllReady_components, Bool.or_eq_true]
    constructor
    · rintro (hAll | hBefore)
      · refine .inr ⟨fun hNil => ?_, hAll⟩
        simp only [setReady, List.map_eq_nil_iff] at hNil
        simp [component?, hNil] at hKnown
      · exact .inl hBefore
    · rintro (hBefore | hAll)
      · exact .inr hBefore
      · exact .inl hAll.2

/-- The moment of the all-ready signal is that of the mark that fires it, and is kept from then
on. -/
theorem allReadyAt_next (c : Coordinator) (call : Call) :
    (c.next call).allReadyAt = c.allReadyAt ∨
      (c.isReady = false ∧ ∃ name, call.1 = .mark name ∧
        (c.next call).allReadyAt = some call.2) := by
  have hChange := c.change call
  generalize c.next call = c' at hChange ⊢
  cases hChange with
  | emptyName | again | unknown | remarked | unmoved | added | notified => exact .inl rfl
  | @marked name x moment hKnown hReady =>
    rw [fireIfAllReady_eq]
    split
    · next hFires =>
      have hBefore : c.isReady = false := by
        simpa [isReady] using (Bool.and_eq_true_iff.mp hFires).2
      exact .inr ⟨hBefore, name, rfl, rfl⟩
    · exact .inl rfl

theorem mode_next (c : Coordinator) (call : Call) : (c.next call).mode = c.mode := by
  have hChange := c.change call
  generalize c.next call = c' at hChange ⊢
  cases hChange with
  | emptyName | again | unknown | remarked | unmoved | added | notified => rfl
  | marked moment hKnown hReady =>
    rw [fireIfAllReady_eq]
    split <;> rfl

/-- In standalone mode the two signals are one. -/
theorem trafficReadyAt_next_standalone (hMode : c.mode = .standalone)
    (hSame : c.trafficReadyAt = c.allReadyAt) (call : Call) :
    (c.next call).trafficReadyAt = (c.next call).allReadyAt := by
  have hChange := c.change call
  generalize c.next call = c' at hChange ⊢
  cases hChange with
  | emptyName | again | unknown | remarked | unmoved | added => exact hSame
  | notified moment hOrchestrated =>
    rw [hMode] at hOrchestrated
    cases hOrchestrated
  | marked moment hKnown hReady =>
    rw [fireIfAllReady_eq]
    split
    · next hFires =>
      have hBefore : c.allReadyAt = none := by
        simpa [isReady] using (Bool.and_eq_true_iff.mp hFires).2
      simp [hMode, hSame, hBefore]
    · exact hSame

/-- In orchestrated mode the traffic signal fires with a notification only. -/
theorem trafficReadyAt_next_orchestrated (hMode : c.mode = .orchestrated) (call : Call) :
    (c.next call).trafficReadyAt = c.trafficReadyAt.or (c.notices [call]).head? := by
  have hChange := c.change call
  generalize c.next call = c' at hChange ⊢
  cases hChange with
  | emptyName | again | unknown | remarked | added => simp [notices]
  | unmoved moment hStill =>
    rcases hStill with hStandalone | hNotReady | hTraffic
    · rw [hMode] at hStandalone
      cases hStandalone
    · simp [notices, hNotReady]
    · obtain ⟨at', hTraffic⟩ := Option.isSome_iff_exists.mp hTraffic
      simp [hTraffic]
  | notified moment _ hReady hFirst => simp [notices, hReady, hFirst]
  | marked moment hKnown hReady =>
    rw [fireIfAllReady_eq]
    split <;> simp [notices, hMode]

/-- A new component stands in the way of no other. -/
theorem find?_insertSorted {p : Component → Bool} {new : Component} (hNew : p new = false)
    (components : List Component) : (insertSorted new components).find? p = components.find? p := by
  induction components with
  | nil => simp [insertSorted, hNew]
  | cons x rest ih =>
    rw [insertSorted]
    split
    · rw [List.find?_cons, hNew]
    · rw [List.find?_cons, List.find?_cons, ih]

/-- To mark one component does nothing to the others. -/
theorem find?_setReady {marked : String} (hNe : marked ≠ name) (components : List Component) :
    (setReady marked moment components).find? (·.name == name) =
      components.find? (·.name == name) := by
  induction components with
  | nil => rfl
  | cons x rest ih =>
    have hRest : setReady marked moment (x :: rest) =
        (if x.name = marked then { x with ready := true, readyAt := some moment } else x) ::
          setReady marked moment rest := rfl
    rw [hRest]
    by_cases hMarked : x.name = marked
    · simp [hMarked, hNe, ih]
    · rw [if_neg hMarked, List.find?_cons, List.find?_cons, ih]

/-- Whoever becomes ready is marked. -/
theorem ready_next {x : Component} (hKnown : (c.next call).component? name = some x)
    (hReady : x.ready = true) : c.component? name = some x ∨ call.1 = .mark name := by
  have hChange := c.change call
  generalize c.next call = next at hChange hKnown
  cases hChange with
  | emptyName | again | unknown | remarked | unmoved => exact .inl hKnown
  | notified => exact .inl hKnown
  | @added new moment _ hNew =>
    by_cases hSame : new = name
    · subst hSame
      obtain ⟨hMem, hName⟩ := component?_cases hKnown
      rcases List.mem_cons.mp ((insertSorted_perm _ _).mem_iff.mp hMem) with rfl | hOld
      · cases hReady
      · exact absurd hName (by simpa using List.find?_eq_none.mp hNew x hOld)
    · have hOther : (new == name) = false := by simpa using hSame
      rw [component?, find?_insertSorted (by exact hOther)] at hKnown
      exact .inl hKnown
  | @marked marked y moment =>
    by_cases hSame : marked = name
    · exact .inr (congrArg Command.mark hSame)
    · refine .inl ?_
      rw [component?, fireIfAllReady_components, find?_setReady hSame] at hKnown
      exact hKnown

/-! ## Many calls -/

theorem after_concat (c : Coordinator) (calls : List Call) (call : Call) :
    c.after (calls ++ [call]) = (c.after calls).next call := by
  simp [after]

theorem after_append (c : Coordinator) (calls calls' : List Call) :
    c.after (calls ++ calls') = (c.after calls).after calls' :=
  List.foldl_append

theorem ready_after {x : Component} (hKnown : (c.after calls).component? name = some x)
    (hReady : x.ready = true) :
    c.component? name = some x ∨ ∃ moment, (.mark name, moment) ∈ calls := by
  induction calls using List.reverseRecOn generalizing x with
  | nil => exact .inl hKnown
  | append_singleton calls call ih =>
    rw [after_concat] at hKnown
    rcases ready_next hKnown hReady with hBefore | hMark
    · exact (ih hBefore hReady).imp_right fun ⟨moment, hMem⟩ =>
        ⟨moment, List.mem_append_left _ hMem⟩
    · exact .inr ⟨call.2, by simp [← hMark]⟩

theorem mode_after (c : Coordinator) (calls : List Call) : (c.after calls).mode = c.mode := by
  induction calls generalizing c with
  | nil => rfl
  | cons call calls ih => exact (ih (c.next call)).trans (mode_next c call)

theorem books_after (mode : TrafficMode) (calls : List Call) :
    Books calls ((create mode).after calls) := by
  induction calls using List.reverseRecOn with
  | nil =>
    refine ⟨fun name => ?_, nofun, fun hSome => absurd rfl hSome⟩
    simp [Registered, after, create]
  | append_singleton calls call ih =>
    rw [after_concat]
    exact books_next ih call

theorem isReady_after (mode : TrafficMode) (calls : List Call) :
    ((create mode).after calls).isReady = true ↔ ∃ before, before <+: calls ∧ AllMarked before := by
  induction calls using List.reverseRecOn with
  | nil =>
    constructor
    · exact nofun
    · rintro ⟨before, hPrefix, ⟨name, -, moment, hMem⟩, -⟩
      rw [List.prefix_nil.mp hPrefix] at hMem
      cases hMem
  | append_singleton calls call ih =>
    rw [after_concat, isReady_next (books_after mode calls), ih]
    constructor
    · rintro (⟨before, hPrefix, hAll⟩ | hAll)
      · exact ⟨before, hPrefix.trans (List.prefix_append _ _), hAll⟩
      · exact ⟨_, List.prefix_refl _, hAll⟩
    · rintro ⟨before, hPrefix, hAll⟩
      rcases List.prefix_concat_iff.mp hPrefix with rfl | hPrefix
      · exact .inr hAll
      · exact .inl ⟨before, hPrefix, hAll⟩

theorem allReadyAt_after (c : Coordinator) (later : List Call) (hReady : c.isReady = true) :
    (c.after later).allReadyAt = c.allReadyAt := by
  induction later generalizing c with
  | nil => rfl
  | cons call later ih =>
    have hKept : (c.next call).allReadyAt = c.allReadyAt := by
      rcases allReadyAt_next c call with hKept | ⟨hNot, -⟩
      · exact hKept
      · rw [hReady] at hNot
        cases hNot
    have hStill : (c.next call).isReady = true := by
      rw [isReady, hKept]
      exact hReady
    exact (ih (c.next call) hStill).trans hKept

/-- One mark fires the all-ready signal, which is there exactly after it. -/
theorem exists_mark (mode : TrafficMode) (calls : List Call)
    (hReady : ((create mode).after calls).isReady = true) :
    ∃ before name moment later, calls = before ++ (.mark name, moment) :: later ∧
      ((create mode).after calls).allReadyAt = some moment ∧
      ∀ p, p <+: calls → (((create mode).after p).isReady = true ↔ before.length < p.length) := by
  induction calls using List.reverseRecOn with
  | nil => cases hReady
  | append_singleton calls call ih =>
    have hWhole : (calls ++ [call]).length = calls.length + 1 := by simp
    have hMoments := allReadyAt_next ((create mode).after calls) call
    rw [← after_concat] at hMoments
    cases hBefore : ((create mode).after calls).isReady with
    | true =>
      obtain ⟨before, name, moment, later, hCalls, hMoment, hExact⟩ := ih hBefore
      have hLength : before.length < calls.length := (hExact calls (List.prefix_refl _)).mp hBefore
      refine ⟨before, name, moment, later ++ [call], by simp [hCalls], ?_, fun p hPrefix => ?_⟩
      · rcases hMoments with hKept | ⟨hNot, -⟩
        · rw [hKept, hMoment]
        · rw [hBefore] at hNot
          cases hNot
      · rcases List.prefix_concat_iff.mp hPrefix with rfl | hPrefix
        · simp only [hReady, true_iff]
          omega
        · exact hExact p hPrefix
    | false =>
      obtain ⟨-, name, hMark, hMoment⟩ : _ ∧ ∃ name, _ := by
        refine hMoments.resolve_left fun hKept => ?_
        rw [isReady, hKept, ← isReady, hBefore] at hReady
        cases hReady
      refine ⟨calls, name, call.2, [], by rw [← hMark], hMoment, fun p hPrefix => ?_⟩
      rcases List.prefix_concat_iff.mp hPrefix with rfl | hPrefix
      · simp only [hReady, true_iff]
        omega
      · have hLength := hPrefix.length_le
        cases hEarly : ((create mode).after p).isReady with
        | true =>
          obtain ⟨q, hShorter, hAll⟩ := (isReady_after mode p).mp hEarly
          have hLate := (isReady_after mode calls).mpr ⟨q, hShorter.trans hPrefix, hAll⟩
          rw [hBefore] at hLate
          cases hLate
        | false =>
          simp only [Bool.false_eq_true, false_iff]
          omega

theorem trafficReadyAt_after_standalone (calls : List Call) :
    ((create .standalone).after calls).trafficReadyAt =
      ((create .standalone).after calls).allReadyAt := by
  induction calls using List.reverseRecOn with
  | nil => rfl
  | append_singleton calls call ih =>
    rw [after_concat]
    exact trafficReadyAt_next_standalone (mode_after _ calls) ih call

theorem notices_cons (c : Coordinator) (call : Call) (calls : List Call) :
    c.notices (call :: calls) = c.notices [call] ++ (c.next call).notices calls := by
  obtain ⟨command, moment⟩ := call
  cases command with
  | add | mark => simp [notices]
  | notify => cases hReady : c.isReady <;> simp [notices, hReady]

theorem trafficReadyAt_after_orchestrated (hMode : c.mode = .orchestrated) (calls : List Call) :
    (c.after calls).trafficReadyAt = c.trafficReadyAt.or (c.notices calls).head? := by
  induction calls generalizing c with
  | nil => simp [after, notices]
  | cons call calls ih =>
    have hLater := ih ((mode_next c call).trans hMode)
    rw [trafficReadyAt_next_orchestrated hMode, Option.or_assoc] at hLater
    rw [notices_cons, List.head?_append]
    exact hLater

/-! ## Calls that change nothing -/

theorem perform_error (c : Coordinator) (command : Command) (moment : Nat) {e : Error}
    (h : (c.perform moment command).1 = .error e) : (c.perform moment command).2.1 = c := by
  cases command with
  | add name =>
    simp only [perform, add] at h ⊢
    by_cases hEmpty : name = ""
    · simp only [hEmpty, if_true]
    · simp only [hEmpty, if_false] at h
      split at h <;> cases h
  | mark name =>
    simp only [perform, mark] at h ⊢
    cases hKnown : c.component? name with
    | none => rfl
    | some x =>
      simp only [hKnown] at h
      split at h <;> cases h
  | notify =>
    simp only [perform, notify] at h ⊢
    cases hMode : c.mode with
    | standalone => rfl
    | orchestrated =>
      cases hReady : c.isReady with
      | false => rfl
      | true =>
        simp only [hMode, hReady, if_true] at h
        cases h

theorem Books.next_registered (h : Books calls c) (hName : Registered calls name) (moment : Nat) :
    c.next (.add name, moment) = c := by
  rw [h.component_iff] at hName
  have hChange := c.change (.add name, moment)
  generalize c.next (.add name, moment) = c' at hChange ⊢
  cases hChange with
  | emptyName | again => rfl
  | added _ _ hNew =>
    rw [hNew] at hName
    cases hName

theorem Books.next_marked (h : Books calls c) (hName : MarkedReady calls name) (moment : Nat) :
    c.next (.mark name, moment) = c := by
  have hChange := c.change (.mark name, moment)
  generalize c.next (.mark name, moment) = c' at hChange ⊢
  cases hChange with
  | unknown | remarked => rfl
  | marked _ hKnown hNot =>
    obtain ⟨hMem, rfl⟩ := component?_cases hKnown
    rw [(h.marked _ hMem).mpr hName] at hNot
    cases hNot

end Coordinator

open Coordinator

/-- Whatever calls were made, and by whom: the all-ready signal has fired if there was a point at
which there were components and all of them were marked. One mark fires it, at its moment, and it
is there from this mark on. In standalone mode the traffic signal is the same; in orchestrated mode
it is the first notification that comes after the all-ready signal. A call that is refused, that
registers a name again or marks a ready component again changes nothing. -/
theorem signals_exact (mode : TrafficMode) (calls : List Call) :
    let c := (create mode).after calls
    (c.isReady = true ↔ ∃ before, before <+: calls ∧ AllMarked before) ∧
    (∀ later, c.isReady = true →
      ((create mode).after (calls ++ later)).allReadyAt = c.allReadyAt) ∧
    (c.isReady = true → ∃ before name moment later,
      calls = before ++ (.mark name, moment) :: later ∧ c.allReadyAt = some moment ∧
      ∀ p, p <+: calls → (((create mode).after p).isReady = true ↔ before.length < p.length)) ∧
    (mode = .standalone → c.trafficReadyAt = c.allReadyAt) ∧
    (mode = .orchestrated → c.trafficReadyAt = ((create mode).notices calls).head?) ∧
    ∀ command moment,
      ((∃ e, (c.perform moment command).1 = .error e) ∨
        (∃ name, command = .add name ∧ Registered calls name) ∨
        (∃ name, command = .mark name ∧ MarkedReady calls name)) →
      (c.perform moment command).2.1 = c := by
  intro c
  have hBooks : Books calls c := books_after mode calls
  refine ⟨isReady_after mode calls, fun later hReady => ?_, exists_mark mode calls, ?_, ?_, ?_⟩
  · rw [after, List.foldl_append]
    exact allReadyAt_after c later hReady
  · rintro rfl
    exact trafficReadyAt_after_standalone calls
  · intro hMode
    have hTraffic := trafficReadyAt_after_orchestrated (c := create mode) hMode calls
    exact hTraffic.trans (Option.none_or)
  · rintro command moment (⟨e, hError⟩ | ⟨name, rfl, hName⟩ | ⟨name, rfl, hName⟩)
    · exact perform_error c command moment hError
    · exact hBooks.next_registered hName moment
    · exact hBooks.next_marked hName moment

/-- A component that comes after the signal does not take it back. -/
example : ((create .standalone).after
    [(.add "database", 0), (.mark "database", 1), (.add "cache", 2)]).allReadyAt = some 1 := by
  decide

end Gatehouse.Readiness
