import Gatehouse.Toml.Reader
import Mathlib.Algebra.Group.Int.Defs
import Mathlib.Data.List.Basic

/-!
# The integers of a TOML text

No text holds an integer that does not fit into 64 bits with a sign, at whatever depth and under
whatever kind of header it stands.

* `InRange`: the documents without such an integer.
* `change_inRange`: what is done to a table at the end of a path.
* `value_inRange`: one value; `lines_inRange`: the lines of a text.
* `inRange_of_parse`: a whole text.
-/

namespace Gatehouse.Toml

/-- A document whose integers fit into 64 bits with a sign. -/
inductive InRange : Document → Prop where
  | null : InRange .null
  | boolean (b : Bool) : InRange (.boolean b)
  | integer {n : Int} (hLow : -2 ^ 63 ≤ n) (hHigh : n < 2 ^ 63) : InRange (.integer n)
  | decimal (m e : Int) : InRange (.decimal m e)
  | text (s : String) : InRange (.text s)
  | moment (s : String) : InRange (.moment s)
  | list {items : List Document} (h : ∀ d ∈ items, InRange d) : InRange (.list items)
  | table {entries : List (String × Document)} (h : ∀ e ∈ entries, InRange e.2) :
      InRange (.table entries)

/-- The same of a table that is still being read. -/
inductive Node.InRange : Node → Prop where
  | value {d : Document} (h : Toml.InRange d) : InRange (.value d)
  | table {origin : Origin} {es : Entries} (h : ∀ e ∈ es, InRange e.2) : InRange (.table origin es)
  | tables {earlier : List Entries} {last : Entries}
      (hEarlier : ∀ es ∈ earlier, ∀ e ∈ es, InRange e.2) (hLast : ∀ e ∈ last, InRange e.2) :
      InRange (.tables earlier last)

def Entries.InRange (es : Entries) : Prop := ∀ e ∈ es, e.2.InRange

/-! ## Numbers -/

theorem boundedInteger_inRange {negative : Bool} {n : Nat} {rest tail : List Char} {d : Document}
    (h : boundedInteger negative n rest = some (d, tail)) : InRange d := by
  unfold boundedInteger at h
  split_ifs at h with hSign hBound hBound
  · cases h
    have hLe : n ≤ 2 ^ 63 := hBound
    exact .integer (by omega) (by omega)
  · cases h
    have hLt : n < 2 ^ 63 := hBound
    exact .integer (by omega) (by omega)

theorem integer_inRange {cs rest : List Char} {d : Document} (h : integer cs = some (d, rest)) :
    InRange d := by
  unfold integer at h
  split at h
  all_goals
    obtain ⟨p, -, hBounded⟩ := Option.bind_eq_some_iff.mp h
    exact boundedInteger_inRange hBounded

theorem finite_inRange {negative : Bool} {ds rest tail : List Char} {e : Int} {d : Document}
    (h : finite negative ds e rest = some (d, tail)) : InRange d := by
  unfold finite at h
  dsimp only at h
  split at h
  · cases h
  · cases h
    exact .decimal _ _

theorem special_inRange {cs rest : List Char} {d : Document} (h : special cs = some (d, rest)) :
    InRange d := by
  unfold special at h
  split at h
  · cases h
    exact .decimal _ _
  · cases h
    exact .decimal _ _
  · cases h

theorem float_inRange {cs rest : List Char} {d : Document} (h : float cs = some (some (d, rest))) :
    InRange d := by
  unfold float at h
  dsimp only at h
  split at h
  · next hSpecial =>
    cases h
    exact special_inRange hSpecial
  · split at h
    · cases h
    · split at h
      · split at h
        · cases h
        · split at h
          · obtain ⟨p, -, hFinite⟩ := Option.bind_eq_some_iff.mp (Option.some.inj h)
            exact finite_inRange hFinite
          · exact finite_inRange (Option.some.inj h)
      · split at h
        · obtain ⟨p, -, hFinite⟩ := Option.bind_eq_some_iff.mp (Option.some.inj h)
          exact finite_inRange hFinite
        · cases h

theorem numeric_inRange {cs rest : List Char} {d : Document} (h : numeric cs = some (d, rest)) :
    InRange d := by
  unfold numeric at h
  split at h
  · obtain ⟨tail, -, hMoment⟩ := Option.map_eq_some_iff.mp h
    cases hMoment
    exact .moment _
  · split at h
    · next hFloat => exact float_inRange (hFloat.trans (congrArg some h))
    · exact integer_inRange h

/-! ## Tables under construction -/

theorem documentEntries_eq_map (es : Entries) :
    documentEntries es = es.map fun e => (e.1, e.2.toDocument) := by
  induction es with
  | nil => rfl
  | cons e es ih => rw [documentEntries, ih, List.map_cons]

theorem documentTables_eq_map (tables : List Entries) :
    documentTables tables = tables.map fun es => .table (documentEntries es) := by
  induction tables with
  | nil => rfl
  | cons es tables ih => rw [documentTables, ih, List.map_cons]

theorem table_inRange {es : Entries} (h : ∀ e ∈ es, InRange e.2.toDocument) :
    InRange (.table (documentEntries es)) := by
  rw [documentEntries_eq_map]
  refine .table fun e hMem => ?_
  obtain ⟨f, hHeld, rfl⟩ := List.mem_map.mp hMem
  exact h f hHeld

theorem Node.InRange.toDocument {node : Node} (h : node.InRange) :
    Toml.InRange node.toDocument := by
  induction h with
  | value h => exact h
  | table h ih => exact table_inRange ih
  | tables hEarlier hLast ihEarlier ihLast =>
    refine .list fun d hMem => ?_
    rcases List.mem_append.mp hMem with hOld | hOne
    · rw [documentTables_eq_map] at hOld
      obtain ⟨es, hHeld, rfl⟩ := List.mem_map.mp hOld
      exact table_inRange (ihEarlier es hHeld)
    · obtain rfl := List.mem_singleton.mp hOne
      exact table_inRange ihLast

namespace Entries

variable {es es' : Entries} {key : String}

theorem inRange_nil : InRange [] := nofun

theorem InRange.lookup? {node : Node} (h : es.InRange) (hFound : es.lookup? key = some node) :
    node.InRange := by
  obtain ⟨e, hFind, rfl⟩ := Option.map_eq_some_iff.mp hFound
  exact h e (List.mem_of_find?_eq_some hFind)

theorem InRange.put {node : Node} (h : es.InRange) (hNode : node.InRange) :
    (es.put key node).InRange := by
  induction es with
  | nil =>
    intro e hMem
    obtain rfl := List.mem_singleton.mp hMem
    exact hNode
  | cons e es ih =>
    obtain ⟨hHere, hRest⟩ := List.forall_mem_cons.mp h
    rw [Entries.put]
    split
    · exact List.forall_mem_cons.mpr ⟨hNode, hRest⟩
    · exact List.forall_mem_cons.mpr ⟨hHere, ih hRest⟩

/-- What a change at the end of a path keeps, the whole keeps. -/
theorem change_inRange {made : Origin} {enter : Origin → Bool}
    {f : Origin → Entries → Option Entries}
    (hChange : ∀ {origin es es'}, InRange es → f origin es = some es' → InRange es')
    {path : List String} {origin : Origin} (hes : es.InRange)
    (h : change made enter f path origin es = some es') : es'.InRange := by
  induction path generalizing origin es es' with
  | nil => exact hChange hes h
  | cons key path ih =>
    rw [change] at h
    split at h
    · obtain ⟨inner, hInner, rfl⟩ := Option.map_eq_some_iff.mp h
      exact hes.put (.table (ih inRange_nil hInner))
    · next hFound =>
      split at h
      · obtain ⟨inner, hInner, rfl⟩ := Option.map_eq_some_iff.mp h
        cases hes.lookup? hFound with
        | table hOld => exact hes.put (.table (ih hOld hInner))
      · cases h
    · next hFound =>
      obtain ⟨last, hLast, rfl⟩ := Option.map_eq_some_iff.mp h
      cases hes.lookup? hFound with
      | tables hEarlier hOld => exact hes.put (.tables hEarlier (ih hOld hLast))
    · cases h

theorem define_inRange {path : List String} (hes : es.InRange)
    (h : es.define path key = some es') : es'.InRange := by
  refine change_inRange (fun hInner hDefine => ?_) hes h
  split at hDefine
  · cases hDefine
    exact hInner.put (.table nofun)
  · next hFound =>
    cases hDefine
    cases hInner.lookup? hFound with
    | table hOld => exact hInner.put (.table hOld)
  · cases hDefine

theorem append_inRange {path : List String} (hes : es.InRange)
    (h : es.append path key = some es') : es'.InRange := by
  refine change_inRange (fun hInner hAppend => ?_) hes h
  split at hAppend
  · cases hAppend
    exact hInner.put (.tables nofun nofun)
  · next hFound =>
    cases hAppend
    cases hInner.lookup? hFound with
    | tables hEarlier hOld =>
      refine hInner.put (.tables ?_ nofun)
      intro es hMem
      rcases List.mem_append.mp hMem with hBefore | hLast
      · exact hEarlier es hBefore
      · obtain rfl := List.mem_singleton.mp hLast
        exact hOld
  · cases hAppend

variable {dots : List String} {d : Document}

theorem insertDotted_inRange {origin : Origin} (hd : Toml.InRange d) (hes : es.InRange)
    (h : insertDotted dots key d origin es = some es') : es'.InRange := by
  refine change_inRange (fun hInner hInsert => ?_) hes h
  split_ifs at hInsert
  cases hInsert
  exact hInner.put (.value hd)

theorem insert_inRange {header : List String} (hd : Toml.InRange d) (hes : es.InRange)
    (h : es.insert header dots key d = some es') : es'.InRange :=
  change_inRange (insertDotted_inRange hd) hes h

end Entries

/-! ## Values and lines -/

theorem value_inRange_step {fuel depth : Nat} {cs rest : List Char} {d : Document}
    (hItems : ∀ {depth cs ds rest}, items fuel depth cs = some (ds, rest) → ∀ d ∈ ds, InRange d)
    (hEntries : ∀ {depth es cs es' rest}, es.InRange → entries fuel depth es cs = some (es', rest) →
      es'.InRange)
    (h : value (fuel + 1) depth cs = some (d, rest)) : InRange d := by
  rw [value.eq_def] at h
  dsimp only at h
  split at h
  · obtain ⟨p, -, hText⟩ := Option.map_eq_some_iff.mp h
    cases hText
    exact .text _
  · obtain ⟨p, -, hText⟩ := Option.map_eq_some_iff.mp h
    cases hText
    exact .text _
  · split at h
    · obtain ⟨p, hFound, hList⟩ := Option.map_eq_some_iff.mp h
      cases hList
      exact .list (hItems hFound)
    · cases h
  · split at h
    · split at h
      · cases h
        exact .table nofun
      · obtain ⟨p, hFound, hTable⟩ := Option.map_eq_some_iff.mp h
        cases hTable
        have hHeld : p.1.InRange := hEntries Entries.inRange_nil hFound
        exact table_inRange fun e hMem => (hHeld e hMem).toDocument
    · cases h
  · cases h
    exact .boolean _
  · cases h
    exact .boolean _
  · exact special_inRange h
  · exact special_inRange h
  · split at h
    · exact numeric_inRange h
    · cases h
  · cases h

theorem items_inRange_step {fuel depth : Nat} {cs rest : List Char} {ds : List Document}
    (hValue : ∀ {depth cs d rest}, value fuel depth cs = some (d, rest) → InRange d)
    (hItems : ∀ {depth cs ds rest}, items fuel depth cs = some (ds, rest) → ∀ d ∈ ds, InRange d)
    (h : items (fuel + 1) depth cs = some (ds, rest)) : ∀ d ∈ ds, InRange d := by
  rw [items.eq_def] at h
  dsimp only at h
  split at h
  · cases h
    nofun
  · split at h
    · cases h
    · next hFirst =>
      split at h
      · cases h
        exact List.forall_mem_singleton.mpr (hValue hFirst)
      · obtain ⟨p, hRest, hList⟩ := Option.map_eq_some_iff.mp h
        cases hList
        exact List.forall_mem_cons.mpr ⟨hValue hFirst, hItems hRest⟩
      · cases h

theorem entries_inRange_step {fuel depth : Nat} {es es' : Entries} {cs rest : List Char}
    (hValue : ∀ {depth cs d rest}, value fuel depth cs = some (d, rest) → InRange d)
    (hEntries : ∀ {depth es cs es' rest}, es.InRange → entries fuel depth es cs = some (es', rest) →
      es'.InRange)
    (hes : es.InRange) (h : entries (fuel + 1) depth es cs = some (es', rest)) :
    es'.InRange := by
  rw [entries.eq_def] at h
  dsimp only at h
  split at h
  · split at h
    · cases h
    · next hFound =>
      split at h
      · cases h
      · next hInsert =>
        have hes := Entries.insertDotted_inRange (hValue hFound) hes hInsert
        split at h
        · cases h
          exact hes
        · exact hEntries hes h
        · cases h
  · cases h

/-- The three readers that call one another, each with less fuel. -/
theorem readers_inRange (fuel : Nat) :
    (∀ {depth cs d rest}, value fuel depth cs = some (d, rest) → InRange d) ∧
      (∀ {depth cs ds rest}, items fuel depth cs = some (ds, rest) → ∀ d ∈ ds, InRange d) ∧
      ∀ {depth es cs es' rest}, Entries.InRange es → entries fuel depth es cs = some (es', rest) →
        Entries.InRange es' := by
  induction fuel with
  | zero => exact ⟨nofun, nofun, nofun⟩
  | succ fuel ih =>
    obtain ⟨hValue, hItems, hEntries⟩ := ih
    exact ⟨value_inRange_step hItems hEntries, items_inRange_step hValue hItems,
      entries_inRange_step hValue hEntries⟩

theorem value_inRange {fuel depth : Nat} {cs rest : List Char} {d : Document}
    (h : value fuel depth cs = some (d, rest)) : InRange d := (readers_inRange fuel).1 h

variable {p q : Progress} {cs rest : List Char}

theorem header_inRange (hp : p.root.InRange) (h : header p cs = some (q, rest)) :
    q.root.InRange := by
  unfold header at h
  split at h
  · split at h
    · obtain ⟨root, hRoot, hSame⟩ := Option.map_eq_some_iff.mp h
      cases hSame
      exact Entries.append_inRange hp hRoot
    · cases h
  · split at h
    · obtain ⟨root, hRoot, hSame⟩ := Option.map_eq_some_iff.mp h
      cases hSame
      exact Entries.define_inRange hp hRoot
    · cases h

theorem keyValue_inRange {fuel : Nat} (hp : p.root.InRange)
    (h : keyValue fuel p cs = some (q, rest)) : q.root.InRange := by
  unfold keyValue at h
  split at h
  · split at h
    · cases h
    · next hFound =>
      split at h
      · next hInsert =>
        cases h
        exact Entries.insert_inRange (value_inRange hFound) hp hInsert
      · cases h
  · cases h

theorem lines_inRange {limit fuel : Nat} (hp : p.root.InRange)
    (h : lines limit fuel p cs = some q) : q.root.InRange := by
  induction fuel generalizing p cs with
  | zero => cases h
  | succ fuel ih =>
    rw [lines.eq_def] at h
    dsimp only at h
    split at h
    · cases h
      exact hp
    · split at h
      · exact ih hp h
      · cases h
    · split at h
      · next hHeader => exact ih (header_inRange hp hHeader) h
      · cases h
    · split at h
      · split at h
        · exact ih hp h
        · cases h
      · split at h
        · next hLine => exact ih (keyValue_inRange hp hLine) h
        · cases h

/-- No TOML text says an integer that is out of range. -/
theorem inRange_of_parse {s : String} {d : Document} (h : parse s = some d) : InRange d := by
  obtain ⟨q, hLines, rfl⟩ := Option.map_eq_some_iff.mp h
  have hRoot : q.root.InRange := lines_inRange (p := ⟨[], []⟩) Entries.inRange_nil hLines
  exact table_inRange fun e hMem => (hRoot e hMem).toDocument

end Gatehouse.Toml
