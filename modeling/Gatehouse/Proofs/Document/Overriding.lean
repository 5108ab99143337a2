import Gatehouse.Document.Basic
import Mathlib.Data.List.Nodup

/-!
# Documents that override others

A document may give some of the entries of another one, at any depth. What it does not give stays
as it was, and what it gives besides is ignored. So it makes no difference in which order the
entries stand, and which there are that nobody knows.

* `override`: a document with what another one gives.
* `Restated`: the same but for the order of keys and for unknown ones, at every level.
* `Restated.override_eq`: which makes no difference.
* `Shape.Fits`: a document of the expected form, with any keys beside the expected ones.
-/

namespace Gatehouse.Document

mutual

/-- A document, with what another one gives in its places. -/
def override : Document → Document → Document
  | .table entries, .table given => .table (overrideEntries given entries)
  | _, given => given

def overrideEntries (given : List (String × Document)) :
    List (String × Document) → List (String × Document)
  | [] => []
  | (name, value) :: rest =>
    (name, match lookup? given name with
      | some v => value.override v
      | none => value) :: overrideEntries given rest

end

/-- The value at a place, with what is given there. -/
def overrideBy? (value : Document) : Option Document → Document
  | some v => value.override v
  | none => value

variable {base d d' : Document} {known given given' : List (String × Document)}

theorem overrideEntries_eq (given known : List (String × Document)) :
    overrideEntries given known =
      known.map fun e => (e.1, e.2.overrideBy? (lookup? given e.1)) := by
  induction known with
  | nil => rw [overrideEntries, List.map_nil]
  | cons e known ih =>
    rw [overrideEntries, ih]
    rfl

theorem override_table (known given : List (String × Document)) :
    (table known).override (.table given) =
      .table (known.map fun e => (e.1, e.2.overrideBy? (lookup? given e.1))) := by
  rw [override, overrideEntries_eq]

/-! ## Looking up -/

theorem lookup?_cons_self (name : String) (v : Document) (entries : List (String × Document)) :
    lookup? ((name, v) :: entries) name = some v := by
  simp [lookup?]

theorem lookup?_cons_of_ne {name key : String} (h : key ≠ name) (v : Document)
    (entries : List (String × Document)) :
    lookup? ((key, v) :: entries) name = lookup? entries name := by
  simp [lookup?, h]

/-- Where every key is there once, what is found are the entries. -/
theorem lookup?_eq_some_iff {entries : List (String × Document)}
    (hKeys : (entries.map Prod.fst).Nodup) {name : String} {v : Document} :
    lookup? entries name = some v ↔ (name, v) ∈ entries := by
  induction entries with
  | nil => simp [lookup?]
  | cons e entries ih =>
    obtain ⟨key, w⟩ := e
    rw [List.map_cons, List.nodup_cons] at hKeys
    by_cases hKey : key = name
    · subst hKey
      rw [lookup?_cons_self, List.mem_cons, Option.some.injEq]
      constructor
      · rintro rfl
        exact .inl rfl
      · rintro (hHere | hMem)
        · exact (Prod.mk.inj hHere).2.symm
        · exact absurd (List.mem_map_of_mem hMem) hKeys.1
    · rw [lookup?_cons_of_ne hKey, ih hKeys.2, List.mem_cons]
      constructor
      · exact .inr
      · rintro (hHere | hMem)
        · exact absurd (Prod.mk.inj hHere).1.symm hKey
        · exact hMem

theorem lookup?_perm (hKeys : (given.map Prod.fst).Nodup) (h : given.Perm given')
    (name : String) : lookup? given' name = lookup? given name := by
  have hKeys' := (h.map Prod.fst).nodup_iff.mp hKeys
  refine Option.ext fun v => ?_
  rw [lookup?_eq_some_iff hKeys', lookup?_eq_some_iff hKeys, h.mem_iff]

/-- Another value of a key matters to nobody who looks for other keys. -/
theorem lookup?_replace (before after : List (String × Document)) (key name : String)
    (v v' : Document) :
    lookup? (before ++ (key, v') :: after) name = lookup? (before ++ (key, v) :: after) name ∨
      key = name ∧ lookup? (before ++ (key, v') :: after) name = some v' ∧
        lookup? (before ++ (key, v) :: after) name = some v := by
  induction before with
  | nil =>
    by_cases hKey : key = name
    · subst hKey
      exact .inr ⟨rfl, lookup?_cons_self _ _ _, lookup?_cons_self _ _ _⟩
    · rw [List.nil_append, List.nil_append, lookup?_cons_of_ne hKey, lookup?_cons_of_ne hKey]
      exact .inl rfl
  | cons e before ih =>
    obtain ⟨first, w⟩ := e
    by_cases hKey : first = name
    · subst hKey
      rw [List.cons_append, List.cons_append, lookup?_cons_self, lookup?_cons_self]
      exact .inl rfl
    · rw [List.cons_append, List.cons_append, lookup?_cons_of_ne hKey, lookup?_cons_of_ne hKey]
      exact ih

/-! ## Restatements -/

/-- The same document but for the order of keys, at every level, and for keys that are not known
there. -/
inductive Restated : Document → Document → Document → Prop where
  | order {known given given' : List (String × Document)} (hKeys : (given.map Prod.fst).Nodup)
      (h : given.Perm given') : Restated (.table known) (.table given) (.table given')
  | unknown {known given : List (String × Document)} {name : String}
      (hName : name ∉ known.map Prod.fst) (v : Document) :
      Restated (.table known) (.table given) (.table ((name, v) :: given))
  | inside {known : List (String × Document)} {name : String} {v v' : Document}
      (before after : List (String × Document))
      (h : ∀ value, (name, value) ∈ known → Restated value v v') :
      Restated (.table known) (.table (before ++ (name, v) :: after))
        (.table (before ++ (name, v') :: after))
  | symm {base d d' : Document} (h : Restated base d d') : Restated base d' d
  | trans {base d d' d'' : Document} (h : Restated base d d') (h' : Restated base d' d'') :
      Restated base d d''

theorem override_table_congr
    (h : ∀ e ∈ known, e.2.overrideBy? (lookup? given' e.1) = e.2.overrideBy? (lookup? given e.1)) :
    (table known).override (.table given') = (table known).override (.table given) := by
  rw [override_table, override_table]
  refine congrArg table (List.map_congr_left fun e he => ?_)
  rw [h e he]

/-- A restatement overrides the same by the same. -/
theorem Restated.override_eq (h : Restated base d d') : base.override d' = base.override d := by
  induction h with
  | order hKeys hPerm =>
    refine override_table_congr fun e _ => ?_
    rw [lookup?_perm hKeys hPerm]
  | unknown hName v =>
    refine override_table_congr fun e he => ?_
    rw [lookup?_cons_of_ne]
    rintro rfl
    exact hName (List.mem_map_of_mem he)
  | @inside known name v v' before after _ ih =>
    refine override_table_congr fun e he => ?_
    rcases lookup?_replace before after name e.1 v v' with hSame | ⟨hName, hNew, hOld⟩
    · rw [hSame]
    · rw [hNew, hOld]
      refine ih e.2 ?_
      rw [hName]
      exact he
  | symm _ ih => exact ih.symm
  | trans _ _ ih ih' => exact ih'.trans ih

/-! ## Expected forms -/

/-- What a value is expected to be. -/
inductive Shape where
  | text
  | boolean
  | natural (bound : Nat)
  | choice (names : List String)
  | table (fields : List (String × Shape))

/-- A document of the expected form. A table gives any of the expected entries, and any others, each
under a key of its own. -/
inductive Shape.Fits : Shape → Document → Prop where
  | text (s : String) : Fits .text (.text s)
  | boolean (b : Bool) : Fits .boolean (.boolean b)
  | natural {bound n : Nat} (h : n < bound) : Fits (.natural bound) (.integer n)
  | choice {names : List String} {name : String} (h : name ∈ names) :
      Fits (.choice names) (.text name)
  | table {fields : List (String × Shape)} {given : List (String × Document)}
      (hKeys : (given.map Prod.fst).Nodup)
      (h : ∀ f ∈ fields, ∀ v, lookup? given f.1 = some v → Fits f.2 v) :
      Fits (.table fields) (.table given)

end Gatehouse.Document
