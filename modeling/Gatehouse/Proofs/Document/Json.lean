import Gatehouse.Document.Json.Printer
import Gatehouse.Document.Json.Reader
import Mathlib.Data.List.Basic
import Mathlib.Data.List.TakeDrop
import Mathlib.Data.List.TakeWhile
import Mathlib.Tactic.IntervalCases

/-!
# Reading what was written as JSON

A document of texts, integers, truth values, lists and tables is read back as it was written. The
reader of a value stops where the value ends, so that anything may follow it that cannot be taken
for more of a number.

* `readString_quoted`: a string, with all its escapes.
* `readNumber_integer`: an integer.
* `readValue_chars`: a document, with something behind it.
* `parse_render`: a whole text.
-/

namespace Gatehouse.Document.Json

/-! ## Strings -/

theorem hexValue?_hexDigit : ∀ n < 16, hexValue? (hexDigit n) = some n := by decide

/-- A control is written by the number that it has. -/
theorem readString_control {c : Char} (h : c.toNat < 0x20) (cs : List Char) :
    readString .plain
        ('\\' :: 'u' :: '0' :: '0' :: hexDigit (c.toNat / 16) :: hexDigit (c.toNat % 16) :: cs) =
      consChar c (readString .plain cs) := by
  have hHigh := hexValue?_hexDigit (c.toNat / 16) (by omega)
  have hLow := hexValue?_hexDigit (c.toNat % 16) (by omega)
  have hZero : hexValue? '0' = some 0 := rfl
  have hWhole : c.toNat / 16 * 16 + c.toNat % 16 = c.toNat := by omega
  have hFinish : finishUnit none c.toNat = some (some c, .plain) := by
    have hScalar : ¬ (0xD800 ≤ c.toNat ∧ c.toNat < 0xDC00) := by omega
    have hChar : scalar? c.toNat = some c := by
      rw [scalar?, if_pos (by omega), Char.ofNat_toNat]
    simp only [finishUnit, if_neg hScalar, hChar, Option.map_some]
  simp [readString, hZero, hHigh, hLow, hWhole, hFinish]

theorem readString_escapeChar (c : Char) (cs : List Char) :
    readString .plain (escapeChar c ++ cs) = consChar c (readString .plain cs) := by
  unfold escapeChar
  split_ifs with hQuote hBackslash hBackspace hFormFeed hNewline hReturn hTab hControl
  · rw [hQuote]
    rfl
  · rw [hBackslash]
    rfl
  · rw [hBackspace]
    rfl
  · rw [hFormFeed]
    rfl
  · rw [hNewline]
    rfl
  · rw [hReturn]
    rfl
  · rw [hTab]
    rfl
  · exact readString_control hControl cs
  · simp [readString, hQuote, hBackslash, hControl]

theorem readString_quoted (s rest : List Char) :
    readString .plain (s.flatMap escapeChar ++ '"' :: rest) = some (s, rest) := by
  induction s with
  | nil => rfl
  | cons c s ih =>
    rw [List.flatMap_cons, List.append_assoc, readString_escapeChar, ih]
    rfl

/-! ## Integers -/

/-- What follows cannot be taken for more of a number. -/
def EndsNumber (rest : List Char) : Prop :=
  ∀ c ∈ rest.head?, c.isDigit = false ∧ c ≠ '.' ∧ c ≠ 'e' ∧ c ≠ 'E'

theorem digitsValue_toDigits (n : Nat) : digitsValue (Nat.toDigits 10 n) = n := by
  have hValue : digitsValue (Nat.toDigits 10 n) = Nat.ofDigitChars 10 (Nat.toDigits 10 n) 0 := by
    unfold digitsValue Nat.ofDigitChars
    congr 1
    funext m d
    rw [Nat.mul_comm]
    rfl
  rw [hValue, Nat.ofDigitChars_toDigits (by decide) (by decide)]

theorem span_digits {ds rest : List Char} (hDigits : ∀ c ∈ ds, c.isDigit = true)
    (hEnds : EndsNumber rest) : (ds ++ rest).span Char.isDigit = (ds, rest) := by
  have hRest : rest.takeWhile Char.isDigit = [] ∧ rest.dropWhile Char.isDigit = rest := by
    cases rest with
    | nil => exact ⟨rfl, rfl⟩
    | cons c rest =>
      have hOther := (hEnds c rfl).1
      simp [hOther]
  rw [List.span_eq_takeWhile_dropWhile, List.takeWhile_append_of_pos hDigits,
    List.dropWhile_append_of_pos hDigits, hRest.1, hRest.2, List.append_nil]

/-- Only the number zero has a zero in front. -/
theorem eq_zero_of_head?_toDigits {n : Nat} (h : (Nat.toDigits 10 n).head? = some '0') : n = 0 := by
  induction n using Nat.strong_induction_on with
  | _ n ih =>
    rw [Nat.toDigits_eq_if (by decide)] at h
    split at h
    · next hSmall =>
      interval_cases n <;> first | rfl | cases h
    · next hLarge =>
      rw [List.head?_append_of_ne_nil _ Nat.toDigits_ne_nil] at h
      have hNone := ih (n / 10) (by omega) h
      omega

theorem readFraction_of_ends {rest : List Char} (h : EndsNumber rest) :
    readFraction rest = some (none, rest) := by
  unfold readFraction
  split
  · exact absurd rfl (h '.' rfl).2.1
  · rfl

theorem readExponent_of_ends {rest : List Char} (h : EndsNumber rest) :
    readExponent rest = some (none, rest) := by
  unfold readExponent
  split
  · next c rest =>
    obtain ⟨-, -, hLower, hUpper⟩ := h c rfl
    rw [if_neg (not_or.mpr ⟨hLower, hUpper⟩)]
  · rfl

theorem isEmpty_toDigits (n : Nat) : (Nat.toDigits 10 n).isEmpty = false :=
  List.isEmpty_eq_false_iff.mpr Nat.toDigits_ne_nil

/-- No zero stands in front of other digits. -/
theorem leading_toDigits (n : Nat) :
    ¬ ((Nat.toDigits 10 n).isEmpty = true ∨
      (Nat.toDigits 10 n).head? = some '0' ∧ (Nat.toDigits 10 n).length ≠ 1) := by
  rw [isEmpty_toDigits, not_or]
  refine ⟨Bool.false_ne_true, ?_⟩
  rintro ⟨hZero, hLong⟩
  rw [eq_zero_of_head?_toDigits hZero] at hLong
  exact hLong rfl

theorem isDigit_toDigits {n : Nat} : ∀ c ∈ Nat.toDigits 10 n, c.isDigit = true :=
  fun _ hc => Nat.isDigit_of_mem_toDigits (by decide) (by decide) hc

theorem readNumber_natural (n : Nat) {rest : List Char} (hEnds : EndsNumber rest) :
    readNumber (Nat.toDigits 10 n ++ rest) = some (.integer n, rest) := by
  have hSpan := span_digits (isDigit_toDigits (n := n)) hEnds
  have hSign : ∀ cs, Nat.toDigits 10 n ++ rest ≠ '-' :: cs := by
    intro cs hMinus
    rw [hMinus, List.span_eq_takeWhile_dropWhile] at hSpan
    exact Nat.toDigits_ne_nil (Prod.mk.inj hSpan).1.symm
  unfold readNumber
  split
  next negative cs hHead =>
    split at hHead
    · next hMinus => exact absurd hMinus (hSign _)
    · cases hHead
      simp only [hSpan, if_neg (leading_toDigits n), readFraction_of_ends hEnds,
        Option.bind_eq_bind, Option.bind_some, readExponent_of_ends hEnds]
      simp [digitsValue_toDigits]

theorem readNumber_negative {n : Nat} (hPos : 0 < n) {rest : List Char} (hEnds : EndsNumber rest) :
    readNumber ('-' :: (Nat.toDigits 10 n ++ rest)) = some (.integer (-n), rest) := by
  have hSpan := span_digits (isDigit_toDigits (n := n)) hEnds
  have hZero : ¬ (n : Int) = 0 := by omega
  simp only [readNumber, hSpan, if_neg (leading_toDigits n), readFraction_of_ends hEnds,
    Option.bind_eq_bind, Option.bind_some, readExponent_of_ends hEnds]
  simp [digitsValue_toDigits, hPos.ne']

/-- An integer is written as a natural number, with a sign in front if it is negative. -/
theorem integer_cases (n : Int) :
    (∃ m : Nat, n = m ∧ (toString n).toList = Nat.toDigits 10 m) ∨
      ∃ m : Nat, 0 < m ∧ n = -m ∧ (toString n).toList = '-' :: Nat.toDigits 10 m := by
  cases n with
  | ofNat m => exact .inl ⟨m, rfl, by simp [Int.toString_eq_repr, Int.repr_eq_if]⟩
  | negSucc m =>
    exact .inr ⟨m + 1, by omega, rfl, by simp [Int.toString_eq_repr, Int.repr_eq_if]⟩

theorem readNumber_integer (n : Int) {rest : List Char} (hEnds : EndsNumber rest) :
    readNumber ((toString n).toList ++ rest) = some (.integer n, rest) := by
  rcases integer_cases n with ⟨m, rfl, hChars⟩ | ⟨m, hPos, rfl, hChars⟩
  · rw [hChars]
    exact readNumber_natural m hEnds
  · rw [hChars]
    exact readNumber_negative hPos hEnds

/-! ## Documents -/

/-- A document that JSON can say: there are no decimals and no dates in it. -/
inductive Plain : Document → Prop where
  | null : Plain .null
  | boolean (b : Bool) : Plain (.boolean b)
  | integer (n : Int) : Plain (.integer n)
  | text (s : String) : Plain (.text s)
  | list {items : List Document} (h : ∀ d ∈ items, Plain d) : Plain (.list items)
  | table {entries : List (String × Document)} (h : ∀ e ∈ entries, Plain e.2) :
      Plain (.table entries)

theorem plain_table {entries : List (String × Document)} :
    Plain (.table entries) ↔ ∀ e ∈ entries, Plain e.2 := by
  constructor
  · rintro ⟨⟩
    assumption
  · exact .table

theorem exists_head_integer (n : Int) :
    ∃ c cs, (toString n).toList = c :: cs ∧ (c.isDigit = true ∨ c = '-') := by
  rcases integer_cases n with ⟨m, -, hChars⟩ | ⟨m, -, -, hChars⟩
  · cases hDigits : Nat.toDigits 10 m with
    | nil => exact absurd hDigits Nat.toDigits_ne_nil
    | cons c cs =>
      refine ⟨c, cs, hChars.trans hDigits, .inl (isDigit_toDigits (n := m) c ?_)⟩
      rw [hDigits]
      exact List.mem_cons_self
  · exact ⟨'-', _, hChars, .inr rfl⟩

/-- A character that begins a number begins nothing else. -/
theorem ne_of_begins_number {c : Char} (h : c.isDigit = true ∨ c = '-') :
    isBlank c = false ∧ c ≠ ']' ∧ c ≠ 'n' ∧ c ≠ 't' ∧ c ≠ 'f' ∧ c ≠ '"' ∧ c ≠ '[' ∧
      c ≠ '\x7b' := by
  have hNot : ∀ d : Char, d.isDigit = false → d ≠ '-' → c ≠ d := by
    rintro d hDigit hSign rfl
    rcases h with hTrue | hTrue
    · cases hDigit.symm.trans hTrue
    · exact hSign hTrue
  refine ⟨?_, hNot _ rfl (by decide), hNot _ rfl (by decide), hNot _ rfl (by decide),
    hNot _ rfl (by decide), hNot _ rfl (by decide), hNot _ rfl (by decide), hNot _ rfl (by decide)⟩
  have hSpace := hNot ' ' rfl (by decide)
  have hTab := hNot '\t' rfl (by decide)
  have hLine := hNot '\n' rfl (by decide)
  have hReturn := hNot '\r' rfl (by decide)
  simp [isBlank, hSpace, hTab, hLine, hReturn]

/-- A value starts with a character that is neither a blank nor the end of a list. -/
theorem exists_head_chars {d : Document} (h : Plain d) :
    ∃ c cs, chars d = c :: cs ∧ isBlank c = false ∧ c ≠ ']' := by
  cases h with
  | null => exact ⟨'n', _, rfl, rfl, by decide⟩
  | boolean b =>
    cases b with
    | true => exact ⟨'t', _, rfl, rfl, by decide⟩
    | false => exact ⟨'f', _, rfl, rfl, by decide⟩
  | integer n =>
    obtain ⟨c, cs, hChars, hBegins⟩ := exists_head_integer n
    obtain ⟨hBlank, hEnd, -⟩ := ne_of_begins_number hBegins
    exact ⟨c, cs, hChars, hBlank, hEnd⟩
  | text s => exact ⟨'"', _, rfl, rfl, by decide⟩
  | list => exact ⟨'[', _, rfl, rfl, by decide⟩
  | table => exact ⟨'\x7b', _, rfl, rfl, by decide⟩

theorem skipBlank_cons {c : Char} (h : isBlank c = false) (cs : List Char) :
    skipBlank (c :: cs) = c :: cs := by
  simp [skipBlank, h]

/-- The document is read where it stands, if there is enough fuel and what follows is no more of a
number. -/
def Reads (d : Document) : Prop :=
  ∀ fuel rest, 2 * (chars d).length ≤ fuel → EndsNumber rest →
    readValue fuel (chars d ++ rest) = some (d, rest)

/-- There is fuel for at least one reader. -/
theorem reads_of_succ {d : Document} (hPlain : Plain d)
    (h : ∀ fuel rest, 2 * (chars d).length ≤ fuel + 1 → EndsNumber rest →
      readValue (fuel + 1) (chars d ++ rest) = some (d, rest)) : Reads d := by
  intro fuel rest hFuel hEnds
  obtain ⟨c, cs, hChars, -⟩ := exists_head_chars hPlain
  rw [hChars, List.length_cons] at hFuel
  obtain ⟨fuel, rfl⟩ : ∃ k, fuel = k + 1 := ⟨fuel - 1, by omega⟩
  refine h fuel rest ?_ hEnds
  rw [hChars, List.length_cons]
  exact hFuel

theorem reads_integer (n : Int) : Reads (.integer n) := by
  refine reads_of_succ (.integer n) fun fuel rest _ hEnds => ?_
  obtain ⟨c, cs, hChars, hBegins⟩ := exists_head_integer n
  obtain ⟨hBlank, -, hNull, hTrue, hFalse, hText, hList, hTable⟩ := ne_of_begins_number hBegins
  have hNumber := readNumber_integer n hEnds
  rw [hChars, List.cons_append] at hNumber
  rw [chars, hChars, List.cons_append, readValue, skipBlank_cons hBlank]
  split
  case h_7 => exact hNumber
  all_goals next heq => exact absurd (List.cons.inj heq).1 (by assumption)

theorem reads_text (s : String) : Reads (.text s) := by
  refine reads_of_succ (.text s) fun fuel rest _ _ => ?_
  have hString := readString_quoted s.toList rest
  rw [chars, quoted, List.cons_append, List.append_assoc, List.singleton_append, readValue,
    skipBlank_cons rfl]
  simp only [hString, Option.map_some, String.ofList_toList]

/-! ### Lists and tables -/

theorem endsNumber_cons {c : Char} (h : c.isDigit = false ∧ c ≠ '.' ∧ c ≠ 'e' ∧ c ≠ 'E')
    (rest : List Char) : EndsNumber (c :: rest) := by
  rintro d ⟨⟩
  exact h

theorem readItems_chars {items : List Document} (hNe : items ≠ []) (h : ∀ d ∈ items, Reads d)
    (fuel : Nat) (rest : List Char) (hFuel : 2 * (itemChars items).length < fuel) :
    readItems fuel (itemChars items ++ ']' :: rest) = some (items, rest) := by
  induction items generalizing fuel with
  | nil => exact absurd rfl hNe
  | cons item items ih =>
    obtain ⟨fuel, rfl⟩ : ∃ k, fuel = k + 1 := ⟨fuel - 1, by omega⟩
    cases items with
    | nil =>
      have hItem := h item List.mem_cons_self fuel (']' :: rest)
        (by simp only [itemChars] at hFuel; omega) (endsNumber_cons (by decide) _)
      rw [itemChars, readItems, hItem]
      rfl
    | cons next items =>
      have hChars : itemChars (item :: next :: items) =
        chars item ++ ',' :: itemChars (next :: items) := rfl
      rw [hChars, List.length_append, List.length_cons] at hFuel
      have hItem := h item List.mem_cons_self fuel
        (',' :: (itemChars (next :: items) ++ ']' :: rest)) (by omega)
        (endsNumber_cons (by decide) _)
      have hRest := ih (List.cons_ne_nil _ _) (fun d hd => h d (List.mem_cons_of_mem _ hd))
        fuel (by omega)
      rw [hChars, List.append_assoc, List.cons_append, readItems, hItem]
      simp only [skipBlank_cons (show isBlank ',' = false from rfl), hRest, Option.map_some]

/-- What stands behind an entry says whether there are more. -/
def afterEntry (fuel : Nat) (name : String) (value : Document) (rest : List Char) :
    Option (List (String × Document) × List Char) :=
  match skipBlank rest with
  | '\x7d' :: rest => some ([(name, value)], rest)
  | ',' :: rest => (readEntries fuel rest).map fun p => ((name, value) :: p.1, p.2)
  | _ => none

theorem readEntries_entry {fuel : Nat} {value : Document} {rest : List Char}
    (hValue : readValue fuel (chars value ++ rest) = some (value, rest)) (name : String) :
    readEntries (fuel + 1) (quoted name.toList ++ ':' :: (chars value ++ rest)) =
      afterEntry fuel name value rest := by
  have hName := readString_quoted name.toList (':' :: (chars value ++ rest))
  rw [quoted, List.cons_append, List.append_assoc, List.singleton_append, readEntries,
    skipBlank_cons rfl]
  simp only [hName, skipBlank_cons (show isBlank ':' = false from rfl), hValue,
    String.ofList_toList]
  rfl

theorem readEntries_chars {entries : List (String × Document)} (hNe : entries ≠ [])
    (h : ∀ e ∈ entries, Reads e.2) (fuel : Nat) (rest : List Char)
    (hFuel : 2 * (entryChars entries).length < fuel) :
    readEntries fuel (entryChars entries ++ '\x7d' :: rest) = some (entries, rest) := by
  induction entries generalizing fuel with
  | nil => exact absurd rfl hNe
  | cons entry entries ih =>
    obtain ⟨fuel, rfl⟩ : ∃ k, fuel = k + 1 := ⟨fuel - 1, by omega⟩
    obtain ⟨name, value⟩ := entry
    have hValue : Reads value := h (name, value) List.mem_cons_self
    cases entries with
    | nil =>
      have hChars : entryChars [(name, value)] = quoted name.toList ++ ':' :: chars value := rfl
      rw [hChars, List.length_append, List.length_cons] at hFuel
      have hHere := hValue fuel ('\x7d' :: rest) (by omega) (endsNumber_cons (by decide) _)
      rw [hChars, List.append_assoc, List.cons_append, readEntries_entry hHere]
      rfl
    | cons next entries =>
      have hChars : entryChars ((name, value) :: next :: entries) =
        quoted name.toList ++ ':' :: (chars value ++ ',' :: entryChars (next :: entries)) := rfl
      rw [hChars, List.length_append, List.length_cons, List.length_append,
        List.length_cons] at hFuel
      have hHere := hValue fuel (',' :: (entryChars (next :: entries) ++ '\x7d' :: rest)) (by omega)
        (endsNumber_cons (by decide) _)
      have hRest := ih (List.cons_ne_nil _ _) (fun e he => h e (List.mem_cons_of_mem _ he))
        fuel (by omega)
      rw [hChars, List.append_assoc, List.cons_append, List.append_assoc, List.cons_append,
        readEntries_entry hHere, afterEntry, skipBlank_cons rfl]
      simp only [hRest, Option.map_some]

theorem readValue_list (fuel : Nat) (cs : List Char) :
    readValue (fuel + 1) ('[' :: cs) =
      match skipBlank cs with
      | ']' :: rest => some (.list [], rest)
      | rest => (readItems fuel rest).map fun p => (.list p.1, p.2) := rfl

theorem readValue_table (fuel : Nat) (cs : List Char) :
    readValue (fuel + 1) ('\x7b' :: cs) =
      match skipBlank cs with
      | '\x7d' :: rest => some (.table [], rest)
      | rest => (readEntries fuel rest).map fun p => (.table p.1, p.2) := rfl

theorem reads_list {items : List Document} (hPlain : ∀ d ∈ items, Plain d)
    (h : ∀ d ∈ items, Reads d) : Reads (.list items) := by
  refine reads_of_succ (.list hPlain) fun fuel rest hFuel _ => ?_
  rw [chars, List.length_cons, List.length_append, List.length_singleton] at hFuel
  rw [chars, List.cons_append, List.append_assoc, List.singleton_append, readValue_list]
  cases items with
  | nil => rfl
  | cons item items =>
    have hItems := readItems_chars (List.cons_ne_nil item items) h fuel rest
      (by omega)
    -- the first item does not look like the end of the list
    obtain ⟨c, cs, hChars, hBlank, hEnd⟩ := exists_head_chars (hPlain item List.mem_cons_self)
    obtain ⟨tail, hTail⟩ : ∃ tail, itemChars (item :: items) ++ ']' :: rest = c :: tail := by
      cases items with
      | nil => exact ⟨cs ++ ']' :: rest, congrArg (· ++ ']' :: rest) hChars⟩
      | cons next items =>
        exact ⟨_, congrArg (· ++ ',' :: itemChars (next :: items) ++ ']' :: rest) hChars⟩
    rw [hTail] at hItems ⊢
    rw [skipBlank_cons hBlank]
    split
    · next hClose => exact absurd (List.cons.inj hClose).1 hEnd
    · rw [hItems, Option.map_some]

theorem reads_table {entries : List (String × Document)} (hPlain : ∀ e ∈ entries, Plain e.2)
    (h : ∀ e ∈ entries, Reads e.2) : Reads (.table entries) := by
  refine reads_of_succ (.table hPlain) fun fuel rest hFuel _ => ?_
  rw [chars, List.length_cons, List.length_append, List.length_singleton] at hFuel
  rw [chars, List.cons_append, List.append_assoc, List.singleton_append, readValue_table]
  cases entries with
  | nil => rfl
  | cons entry entries =>
    have hEntries := readEntries_chars (List.cons_ne_nil entry entries) h fuel rest
      (by omega)
    obtain ⟨tail, hTail⟩ :
        ∃ tail, entryChars (entry :: entries) ++ '\x7d' :: rest = '"' :: tail := by
      cases entries <;> exact ⟨_, rfl⟩
    rw [hTail] at hEntries ⊢
    rw [skipBlank_cons rfl]
    split
    · next hClose => exact absurd (List.cons.inj hClose).1 (by decide)
    · rw [hEntries, Option.map_some]

/-- Every document that JSON can say is read where it stands. -/
theorem readValue_chars {d : Document} (h : Plain d) : Reads d := by
  induction h with
  | null => exact reads_of_succ .null fun _ _ _ _ => rfl
  | boolean b => exact reads_of_succ (.boolean b) fun _ _ _ _ => by cases b <;> rfl
  | integer n => exact reads_integer n
  | text s => exact reads_text s
  | list hPlain ih => exact reads_list hPlain ih
  | table hPlain ih => exact reads_table hPlain ih

/-- A document of texts, integers, truth values, lists and tables is read back from its JSON as it
was, whatever characters there are in its texts. -/
theorem parse_render {d : Document} (h : Plain d) : parse (render d) = some d := by
  have hRead := readValue_chars h (2 * (chars d).length + 2) [] (by omega) nofun
  rw [List.append_nil] at hRead
  rw [parse, render, String.toList_ofList, parseChars, hRead]
  rfl

/-- Documents that JSON can say are told apart by it. -/
theorem render_injective {d e : Document} (hd : Plain d) (he : Plain e)
    (h : render d = render e) : d = e := by
  have hSame := parse_render hd
  rw [h, parse_render he] at hSame
  exact (Option.some.inj hSame).symm

end Gatehouse.Document.Json
