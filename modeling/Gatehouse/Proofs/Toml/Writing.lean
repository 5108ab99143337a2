import Gatehouse.Proofs.Document.Json
import Gatehouse.Toml.Reader

/-!
# Reading what was written as TOML

A table is written line by line, each entry with its value, and the tables within it in braces. What
is written in this way is read back, if its keys are bare and different from each other, its numbers
fit into 64 bits with a sign, and tables do not nest too deep. This is one of the ways to say a
document in TOML, and enough to know that there is one.

* `text_quoted`: a string, with what has to be escaped.
* `numeric_natural`: a number, which is neither a date nor a fraction.
* `Writable`: the documents that are written; `reads_chars`: one value, with something behind it.
* `parse_render`: a whole text.
-/

namespace Gatehouse.Toml

open Document

/-! ## Writing -/

/-- One character of a string. What may not stand for itself is told by its number. -/
def escapeChar (c : Char) : List Char :=
  if isBasicChar c then [c]
  else ['\\', 'u', '0', '0', Json.hexDigit (c.toNat / 16), Json.hexDigit (c.toNat % 16)]

def quoted (s : List Char) : List Char := '"' :: (s.flatMap escapeChar ++ ['"'])

mutual

/-- A value. Only truth values, numbers, texts and tables are written. -/
def chars : Document → List Char
  | .boolean true => ['t', 'r', 'u', 'e']
  | .boolean false => ['f', 'a', 'l', 's', 'e']
  | .integer n => (toString n).toList
  | .text s => quoted s.toList
  | .table entries => '\x7b' :: (entryChars entries ++ ['\x7d'])
  | _ => []

def entryChars : List (String × Document) → List Char
  | [] => []
  | [(name, value)] => name.toList ++ '=' :: chars value
  | (name, value) :: rest => name.toList ++ '=' :: (chars value ++ ',' :: entryChars rest)

end

def lineChars (entries : List (String × Document)) : List Char :=
  entries.flatMap fun e => e.1.toList ++ '=' :: (chars e.2 ++ ['\n'])

/-- A document as a text. Only a table can be one. -/
def render : Document → String
  | .table entries => String.ofList (lineChars entries)
  | _ => ""

/-! ## Strings -/

theorem hexValue?_hexDigit : ∀ n < 16, hexValue? (Json.hexDigit n) = some n := by decide

/-- What has to be escaped is ASCII. -/
theorem toNat_lt_of_not_isBasicChar {c : Char} (h : isBasicChar c = false) : c.toNat < 0x80 := by
  simp only [isBasicChar, isNonAscii, Bool.or_eq_false_iff, decide_eq_false_iff_not] at h
  omega

theorem basic_escapeChar (c : Char) (cs : List Char) :
    basic .plain (escapeChar c ++ cs) = prepend [c] (basic .plain cs) := by
  unfold escapeChar
  split
  · next hBasic =>
    have hQuote : c ≠ '"' := by
      rintro rfl
      cases hBasic
    have hBackslash : c ≠ '\\' := by
      rintro rfl
      cases hBasic
    simp [basic, hQuote, hBackslash, hBasic]
  · next hOther =>
    have hAscii := toNat_lt_of_not_isBasicChar (Bool.not_eq_true _ ▸ hOther)
    have hHigh := hexValue?_hexDigit (c.toNat / 16) (by omega)
    have hLow := hexValue?_hexDigit (c.toNat % 16) (by omega)
    have hZero : hexValue? '0' = some 0 := rfl
    have hWhole : c.toNat / 16 * 16 + c.toNat % 16 = c.toNat := by omega
    have hChar : scalar? c.toNat = some c := by
      rw [scalar?, if_pos (by omega), Char.ofNat_toNat]
    simp [basic, onEscape, onDigit, hZero, hHigh, hLow, hWhole, hChar]

theorem basic_quoted (s rest : List Char) :
    basic .plain (s.flatMap escapeChar ++ '"' :: rest) = some (s, rest) := by
  induction s with
  | nil => simp [basic]
  | cons c s ih =>
    rw [List.flatMap_cons, List.append_assoc, basic_escapeChar, ih]
    rfl

theorem head_escapeChar (c : Char) : ∃ d cs, escapeChar c = d :: cs ∧ d ≠ '"' := by
  unfold escapeChar
  split
  · next hBasic =>
    refine ⟨c, [], rfl, ?_⟩
    rintro rfl
    cases hBasic
  · exact ⟨'\\', _, rfl, by decide⟩

/-- A string on one line is not taken for one on several lines. -/
theorem text_quoted (s : List Char) {rest : List Char} (hRest : rest.head? ≠ some '"') :
    text (quoted s ++ rest) = some (s, rest) := by
  have hBasic := basic_quoted s rest
  rw [quoted, List.cons_append, List.append_assoc, List.singleton_append]
  unfold text
  split
  · next more hThree =>
    exfalso
    have hTail := (List.cons.inj hThree).2
    cases s with
    | nil =>
      rw [List.flatMap_nil, List.nil_append] at hTail
      rw [(List.cons.inj hTail).2] at hRest
      exact hRest rfl
    | cons c s =>
      obtain ⟨d, cs, hHead, hNot⟩ := head_escapeChar c
      rw [List.flatMap_cons, hHead] at hTail
      exact hNot (List.cons.inj hTail).1
  · next more hOne =>
    rw [← (List.cons.inj hOne).2, hBasic]
  · next hOther => cases (List.cons.inj hOther).1
  · next hOther => cases (List.cons.inj hOther).1
  · next _ hNone _ _ => exact absurd rfl (hNone _)

/-! ## Numbers -/

/-- What follows a value: the next entry, the end of a table, or the end of a line. -/
def EndsValue (rest : List Char) : Prop :=
  ∃ c cs, rest = c :: cs ∧ (c = ',' ∨ c = '\x7d' ∨ c = '\n')

/-- What stands behind some digits that are followed by the end of a value. -/
theorem head_of_digits {ds rest : List Char} (hDigits : ∀ c ∈ ds, c.isDigit = true)
    (hEnds : EndsValue rest) : ∃ c cs, ds ++ rest = c :: cs ∧
      (c.isDigit = true ∨ c = ',' ∨ c = '\x7d' ∨ c = '\n') := by
  cases ds with
  | nil =>
    obtain ⟨c, cs, rfl, hEnd⟩ := hEnds
    exact ⟨c, cs, rfl, .inr hEnd⟩
  | cons d ds => exact ⟨d, ds ++ rest, rfl, .inl (hDigits d List.mem_cons_self)⟩

/-- Digits of a fixed number end among the digits, or right behind them. -/
theorem fixedDigits_digits {k : Nat} {ds rest found tail : List Char}
    (hDigits : ∀ c ∈ ds, c.isDigit = true) (hEnds : EndsValue rest)
    (h : fixedDigits k (ds ++ rest) = some (found, tail)) :
    ∃ c cs, tail = c :: cs ∧ (c.isDigit = true ∨ c = ',' ∨ c = '\x7d' ∨ c = '\n') := by
  induction k generalizing ds found with
  | zero =>
    cases h
    exact head_of_digits hDigits hEnds
  | succ k ih =>
    cases ds with
    | nil =>
      obtain ⟨c, cs, rfl, hEnd⟩ := hEnds
      have hNot : c.isDigit = false := by rcases hEnd with rfl | rfl | rfl <;> rfl
      simp [fixedDigits, hNot] at h
    | cons d ds =>
      have hDigit := hDigits d List.mem_cons_self
      simp only [List.cons_append, fixedDigits, hDigit, if_true, Option.map_eq_some_iff] at h
      obtain ⟨⟨found', tail'⟩, hRest, hSame⟩ := h
      cases hSame
      exact ih (fun c hMem => hDigits c (List.mem_cons_of_mem _ hMem)) hRest

theorem twoDigits_eq_some {low high m : Nat} {cs tail : List Char}
    (h : twoDigits low high cs = some (m, tail)) :
    ∃ found, fixedDigits 2 cs = some (found, tail) := by
  unfold twoDigits at h
  split at h
  · next found tail hFixed =>
    split at h
    · cases h
      exact ⟨found, hFixed⟩
    · cases h
  · cases h

/-- No zero stands in front of other digits. -/
theorem exists_head_toDigits (n : Nat) :
    ∃ d ds, Nat.toDigits 10 n = d :: ds ∧ d.isDigit = true ∧ (d = '0' → ds = []) := by
  cases hDigits : Nat.toDigits 10 n with
  | nil => exact absurd hDigits Nat.toDigits_ne_nil
  | cons d ds =>
    refine ⟨d, ds, rfl, Json.isDigit_toDigits (n := n) d ?_, ?_⟩
    · rw [hDigits]
      exact List.mem_cons_self
    · rintro rfl
      obtain rfl := Json.eq_zero_of_head?_toDigits (congrArg List.head? hDigits)
      cases hDigits
      rfl

theorem hexValue?_of_isDigit {c : Char} (h : c.isDigit = true) :
    hexValue? c = some (c.toNat - 0x30) := by
  have hRange : 0x30 ≤ c.toNat ∧ c.toNat ≤ 0x39 := by
    simpa [Char.isDigit, UInt32.le_iff_toNat_le] using h
  simp [hexValue?, hRange]

theorem digitsValue_toDigits (n : Nat) : digitsValue 10 (Nat.toDigits 10 n) = n := by
  have hSame : digitsValue 10 (Nat.toDigits 10 n) = Json.digitsValue (Nat.toDigits 10 n) := by
    refine List.foldl_ext _ _ _ fun m c hMem => ?_
    rw [hexValue?_of_isDigit (Json.isDigit_toDigits c hMem), Option.getD_some]
  rw [hSame, Json.digitsValue_toDigits]

theorem sign_of_isDigit {c : Char} (h : c.isDigit = true) (cs : List Char) :
    sign (c :: cs) = (false, c :: cs) := by
  unfold sign
  split
  · next hHead =>
    cases hHead
    cases h
  · next hHead =>
    cases hHead
    cases h
  · rfl

theorem special_of_isDigit {c : Char} (h : c.isDigit = true) (cs : List Char) :
    special (c :: cs) = none := by
  unfold special
  split
  · next hHead =>
    cases hHead
    cases h
  · next hHead =>
    cases hHead
    cases h
  · rfl

section Numbers

variable {n : Nat} {rest : List Char} (hEnds : EndsValue rest)

include hEnds

theorem hour_digits : hour (Nat.toDigits 10 n ++ rest) = none := by
  unfold hour
  dsimp only
  split
  · next tail hTwo =>
    obtain ⟨found, hFixed⟩ := twoDigits_eq_some hTwo
    obtain ⟨c, cs, hTail, hHead⟩ :=
      fixedDigits_digits Json.isDigit_toDigits hEnds hFixed
    cases hTail
    simp at hHead
  · rfl

/-- A number is no date and no time of day. -/
theorem moment_digits : moment (Nat.toDigits 10 n ++ rest) = none := by
  unfold moment
  split
  · next hFixed =>
    obtain ⟨c, cs, hTail, hHead⟩ :=
      fixedDigits_digits Json.isDigit_toDigits hEnds hFixed
    cases hTail
    simp at hHead
  · rw [hour_digits hEnds, Option.map_none]

theorem groupedDigits_digits {ds : List Char} (hDigits : ∀ c ∈ ds, c.isDigit = true) :
    groupedDigits Char.isDigit (ds ++ rest) = (ds, rest) := by
  induction ds with
  | nil =>
    obtain ⟨c, cs, rfl, rfl | rfl | rfl⟩ := hEnds <;> rfl
  | cons d ds ih =>
    have hDigit := hDigits d List.mem_cons_self
    have hRest := ih fun c hMem => hDigits c (List.mem_cons_of_mem _ hMem)
    rw [List.cons_append, groupedDigits.eq_def]
    split
    · next hHead =>
      obtain ⟨rfl, -⟩ := List.cons.inj hHead
      cases hDigit
    · next hHead =>
      obtain ⟨rfl, rfl⟩ := List.cons.inj hHead
      simp [hDigit, hRest]
    · next hHead => cases hHead

theorem decimalDigits_natural :
    decimalDigits (Nat.toDigits 10 n ++ rest) = some (Nat.toDigits 10 n, rest) := by
  obtain ⟨d, ds, hDigits, hDigit, hZero⟩ := exists_head_toDigits n
  have hGrouped := groupedDigits_digits hEnds (Json.isDigit_toDigits (n := n))
  rw [hDigits] at hGrouped ⊢
  unfold decimalDigits
  split
  · next hHead =>
    obtain ⟨rfl, rfl⟩ := List.cons.inj hHead
    rw [hZero rfl]
    rfl
  · rw [List.cons_append, digitRun, if_pos hDigit, ← List.cons_append, hGrouped]

/-- A number has no fraction and no exponent. -/
theorem float_natural : float (Nat.toDigits 10 n ++ rest) = none := by
  obtain ⟨d, ds, hDigits, hDigit, -⟩ := exists_head_toDigits n
  have hWhole := decimalDigits_natural (n := n) hEnds
  rw [hDigits, List.cons_append] at hWhole ⊢
  rw [float, sign_of_isDigit hDigit]
  dsimp only
  rw [special_of_isDigit hDigit]
  dsimp only
  rw [hWhole]
  obtain ⟨c, cs, rfl, rfl | rfl | rfl⟩ := hEnds <;> rfl

theorem integer_natural (hBound : n < 2 ^ 63) :
    integer (Nat.toDigits 10 n ++ rest) = some (.integer n, rest) := by
  obtain ⟨d, ds, hDigits, hDigit, hZero⟩ := exists_head_toDigits n
  have hWhole := decimalDigits_natural (n := n) hEnds
  have hSecond : ∀ c cs, d :: (ds ++ rest) = '0' :: c :: cs → c = ',' ∨ c = '\x7d' ∨ c = '\n' := by
    intro c cs hHead
    obtain ⟨hFirst, hTail⟩ := List.cons.inj hHead
    rw [hZero hFirst] at hTail
    obtain ⟨e, es, rfl, hEnd⟩ := hEnds
    cases hTail
    exact hEnd
  rw [hDigits, List.cons_append] at hWhole ⊢
  unfold integer
  split
  · next hHead => simpa using hSecond _ _ hHead
  · next hHead => simpa using hSecond _ _ hHead
  · next hHead => simpa using hSecond _ _ hHead
  · rw [sign_of_isDigit hDigit]
    dsimp only
    rw [hWhole, Option.bind_some, boundedInteger, ← hDigits, digitsValue_toDigits,
      if_neg Bool.false_ne_true, if_pos (show n < Nat.pow 2 63 from hBound)]

theorem numeric_natural (hBound : n < 2 ^ 63) :
    numeric (Nat.toDigits 10 n ++ rest) = some (.integer n, rest) := by
  rw [numeric, moment_digits hEnds, float_natural hEnds, integer_natural hEnds hBound]

end Numbers

/-! ## Keys -/

/-- A name that needs no quotes as a key. -/
def Bare (name : String) : Prop :=
  name.toList ≠ [] ∧ ∀ c ∈ name.toList, isBareKeyChar c = true

theorem isBlank_of_isBareKeyChar {c : Char} (h : isBareKeyChar c = true) : isBlank c = false := by
  rw [Bool.eq_false_iff]
  intro hBlank
  simp only [isBlank, Bool.or_eq_true, beq_iff_eq] at hBlank
  rcases hBlank with rfl | rfl <;> cases h

theorem skipBlank_of_not_isBlank {c : Char} (h : isBlank c = false) (cs : List Char) :
    skipBlank (c :: cs) = c :: cs := by
  simp [skipBlank, h]

section Keys

variable {name : String} (hBare : Bare name) (rest : List Char)

include hBare

theorem Bare.exists_head : ∃ c cs, name.toList = c :: cs ∧ isBareKeyChar c = true := by
  cases hChars : name.toList with
  | nil => exact absurd hChars hBare.1
  | cons c cs =>
    refine ⟨c, cs, rfl, hBare.2 c ?_⟩
    rw [hChars]
    exact List.mem_cons_self

theorem keyPart_bare : keyPart (name.toList ++ '=' :: rest) = some (name, '=' :: rest) := by
  obtain ⟨c, cs, hChars, hHead⟩ := hBare.exists_head
  have hSpan : (name.toList ++ '=' :: rest).span isBareKeyChar = (name.toList, '=' :: rest) := by
    have hEnd : isBareKeyChar '=' = false := rfl
    rw [List.span_eq_takeWhile_dropWhile, List.takeWhile_append_of_pos hBare.2,
      List.dropWhile_append_of_pos hBare.2]
    simp [hEnd]
  have hSome : name.toList.isEmpty = false := List.isEmpty_eq_false_iff.mpr hBare.1
  unfold keyPart
  split
  · next hQuote =>
    rw [hChars] at hQuote
    cases (List.cons.inj hQuote).1
    cases hHead
  · next hQuote =>
    rw [hChars] at hQuote
    cases (List.cons.inj hQuote).1
    cases hHead
  · rw [hSpan]
    simp [hSome]

theorem key_bare : key (name.toList ++ '=' :: rest) = some (([], name), '=' :: rest) := by
  obtain ⟨c, cs, hChars, hHead⟩ := hBare.exists_head
  have hStart : skipBlank (name.toList ++ '=' :: rest) = name.toList ++ '=' :: rest := by
    rw [hChars, List.cons_append, skipBlank_of_not_isBlank (isBlank_of_isBareKeyChar hHead)]
  have hEnd : skipBlank ('=' :: rest) = '=' :: rest := skipBlank_of_not_isBlank rfl rest
  simp [key, nestingLimit, keyParts, hStart, keyPart_bare hBare, hEnd]

end Keys

/-! ## Values -/

/-- Names that differ and need no quotes. -/
structure Keys (names : List String) : Prop where
  bare : ∀ name ∈ names, Bare name
  distinct : names.Nodup

theorem Keys.head {name : String} {names : List String} (h : Keys (name :: names)) : Bare name :=
  h.bare name List.mem_cons_self

theorem Keys.tail {name : String} {names : List String} (h : Keys (name :: names)) : Keys names :=
  ⟨fun other hMem => h.bare other (List.mem_cons_of_mem _ hMem), (List.nodup_cons.mp h.distinct).2⟩

theorem Keys.head_ne {e : String × Document} {entries : List (String × Document)}
    (h : Keys ((e :: entries).map Prod.fst)) : ∀ f ∈ entries, e.1 ≠ f.1 := by
  rintro f hMem hSame
  refine (List.nodup_cons.mp h.distinct).1 ?_
  rw [hSame]
  exact List.mem_map_of_mem hMem

/-- A document that can be written, with tables nested at most as deep as told. -/
inductive Writable : Nat → Document → Prop where
  | boolean {k : Nat} (b : Bool) : Writable k (.boolean b)
  | integer {k n : Nat} (h : n < 2 ^ 63) : Writable k (.integer n)
  | text {k : Nat} (s : String) : Writable k (.text s)
  | table {k : Nat} {entries : List (String × Document)} (hKeys : Keys (entries.map Prod.fst))
      (h : ∀ e ∈ entries, Writable k e.2) : Writable (k + 1) (.table entries)

/-- The values of a table as the reader keeps them. -/
def held (entries : List (String × Document)) : Entries := entries.map fun e => (e.1, .value e.2)

theorem documentEntries_held (entries : List (String × Document)) :
    documentEntries (held entries) = entries := by
  induction entries with
  | nil => rfl
  | cons e entries ih =>
    rw [held, List.map_cons, documentEntries, Node.toDocument, ← held, ih]

/-- Once an entry is held, the others are still new. -/
theorem fresh_of_cons {entry : String × Document} {given : List (String × Document)} {es : Entries}
    (hKeys : Keys ((entry :: given).map Prod.fst))
    (hFresh : ∀ e ∈ entry :: given, ∀ f ∈ es, f.1 ≠ e.1) :
    ∀ e ∈ given, ∀ f ∈ es ++ [(entry.1, .value entry.2)], f.1 ≠ e.1 := by
  intro e hMem f hHeld
  rcases List.mem_append.mp hHeld with hOld | hOne
  · exact hFresh e (List.mem_cons_of_mem _ hMem) f hOld
  · obtain rfl := List.mem_singleton.mp hOne
    exact hKeys.head_ne e hMem

section Fresh

variable {es : Entries} {name : String} (hFresh : ∀ e ∈ es, e.1 ≠ name)

include hFresh

theorem put_of_fresh (node : Node) : es.put name node = es ++ [(name, node)] := by
  induction es with
  | nil => rfl
  | cons e es ih =>
    obtain ⟨hHere, hRest⟩ := List.forall_mem_cons.mp hFresh
    rw [Entries.put, if_neg hHere, ih hRest, List.cons_append]

theorem lookup?_of_fresh : es.lookup? name = none := by
  have hNone : List.find? (·.1 == name) es = none := by
    simpa [List.find?_eq_none] using hFresh
  rw [Entries.lookup?, hNone, Option.map_none]

theorem insertDotted_of_fresh (d : Document) :
    Entries.insertDotted [] name d .header es = some (es ++ [(name, .value d)]) := by
  simp [Entries.insertDotted, Entries.change, lookup?_of_fresh hFresh, put_of_fresh hFresh]

theorem insert_of_fresh (d : Document) :
    es.insert [] [] name d = some (es ++ [(name, .value d)]) := insertDotted_of_fresh hFresh d

end Fresh

/-- The document is read where it stands, if there is enough fuel and the value ends there. -/
def Reads (depth : Nat) (d : Document) : Prop :=
  ∀ fuel rest, 2 * (chars d).length ≤ fuel → EndsValue rest →
    value fuel depth (chars d ++ rest) = some (d, rest)

variable {k depth : Nat} {d : Document}

/-- A value starts with a character that is no blank. -/
theorem exists_head_chars (h : Writable k d) :
    ∃ c cs, chars d = c :: cs ∧ isBlank c = false := by
  cases h with
  | boolean b =>
    cases b with
    | true => exact ⟨'t', _, rfl, rfl⟩
    | false => exact ⟨'f', _, rfl, rfl⟩
  | @integer _ n =>
    obtain ⟨c, cs, hDigits, hDigit, -⟩ := exists_head_toDigits n
    refine ⟨c, cs, ?_, ?_⟩
    · rw [chars, ← hDigits]
      simp [Int.toString_eq_repr, Int.repr_eq_if]
    · rw [Bool.eq_false_iff]
      intro hBlank
      simp only [isBlank, Bool.or_eq_true, beq_iff_eq] at hBlank
      rcases hBlank with rfl | rfl <;> cases hDigit
  | text s => exact ⟨'"', _, rfl, rfl⟩
  | table => exact ⟨'\x7b', _, rfl, rfl⟩

theorem skipBlank_chars (h : Writable k d) (rest : List Char) :
    skipBlank (chars d ++ rest) = chars d ++ rest := by
  obtain ⟨c, cs, hChars, hBlank⟩ := exists_head_chars h
  rw [hChars, List.cons_append, skipBlank_of_not_isBlank hBlank]

theorem reads_of_succ (hWritable : Writable k d)
    (h : ∀ fuel rest, 2 * (chars d).length ≤ fuel + 1 → EndsValue rest →
      value (fuel + 1) depth (chars d ++ rest) = some (d, rest)) : Reads depth d := by
  intro fuel rest hFuel hEnds
  obtain ⟨c, cs, hChars, -⟩ := exists_head_chars hWritable
  rw [hChars, List.length_cons] at hFuel
  obtain ⟨fuel, rfl⟩ : ∃ k, fuel = k + 1 := ⟨fuel - 1, by omega⟩
  refine h fuel rest ?_ hEnds
  rw [hChars, List.length_cons]
  exact hFuel

theorem reads_integer {n : Nat} (h : n < 2 ^ 63) : Reads depth (.integer n) := by
  refine reads_of_succ (.integer (k := 0) h) fun fuel rest _ hEnds => ?_
  obtain ⟨c, cs, hDigits, hDigit, -⟩ := exists_head_toDigits n
  have hNumber := numeric_natural hEnds h
  have hChars : chars (.integer n) = Nat.toDigits 10 n := by
    simp [chars, Int.toString_eq_repr, Int.repr_eq_if]
  rw [hDigits, List.cons_append] at hNumber
  rw [hChars, hDigits, List.cons_append, value, if_pos (.inl hDigit), hNumber]
  -- a digit begins nothing else
  all_goals
    intros
    subst ‹c = _›
    cases hDigit

theorem reads_text (s : String) : Reads depth (.text s) := by
  refine reads_of_succ (.text (k := 0) s) fun fuel rest _ hEnds => ?_
  have hText : text (quoted s.toList ++ rest) = some (s.toList, rest) := by
    refine text_quoted s.toList ?_
    obtain ⟨c, cs, rfl, rfl | rfl | rfl⟩ := hEnds <;> simp
  rw [quoted, List.cons_append] at hText
  rw [chars, quoted, List.cons_append, value, hText, Option.map_some, String.ofList_toList]

/-- What stands behind an entry says whether there are more. -/
def afterEntry (fuel depth : Nat) (es : Entries) (rest : List Char) : Found Entries :=
  match skipBlank rest with
  | '\x7d' :: rest => some (es, rest)
  | ',' :: rest => entries fuel depth es rest
  | _ => none

theorem entries_entry {fuel : Nat} {es : Entries} {name : String} {rest : List Char}
    (hBare : Bare name) (hWritable : Writable k d)
    (hValue : value fuel depth (chars d ++ rest) = some (d, rest))
    (hFresh : ∀ e ∈ es, e.1 ≠ name) :
    entries (fuel + 1) depth es (name.toList ++ '=' :: (chars d ++ rest)) =
      afterEntry fuel depth (es ++ [(name, .value d)]) rest := by
  simp only [entries, key_bare hBare, skipBlank_chars hWritable, hValue,
    insertDotted_of_fresh hFresh]
  rfl

theorem entries_chars {given : List (String × Document)} (hNe : given ≠ [])
    (hKeys : Keys (given.map Prod.fst)) (hWritable : ∀ e ∈ given, Writable k e.2)
    (h : ∀ e ∈ given, Reads depth e.2) (fuel : Nat)
    (es : Entries) (hFresh : ∀ e ∈ given, ∀ f ∈ es, f.1 ≠ e.1) (rest : List Char)
    (hFuel : 2 * (entryChars given).length < fuel) :
    entries fuel depth es (entryChars given ++ '\x7d' :: rest) = some (es ++ held given, rest) := by
  induction given generalizing fuel es with
  | nil => exact absurd rfl hNe
  | cons entry given ih =>
    obtain ⟨fuel, rfl⟩ : ∃ k, fuel = k + 1 := ⟨fuel - 1, by omega⟩
    obtain ⟨name, d⟩ := entry
    have hBare : Bare name := hKeys.head
    have hHere : Writable k d := hWritable (name, d) List.mem_cons_self
    have hReads : Reads depth d := h (name, d) List.mem_cons_self
    have hNew : ∀ f ∈ es, f.1 ≠ name := hFresh (name, d) List.mem_cons_self
    cases given with
    | nil =>
      have hChars : entryChars [(name, d)] = name.toList ++ '=' :: chars d := rfl
      rw [hChars, List.length_append, List.length_cons] at hFuel
      have hValue := hReads fuel ('\x7d' :: rest) (by omega) ⟨_, _, rfl, .inr (.inl rfl)⟩
      rw [hChars, List.append_assoc, List.cons_append, entries_entry hBare hHere hValue hNew]
      rfl
    | cons next given =>
      have hChars : entryChars ((name, d) :: next :: given) =
        name.toList ++ '=' :: (chars d ++ ',' :: entryChars (next :: given)) := rfl
      rw [hChars, List.length_append, List.length_cons, List.length_append,
        List.length_cons] at hFuel
      have hValue := hReads fuel (',' :: (entryChars (next :: given) ++ '\x7d' :: rest))
        (by omega) ⟨_, _, rfl, .inl rfl⟩
      have hRest := ih (List.cons_ne_nil _ _) hKeys.tail
        (fun e hMem => hWritable e (List.mem_cons_of_mem _ hMem))
        (fun e hMem => h e (List.mem_cons_of_mem _ hMem)) fuel (es ++ [(name, .value d)])
        (fresh_of_cons hKeys hFresh) (by omega)
      rw [hChars, List.append_assoc, List.cons_append, List.append_assoc, List.cons_append,
        entries_entry hBare hHere hValue hNew, afterEntry, skipBlank_of_not_isBlank rfl]
      simp only [hRest, List.append_assoc]
      rfl

theorem value_table (fuel depth : Nat) (cs : List Char) :
    value (fuel + 1) depth ('\x7b' :: cs) =
      if depth + 1 < nestingLimit then
        match skipBlank cs with
        | '\x7d' :: rest => some (.table [], rest)
        | rest => (entries fuel (depth + 1) [] rest).map fun p =>
            (.table (documentEntries p.1), p.2)
      else none := rfl

theorem exists_head_entryChars {given : List (String × Document)} (hNe : given ≠ [])
    (hKeys : Keys (given.map Prod.fst)) :
    ∃ c cs, entryChars given = c :: cs ∧ isBareKeyChar c = true := by
  cases given with
  | nil => exact absurd rfl hNe
  | cons entry given =>
    obtain ⟨c, cs, hChars, hBare⟩ := hKeys.head.exists_head
    cases given with
    | nil => exact ⟨c, _, congrArg (· ++ '=' :: chars entry.2) hChars, hBare⟩
    | cons next given =>
      exact ⟨c, _,
        congrArg (· ++ '=' :: (chars entry.2 ++ ',' :: entryChars (next :: given))) hChars, hBare⟩

theorem reads_table {given : List (String × Document)} (hKeys : Keys (given.map Prod.fst))
    (hWritable : ∀ e ∈ given, Writable k e.2) (h : ∀ e ∈ given, Reads (depth + 1) e.2)
    (hDepth : depth + 1 < nestingLimit) : Reads depth (.table given) := by
  refine reads_of_succ (.table hKeys hWritable) fun fuel rest hFuel _ => ?_
  rw [chars, List.length_cons, List.length_append, List.length_singleton] at hFuel
  rw [chars, List.cons_append, List.append_assoc, List.singleton_append, value_table,
    if_pos hDepth]
  cases given with
  | nil => rfl
  | cons entry given =>
    have hEntries := entries_chars (List.cons_ne_nil entry given) hKeys hWritable h fuel []
      nofun rest (by omega)
    -- the first key does not look like the end of the table
    obtain ⟨c, cs, hChars, hBare⟩ := exists_head_entryChars (List.cons_ne_nil entry given) hKeys
    rw [hChars, List.cons_append] at hEntries ⊢
    rw [skipBlank_of_not_isBlank (isBlank_of_isBareKeyChar hBare)]
    split
    · next hClose =>
      obtain ⟨rfl, -⟩ := List.cons.inj hClose
      cases hBare
    · rw [hEntries, Option.map_some, List.nil_append, documentEntries_held]

/-- Every document that can be written is read where it stands. -/
theorem reads_chars (h : Writable k d) (hDepth : depth + k < nestingLimit) : Reads depth d := by
  induction h generalizing depth with
  | @boolean k b =>
    refine reads_of_succ (.boolean (k := k) b) fun _ _ _ _ => ?_
    cases b <;> rfl
  | integer h => exact reads_integer h
  | text s => exact reads_text s
  | @table k given hKeys h ih =>
    exact reads_table hKeys h (fun e hMem => ih e hMem (by omega)) (by omega)

/-! ## Lines -/

theorem keyValue_line {es : Entries} {name : String} {limit : Nat} {rest : List Char}
    (hBare : Bare name) (hWritable : Writable k d)
    (hValue : value limit 0 (chars d ++ '\n' :: rest) = some (d, '\n' :: rest))
    (hFresh : ∀ e ∈ es, e.1 ≠ name) :
    keyValue limit ⟨es, []⟩ (name.toList ++ '=' :: (chars d ++ '\n' :: rest)) =
      some (⟨es ++ [(name, .value d)], []⟩, rest) := by
  simp only [keyValue, key_bare hBare, skipBlank_chars hWritable, hValue, insert_of_fresh hFresh]
  rfl

theorem lineChars_cons (name : String) (d : Document) (given : List (String × Document)) :
    lineChars ((name, d) :: given) =
      name.toList ++ '=' :: (chars d ++ '\n' :: lineChars given) := by
  simp [lineChars]

/-- A line that begins like a bare key is one of a key with its value. -/
theorem lines_bare {c : Char} (h : isBareKeyChar c = true) (limit fuel : Nat) (p : Progress)
    (cs : List Char) :
    lines limit (fuel + 1) p (c :: cs) =
      (keyValue limit p (c :: cs)).bind fun q => lines limit fuel q.1 q.2 := by
  have hBreak : ¬ (c = '\n' ∨ c = '\r') := by
    rintro (rfl | rfl) <;> cases h
  rw [lines, skipBlank_of_not_isBlank (isBlank_of_isBareKeyChar h)]
  split
  · next hNil => cases hNil
  · next hHead =>
    obtain ⟨rfl, -⟩ := List.cons.inj hHead
    cases h
  · next hHead =>
    obtain ⟨rfl, -⟩ := List.cons.inj hHead
    cases h
  · next hHead =>
    obtain ⟨rfl, rfl⟩ := List.cons.inj hHead
    rw [if_neg hBreak]
    cases keyValue limit p (c :: cs) <;> rfl

theorem lines_lineChars {given : List (String × Document)} (hKeys : Keys (given.map Prod.fst))
    (hWritable : ∀ e ∈ given, Writable k e.2) (h : ∀ e ∈ given, Reads 0 e.2) (limit : Nat)
    (hLimit : 2 * (lineChars given).length ≤ limit) (fuel : Nat)
    (hFuel : (lineChars given).length < fuel) (es : Entries)
    (hFresh : ∀ e ∈ given, ∀ f ∈ es, f.1 ≠ e.1) :
    lines limit fuel ⟨es, []⟩ (lineChars given) = some ⟨es ++ held given, []⟩ := by
  induction given generalizing fuel es with
  | nil =>
    obtain ⟨fuel, rfl⟩ : ∃ k, fuel = k + 1 := ⟨fuel - 1, by omega⟩
    rw [held, List.map_nil, List.append_nil]
    rfl
  | cons entry given ih =>
    obtain ⟨fuel, rfl⟩ : ∃ k, fuel = k + 1 := ⟨fuel - 1, by omega⟩
    obtain ⟨name, d⟩ := entry
    have hBare : Bare name := hKeys.head
    have hNew : ∀ f ∈ es, f.1 ≠ name := hFresh (name, d) List.mem_cons_self
    rw [lineChars_cons] at hLimit hFuel ⊢
    simp only [List.length_append, List.length_cons] at hLimit hFuel
    have hReads : Reads 0 d := h (name, d) List.mem_cons_self
    have hValue := hReads limit ('\n' :: lineChars given) (by omega) ⟨_, _, rfl, .inr (.inr rfl)⟩
    have hLine := keyValue_line hBare (hWritable (name, d) List.mem_cons_self) hValue hNew
    have hRest := ih hKeys.tail (fun e hMem => hWritable e (List.mem_cons_of_mem _ hMem))
      (fun e hMem => h e (List.mem_cons_of_mem _ hMem)) (by omega) fuel (by omega)
      (es ++ [(name, .value d)]) (fresh_of_cons hKeys hFresh)
    obtain ⟨c, cs, hChars, hHead⟩ := hBare.exists_head
    rw [hChars, List.cons_append] at hLine ⊢
    rw [lines_bare hHead, hLine, Option.bind_some, hRest, List.append_assoc]
    rfl

/-- A text does not begin with a byte order mark if it begins with a bare key. -/
theorem dropByteOrderMark_lineChars {given : List (String × Document)}
    (hKeys : Keys (given.map Prod.fst)) :
    dropByteOrderMark (lineChars given) = lineChars given := by
  cases given with
  | nil => rfl
  | cons entry given =>
    obtain ⟨name, d⟩ := entry
    obtain ⟨c, cs, hChars, hHead⟩ := hKeys.head.exists_head
    rw [lineChars_cons, hChars, List.cons_append]
    unfold dropByteOrderMark
    split
    · next hMark =>
      obtain ⟨rfl, -⟩ := List.cons.inj hMark
      cases hHead
    · rfl

/-- A table that can be written is read back from its text as it was. -/
theorem parse_render {given : List (String × Document)}
    (h : Writable nestingLimit (.table given)) :
    parse (render (.table given)) = some (.table given) := by
  cases h with
  | table hKeys hWritable =>
    have hReads : ∀ e ∈ given, Reads 0 e.2 := fun e hMem =>
      reads_chars (hWritable e hMem) (by decide)
    have hLines := lines_lineChars hKeys hWritable hReads (2 * (lineChars given).length + 2)
      (by omega) ((lineChars given).length + 1) (by omega) [] nofun
    rw [parse, render, String.toList_ofList, dropByteOrderMark_lineChars hKeys, hLines,
      Option.map_some, List.nil_append, documentEntries_held]

end Gatehouse.Toml
