import Gatehouse.Document.Basic

/-!
# Reading a document from JSON

The grammar of RFC 8259 over a list of characters. Each reader returns what it read and the
characters after it, or nothing where the text does not fit the grammar. An integer stays an
integer; a number with a fraction or an exponent, and the integer minus zero, are decimals.

* `readString`: the rest of a string after its opening quote, escapes resolved.
* `parse`: a whole text, blanks around the value allowed.
-/

namespace Gatehouse.Document.Json

def isBlank (c : Char) : Bool := c == ' ' || c == '\t' || c == '\n' || c == '\r'

def skipBlank (cs : List Char) : List Char := cs.dropWhile isBlank

def hexValue? (c : Char) : Option Nat :=
  let n := c.toNat
  if 0x30 ≤ n ∧ n ≤ 0x39 then some (n - 0x30)
  else if 0x61 ≤ n ∧ n ≤ 0x66 then some (n - 0x57)
  else if 0x41 ≤ n ∧ n ≤ 0x46 then some (n - 0x37)
  else none

def unit? (a b c d : Char) : Option Nat := do
  let a ← hexValue? a
  let b ← hexValue? b
  let c ← hexValue? c
  let d ← hexValue? d
  pure (((a * 16 + b) * 16 + c) * 16 + d)

def shortEscape? (c : Char) : Option Char :=
  if c = '"' ∨ c = '\\' ∨ c = '/' then some c
  else if c = 'b' then some '\x08'
  else if c = 'f' then some '\x0c'
  else if c = 'n' then some '\n'
  else if c = 'r' then some '\r'
  else if c = 't' then some '\t'
  else none

def scalar? (u : Nat) : Option Char :=
  if u < 0xD800 ∨ 0xE000 ≤ u then some (Char.ofNat u) else none

def surrogates? (hi lo : Nat) : Option Char :=
  if 0xD800 ≤ hi ∧ hi < 0xDC00 ∧ 0xDC00 ≤ lo ∧ lo < 0xE000 then
    some (Char.ofNat (0x10000 + (hi - 0xD800) * 0x400 + (lo - 0xDC00)))
  else none

def consChar (c : Char) (found : Option (List Char × List Char)) :
    Option (List Char × List Char) :=
  found.map fun p => (c :: p.1, p.2)

/-- Where reading a string stands between two characters. -/
inductive StringState where
  | plain
  | escape
  /-- After `\u` and the given number of digits, of which the value is known so far; `high` is a
  high surrogate that waits for its partner. -/
  | digits (high : Option Nat) (count value : Nat)
  /-- After a high surrogate, where a backslash has to follow. -/
  | partner (high : Nat)
  | partnerEscape (high : Nat)

/-- What a completed unit leads to: a character, a wait for the other half of a pair, or an
error. -/
def finishUnit (high : Option Nat) (unit : Nat) : Option (Option Char × StringState) :=
  match high with
  | some hi => (surrogates? hi unit).map fun c => (some c, .plain)
  | none =>
    if 0xD800 ≤ unit ∧ unit < 0xDC00 then some (none, .partner unit)
    else (scalar? unit).map fun c => (some c, .plain)

/-- Reads a string up to its closing quote and returns it with the characters after the quote.
Controls below a blank have to be escaped. -/
def readString : StringState → List Char → Option (List Char × List Char)
  | _, [] => none
  | .plain, c :: rest =>
    if c = '"' then some ([], rest)
    else if c = '\\' then readString .escape rest
    else if c.toNat < 0x20 then none
    else consChar c (readString .plain rest)
  | .escape, c :: rest =>
    if c = 'u' then readString (.digits none 0 0) rest
    else match shortEscape? c with
      | some e => consChar e (readString .plain rest)
      | none => none
  | .digits high count value, c :: rest =>
    match hexValue? c with
    | none => none
    | some d =>
      if count < 3 then readString (.digits high (count + 1) (value * 16 + d)) rest
      else match finishUnit high (value * 16 + d) with
        | none => none
        | some (none, state) => readString state rest
        | some (some e, state) => consChar e (readString state rest)
  | .partner high, c :: rest =>
    if c = '\\' then readString (.partnerEscape high) rest else none
  | .partnerEscape high, c :: rest =>
    if c = 'u' then readString (.digits (some high) 0 0) rest else none

def digitsValue (ds : List Char) : Nat :=
  ds.foldl (fun n d => n * 10 + (d.toNat - 0x30)) 0

def readSign : List Char → Bool × List Char
  | '-' :: rest => (true, rest)
  | '+' :: rest => (false, rest)
  | cs => (false, cs)

def readFraction : List Char → Option (Option (List Char) × List Char)
  | '.' :: rest =>
    let (ds, tail) := rest.span Char.isDigit
    if ds.isEmpty then none else some (some ds, tail)
  | cs => some (none, cs)

def readExponent : List Char → Option (Option Int × List Char)
  | c :: rest =>
    if c = 'e' ∨ c = 'E' then
      let (negative, rest) := readSign rest
      let (ds, tail) := rest.span Char.isDigit
      if ds.isEmpty then none
      else
        let n : Int := digitsValue ds
        some (some (if negative then -n else n), tail)
    else some (none, c :: rest)
  | [] => some (none, [])

/-- A number: no leading zeros, and digits on both sides of a point. -/
def readNumber (cs : List Char) : Option (Document × List Char) := do
  let (negative, cs) := match cs with
    | '-' :: rest => (true, rest)
    | cs => (false, cs)
  let (whole, cs) := cs.span Char.isDigit
  if whole.isEmpty ∨ (whole.head? = some '0' ∧ whole.length ≠ 1) then none
  let (fraction, cs) ← readFraction cs
  let (exponent, cs) ← readExponent cs
  let n : Int := digitsValue (whole ++ fraction.getD [])
  let signed := if negative then -n else n
  if fraction.isNone ∧ exponent.isNone ∧ ¬ (negative ∧ n = 0) then
    pure (.integer signed, cs)
  else
    pure (.decimal signed (exponent.getD 0 - (fraction.getD []).length), cs)

mutual

/-- A value. The first argument bounds the depth of the readers that call one another. -/
def readValue : Nat → List Char → Option (Document × List Char)
  | 0, _ => none
  | fuel + 1, cs =>
    match skipBlank cs with
    | 'n' :: 'u' :: 'l' :: 'l' :: rest => some (.null, rest)
    | 't' :: 'r' :: 'u' :: 'e' :: rest => some (.boolean true, rest)
    | 'f' :: 'a' :: 'l' :: 's' :: 'e' :: rest => some (.boolean false, rest)
    | '"' :: rest => (readString .plain rest).map fun p => (.text (String.ofList p.1), p.2)
    | '[' :: rest =>
      match skipBlank rest with
      | ']' :: rest => some (.list [], rest)
      | rest => (readItems fuel rest).map fun p => (.list p.1, p.2)
    | '\x7b' :: rest =>
      match skipBlank rest with
      | '\x7d' :: rest => some (.table [], rest)
      | rest => (readEntries fuel rest).map fun p => (.table p.1, p.2)
    | rest => readNumber rest

def readItems : Nat → List Char → Option (List Document × List Char)
  | 0, _ => none
  | fuel + 1, cs =>
    match readValue fuel cs with
    | none => none
    | some (item, rest) =>
      match skipBlank rest with
      | ']' :: rest => some ([item], rest)
      | ',' :: rest => (readItems fuel rest).map fun p => (item :: p.1, p.2)
      | _ => none

def readEntries : Nat → List Char → Option (List (String × Document) × List Char)
  | 0, _ => none
  | fuel + 1, cs =>
    match skipBlank cs with
    | '"' :: rest =>
      match readString .plain rest with
      | none => none
      | some (name, rest) =>
        match skipBlank rest with
        | ':' :: rest =>
          match readValue fuel rest with
          | none => none
          | some (value, rest) =>
            match skipBlank rest with
            | '\x7d' :: rest => some ([(String.ofList name, value)], rest)
            | ',' :: rest =>
              (readEntries fuel rest).map fun p => ((String.ofList name, value) :: p.1, p.2)
            | _ => none
        | _ => none
    | _ => none

end

/-- The document that a text holds, where the whole text is JSON. Every reader consumes a
character before it calls itself again, so twice the length bounds their depth. -/
def parseChars (cs : List Char) : Option Document :=
  match readValue (2 * cs.length + 2) cs with
  | some (d, rest) => if (skipBlank rest).isEmpty then some d else none
  | none => none

def parse (s : String) : Option Document := parseChars s.toList

end Gatehouse.Document.Json
