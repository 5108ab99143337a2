/-!
# Strings in TOML

The four kinds of string: basic and literal, each on one line or on several. A basic string
resolves escapes. A string on several lines drops a line break right after its opening quotes, may
hold one or two quotes in a row, and ends with three; a carriage return before a line break is
dropped. The readers take the characters after the opening quotes, and return the string with the
characters after its closing quotes.

* `basic`, `literal`: strings on one line.
* `basicLines`, `literalLines`: strings on several lines.
-/

namespace Gatehouse.Toml

/-- What a reader found, and the characters after it. -/
abbrev Found (α : Type) := Option (α × List Char)

def isNonAscii (c : Char) : Bool := 0x80 ≤ c.toNat

def isBlank (c : Char) : Bool := c == ' ' || c == '\t'

def isBasicChar (c : Char) : Bool :=
  isBlank c || (0x21 ≤ c.toNat && c.toNat ≤ 0x7e && c != '"' && c != '\\') || isNonAscii c

def isLiteralChar (c : Char) : Bool :=
  isBlank c || (0x21 ≤ c.toNat && c.toNat ≤ 0x7e && c != '\'') || isNonAscii c

def isCommentChar (c : Char) : Bool :=
  isBlank c || (0x21 ≤ c.toNat && c.toNat ≤ 0x7e) || isNonAscii c

def hexValue? (c : Char) : Option Nat :=
  let n := c.toNat
  if 0x30 ≤ n ∧ n ≤ 0x39 then some (n - 0x30)
  else if 0x61 ≤ n ∧ n ≤ 0x66 then some (n - 0x57)
  else if 0x41 ≤ n ∧ n ≤ 0x46 then some (n - 0x37)
  else none

def shortEscape? (c : Char) : Option Char :=
  if c = 'b' then some '\x08'
  else if c = 'f' then some '\x0c'
  else if c = 'n' then some '\n'
  else if c = 'r' then some '\r'
  else if c = 't' then some '\t'
  else if c = '\\' ∨ c = '"' then some c
  else none

/-- The character of a code point; surrogates and what is beyond the last plane have none. -/
def scalar? (n : Nat) : Option Char :=
  if n < 0xD800 ∨ (0xE000 ≤ n ∧ n < 0x110000) then some (Char.ofNat n) else none

def prepend (cs : List Char) (found : Found (List Char)) : Found (List Char) :=
  found.map fun p => (cs ++ p.1, p.2)

/-- Where reading a string stands between two characters. -/
inductive TextState where
  | plain
  | escape
  /-- Within a numeric escape: the digits that are missing, and the value so far. -/
  | digits (missing value : Nat)
  /-- After a backslash and blanks, where the line has to end. -/
  | escapeBlank
  /-- After a carriage return in that place. -/
  | escapeReturn
  /-- After an escaped line break: blanks and line breaks are dropped. -/
  | trimming
  /-- After a carriage return in that place. -/
  | trimmingReturn
  | return
  /-- After one quote, or two when the flag is set. -/
  | quotes (two : Bool)

def onDigit (missing value : Nat) (c : Char) (next : TextState → Found (List Char)) :
    Found (List Char) :=
  match hexValue? c with
  | none => none
  | some d =>
    if 1 < missing then next (.digits (missing - 1) (value * 16 + d))
    else match scalar? (value * 16 + d) with
      | some e => prepend [e] (next .plain)
      | none => none

def onEscape (c : Char) (next : TextState → Found (List Char)) : Found (List Char) :=
  if c = 'u' then next (.digits 4 0)
  else if c = 'U' then next (.digits 8 0)
  else match shortEscape? c with
    | some e => prepend [e] (next .plain)
    | none => none

/-- A basic string. The states that only strings on several lines can be in are not reached. -/
def basic : TextState → List Char → Found (List Char)
  | _, [] => none
  | .escape, c :: rest => onEscape c fun s => basic s rest
  | .digits missing value, c :: rest => onDigit missing value c fun s => basic s rest
  | _, c :: rest =>
    if c = '"' then some ([], rest)
    else if c = '\\' then basic .escape rest
    else if isBasicChar c then prepend [c] (basic .plain rest)
    else none

def literal : List Char → Found (List Char)
  | [] => none
  | c :: rest =>
    if c = '\'' then some ([], rest)
    else if isLiteralChar c then prepend [c] (literal rest)
    else none

/-- The end of a string on several lines after its three closing quotes: up to two more quotes
belong to the string. -/
def closing (quote : Char) : List Char → List Char × List Char
  | a :: b :: rest =>
    if a = quote ∧ b = quote then ([quote, quote], rest)
    else if a = quote then ([quote], b :: rest)
    else ([], a :: b :: rest)
  | [a] => if a = quote then ([quote], []) else ([], [a])
  | [] => ([], [])

def onBasicLines (c : Char) (next : TextState → Found (List Char)) : Found (List Char) :=
  if c = '"' then next (.quotes false)
  else if c = '\\' then next .escape
  else if c = '\n' then prepend ['\n'] (next .plain)
  else if c = '\r' then next .return
  else if isBasicChar c then prepend [c] (next .plain)
  else none

def basicLines : TextState → List Char → Found (List Char)
  | _, [] => none
  | .plain, c :: rest => onBasicLines c fun s => basicLines s rest
  | .return, c :: rest =>
    if c = '\n' then prepend ['\n'] (basicLines .plain rest) else none
  | .quotes false, c :: rest =>
    if c = '"' then basicLines (.quotes true) rest
    else prepend ['"'] (onBasicLines c fun s => basicLines s rest)
  | .quotes true, c :: rest =>
    if c = '"' then some (closing '"' rest)
    else prepend ['"', '"'] (onBasicLines c fun s => basicLines s rest)
  | .escape, c :: rest =>
    if isBlank c then basicLines .escapeBlank rest
    else if c = '\n' then basicLines .trimming rest
    else if c = '\r' then basicLines .escapeReturn rest
    else onEscape c fun s => basicLines s rest
  | .digits missing value, c :: rest => onDigit missing value c fun s => basicLines s rest
  | .escapeBlank, c :: rest =>
    if isBlank c then basicLines .escapeBlank rest
    else if c = '\n' then basicLines .trimming rest
    else if c = '\r' then basicLines .escapeReturn rest
    else none
  | .escapeReturn, c :: rest => if c = '\n' then basicLines .trimming rest else none
  | .trimming, c :: rest =>
    if isBlank c ∨ c = '\n' then basicLines .trimming rest
    else if c = '\r' then basicLines .trimmingReturn rest
    else onBasicLines c fun s => basicLines s rest
  | .trimmingReturn, c :: rest => if c = '\n' then basicLines .trimming rest else none

def onLiteralLines (c : Char) (next : TextState → Found (List Char)) : Found (List Char) :=
  if c = '\'' then next (.quotes false)
  else if c = '\n' then prepend ['\n'] (next .plain)
  else if c = '\r' then next .return
  else if isLiteralChar c then prepend [c] (next .plain)
  else none

def literalLines : TextState → List Char → Found (List Char)
  | _, [] => none
  | .return, c :: rest =>
    if c = '\n' then prepend ['\n'] (literalLines .plain rest) else none
  | .quotes false, c :: rest =>
    if c = '\'' then literalLines (.quotes true) rest
    else prepend ['\''] (onLiteralLines c fun s => literalLines s rest)
  | .quotes true, c :: rest =>
    if c = '\'' then some (closing '\'' rest)
    else prepend ['\'', '\''] (onLiteralLines c fun s => literalLines s rest)
  | _, c :: rest => onLiteralLines c fun s => literalLines s rest

def dropLineBreak : List Char → List Char
  | '\n' :: rest => rest
  | '\r' :: '\n' :: rest => rest
  | cs => cs

def text : List Char → Found (List Char)
  | '"' :: '"' :: '"' :: rest => basicLines .plain (dropLineBreak rest)
  | '"' :: rest => basic .plain rest
  | '\'' :: '\'' :: '\'' :: rest => literalLines .plain (dropLineBreak rest)
  | '\'' :: rest => literal rest
  | _ => none

end Gatehouse.Toml
