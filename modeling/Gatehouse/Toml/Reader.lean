import Gatehouse.Toml.Number
import Gatehouse.Toml.Tree

/-!
# Reading a document from TOML

TOML 1.0, line by line: headers, keys with their values, comments. Lists may run over several
lines and end with a comma; tables in braces stay on their line and may not. Values nest less than
`nestingLimit` deep, and keys have fewer parts than that.

* `value`: a value of any kind.
* `parse`: a whole text, with or without a byte order mark in front.
-/

namespace Gatehouse.Toml

/-- Nesting of values and dotted keys stays below this. -/
def nestingLimit : Nat := 80

def skipBlank (cs : List Char) : List Char := cs.dropWhile isBlank

def lineBreak? : List Char → Option (List Char)
  | '\n' :: rest => some rest
  | '\r' :: '\n' :: rest => some rest
  | _ => none

def skipComment : List Char → List Char
  | '#' :: rest => rest.dropWhile isCommentChar
  | cs => cs

/-- The end of a line: blanks, a comment, and a line break or the end of the text. -/
def endOfLine? (cs : List Char) : Option (List Char) :=
  match skipComment (skipBlank cs) with
  | [] => some []
  | rest => lineBreak? rest

/-- Skips blanks, line breaks and comments. The flag tells that a comment is being skipped. -/
def skipSpace : Bool → List Char → List Char
  | _, [] => []
  | _, '\n' :: rest => skipSpace false rest
  | _, '\r' :: '\n' :: rest => skipSpace false rest
  | true, c :: rest => if isCommentChar c then skipSpace true rest else c :: rest
  | false, c :: rest =>
    if isBlank c then skipSpace false rest
    else if c = '#' then skipSpace true rest
    else c :: rest

def isBareKeyChar (c : Char) : Bool := c.isAlphanum || c == '-' || c == '_'

/-- One part of a key: bare, or a string on one line. -/
def keyPart : List Char → Found String
  | '"' :: rest => (basic .plain rest).map fun p => (String.ofList p.1, p.2)
  | '\'' :: rest => (literal rest).map fun p => (String.ofList p.1, p.2)
  | cs =>
    let (bare, rest) := cs.span isBareKeyChar
    if bare.isEmpty then none else some (String.ofList bare, rest)

/-- A key of at most `fuel` parts with points between them and blanks around them. -/
def keyParts : Nat → List Char → Found (List String)
  | 0, _ => none
  | fuel + 1, cs =>
    match keyPart (skipBlank cs) with
    | none => none
    | some (part, rest) =>
      match skipBlank rest with
      | '.' :: rest => (keyParts fuel rest).map fun p => (part :: p.1, p.2)
      | rest => some ([part], rest)

def key (cs : List Char) : Found (List String × String) :=
  match keyParts (nestingLimit - 1) cs with
  | some (parts, rest) => parts.getLast?.map fun last => ((parts.dropLast, last), rest)
  | none => none

mutual

/-- A value. The first argument bounds the readers that call one another, the second one counts
the lists and tables around the value. -/
def value : Nat → Nat → List Char → Found Document
  | 0, _, _ => none
  | fuel + 1, depth, cs =>
    match cs with
    | '"' :: _ => (text cs).map fun p => (.text (String.ofList p.1), p.2)
    | '\'' :: _ => (text cs).map fun p => (.text (String.ofList p.1), p.2)
    | '[' :: rest =>
      if depth + 1 < nestingLimit then
        (items fuel (depth + 1) rest).map fun p => (.list p.1, p.2)
      else none
    | '\x7b' :: rest =>
      if depth + 1 < nestingLimit then
        match skipBlank rest with
        | '\x7d' :: rest => some (.table [], rest)
        | rest =>
          (entries fuel (depth + 1) [] rest).map fun p => (.table (documentEntries p.1), p.2)
      else none
    | 't' :: 'r' :: 'u' :: 'e' :: rest => some (.boolean true, rest)
    | 'f' :: 'a' :: 'l' :: 's' :: 'e' :: rest => some (.boolean false, rest)
    | 'i' :: _ => special cs
    | 'n' :: _ => special cs
    | c :: _ => if c.isDigit ∨ c = '+' ∨ c = '-' then numeric cs else none
    | [] => none

def items : Nat → Nat → List Char → Found (List Document)
  | 0, _, _ => none
  | fuel + 1, depth, cs =>
    match skipSpace false cs with
    | ']' :: rest => some ([], rest)
    | cs =>
      match value fuel depth cs with
      | none => none
      | some (item, rest) =>
        match skipSpace false rest with
        | ']' :: rest => some ([item], rest)
        | ',' :: rest => (items fuel depth rest).map fun p => (item :: p.1, p.2)
        | _ => none

def entries : Nat → Nat → Entries → List Char → Found Entries
  | 0, _, _, _ => none
  | fuel + 1, depth, es, cs =>
    match key cs with
    | some ((dots, name), '=' :: rest) =>
      match value fuel depth (skipBlank rest) with
      | none => none
      | some (d, rest) =>
        match Entries.insertDotted dots name d .header es with
        | none => none
        | some es =>
          match skipBlank rest with
          | '\x7d' :: rest => some (es, rest)
          | ',' :: rest => entries fuel depth es rest
          | _ => none
    | _ => none

end

/-- A document while its lines are read: all tables, and the header that is in force. -/
structure Progress where
  root : Entries
  header : List String

def headerKey (brackets : List Char) (cs : List Char) : Found (List String × String) :=
  match key cs with
  | some (k, rest) =>
    if rest.take brackets.length = brackets then
      (endOfLine? (rest.drop brackets.length)).map fun rest => (k, rest)
    else none
  | none => none

def header (p : Progress) : List Char → Found Progress
  | '[' :: rest =>
    match headerKey [']', ']'] rest with
    | some ((path, name), rest) =>
      (p.root.append path name).map fun root => (⟨root, path ++ [name]⟩, rest)
    | none => none
  | rest =>
    match headerKey [']'] rest with
    | some ((path, name), rest) =>
      (p.root.define path name).map fun root => (⟨root, path ++ [name]⟩, rest)
    | none => none

def keyValue (fuel : Nat) (p : Progress) (cs : List Char) : Found Progress :=
  match key cs with
  | some ((dots, name), '=' :: rest) =>
    match value fuel 0 (skipBlank rest) with
    | none => none
    | some (d, rest) =>
      match endOfLine? rest, p.root.insert p.header dots name d with
      | some rest, some root => some ({ p with root := root }, rest)
      | _, _ => none
  | _ => none

/-- The lines of a text. Every line takes at least one character, so the length of the text bounds
their number, and twice that the readers of values. -/
def lines (limit : Nat) : Nat → Progress → List Char → Option Progress
  | 0, _, _ => none
  | fuel + 1, p, cs =>
    match skipBlank cs with
    | [] => some p
    | '#' :: rest =>
      match endOfLine? ('#' :: rest) with
      | some rest => lines limit fuel p rest
      | none => none
    | '[' :: rest =>
      match header p rest with
      | some (p, rest) => lines limit fuel p rest
      | none => none
    | c :: rest =>
      if c = '\n' ∨ c = '\r' then
        match lineBreak? (c :: rest) with
        | some rest => lines limit fuel p rest
        | none => none
      else match keyValue limit p (c :: rest) with
        | some (p, rest) => lines limit fuel p rest
        | none => none

def dropByteOrderMark : List Char → List Char
  | '\ufeff' :: rest => rest
  | cs => cs

def parse (s : String) : Option Document :=
  let cs := dropByteOrderMark s.toList
  (lines (2 * cs.length + 2) (cs.length + 1) ⟨[], []⟩ cs).map fun p =>
    .table (documentEntries p.root)

end Gatehouse.Toml
