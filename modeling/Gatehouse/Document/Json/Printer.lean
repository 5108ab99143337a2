import Gatehouse.Document.Basic

/-!
# Writing a document as JSON

Compact JSON: no blanks, entries in their order. In a string the quote and the backslash are
escaped, the five controls with a letter of their own take it, the other controls below a blank
are written `\u00xx`, and every other character stands for itself.

* `escapeChar`, `quoted`: one character and a whole string.
* `render`: a document.
-/

namespace Gatehouse.Document.Json

def hexDigit (n : Nat) : Char :=
  if n < 10 then Char.ofNat (0x30 + n) else Char.ofNat (0x57 + n)

/-- One character of a string, escaped where JSON asks for it. -/
def escapeChar (c : Char) : List Char :=
  if c = '"' then ['\\', '"']
  else if c = '\\' then ['\\', '\\']
  else if c = '\x08' then ['\\', 'b']
  else if c = '\x0c' then ['\\', 'f']
  else if c = '\n' then ['\\', 'n']
  else if c = '\r' then ['\\', 'r']
  else if c = '\t' then ['\\', 't']
  else if c.toNat < 0x20 then
    ['\\', 'u', '0', '0', hexDigit (c.toNat / 16), hexDigit (c.toNat % 16)]
  else [c]

def quoted (s : List Char) : List Char :=
  '"' :: (s.flatMap escapeChar ++ ['"'])

mutual

def chars : Document → List Char
  | .null => ['n', 'u', 'l', 'l']
  | .boolean true => ['t', 'r', 'u', 'e']
  | .boolean false => ['f', 'a', 'l', 's', 'e']
  | .integer n => (toString n).toList
  | .decimal m e => (toString m).toList ++ 'e' :: (toString e).toList
  | .text s => quoted s.toList
  | .moment s => quoted s.toList
  | .list items => '[' :: (itemChars items ++ [']'])
  | .table entries => '\x7b' :: (entryChars entries ++ ['\x7d'])

def itemChars : List Document → List Char
  | [] => []
  | [item] => chars item
  | item :: rest => chars item ++ ',' :: itemChars rest

def entryChars : List (String × Document) → List Char
  | [] => []
  | [(name, value)] => quoted name.toList ++ ':' :: chars value
  | (name, value) :: rest => quoted name.toList ++ ':' :: (chars value ++ ',' :: entryChars rest)

end

/-- A document as compact JSON. -/
def render (d : Document) : String := String.ofList (chars d)

end Gatehouse.Document.Json
