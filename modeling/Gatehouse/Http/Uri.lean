/-!
# Request targets

A URI as a request carries it: absolute with a scheme, a bare authority, or a path. Reading keeps
what was written, except that a fragment is dropped, the schemes `http` and `https` are lowered
and an absolute URI without a path gets the path `/`.

* `Uri.parse?`: the URI of a text, if it is one.
* `Uri.toText`: a URI in its written form.
-/

namespace Gatehouse.Http

structure Uri where
  scheme : Option String
  /-- Host, port and user information; empty when the URI is a path only. -/
  authority : String
  path : String
  query : Option String
  deriving DecidableEq, Repr

namespace Uri

/-- The longest text that is read, in bytes. -/
def maxLength : Nat := 65534

def maxSchemeLength : Nat := 64

def maxColons : Nat := 8

def isAsciiLetterOrDigit (c : Char) : Bool := c.isAlphanum

def isSchemeChar (c : Char) : Bool :=
  isAsciiLetterOrDigit c || c == '+' || c == '-' || c == '.' || c == '~'

def isAuthorityChar (c : Char) : Bool :=
  isAsciiLetterOrDigit c || "!$&'()*+,-.;=_~:@[]".toList.contains c

def endsAuthority (c : Char) : Bool := c == '/' || c == '?' || c == '#'

/-- What matters about the characters of an authority that were read. -/
structure AuthorityScan where
  colons : Nat
  opened : Bool
  closed : Bool
  /-- An escape stands outside of the user information. -/
  escape : Bool
  endsInAt : Bool

namespace AuthorityScan

def start : AuthorityScan := ⟨0, false, false, false, false⟩

def read (s : AuthorityScan) (c : Char) : Option AuthorityScan :=
  let s := { s with endsInAt := c == '@' }
  if c = ':' then if s.colons < maxColons then some { s with colons := s.colons + 1 } else none
  else if c = '[' then if s.escape || s.opened then none else some { s with opened := true }
  else if c = ']' then
    if ! s.opened || s.closed then none
    else some { s with closed := true, colons := 0, escape := false }
  else if c = '@' then some { s with colons := 0, escape := false }
  else if c = '%' then some { s with escape := true }
  else if isAuthorityChar c then some s
  else none

/-- Whether an authority may end here: brackets are closed, at most one colon introduces a port,
a host follows the user information, and no escape stands in the host. -/
def accepts (s : AuthorityScan) : Bool :=
  s.opened == s.closed && s.colons ≤ 1 && ! s.endsInAt && ! s.escape

end AuthorityScan

def splitAuthority? (text : List Char) : Option (List Char × List Char) :=
  let authority := text.takeWhile (! endsAuthority ·)
  match authority.foldlM AuthorityScan.read AuthorityScan.start with
  | some s => if s.accepts then some (authority, text.dropWhile (! endsAuthority ·)) else none
  | none => none

/-- The scheme that a text starts with, and what follows its two slashes. A text without one is
given back whole; none when the scheme is too long. -/
def splitScheme? (text : List Char) : Option (Option String × List Char) :=
  let name := text.takeWhile isSchemeChar
  let lowered := String.ofList (name.map Char.toLower)
  match text.dropWhile isSchemeChar with
  | ':' :: '/' :: '/' :: rest =>
    if lowered = "http" ∨ lowered = "https" then some (some lowered, rest)
    else if name.length ≤ maxSchemeLength then some (some (String.ofList name), rest)
    else none
  | _ => some (none, text)

def isVisible (c : Char) : Bool := '!' ≤ c && c != '\x7f'

/-- A character of a path. Some that ought to be escaped are let through. -/
def isPathChar (c : Char) : Bool :=
  isVisible c && c != '#' && c != '<' && c != '>' && c != '?' && c != '`'

def isQueryChar (c : Char) : Bool :=
  isVisible c && c != '"' && c != '#' && c != '<' && c != '>'

/-- A path and the query after it, without the fragment. -/
def splitPath? (text : List Char) : Option (String × Option String) :=
  let text := text.takeWhile (· != '#')
  let path := text.takeWhile (· != '?')
  if path.all isPathChar then
    match text.dropWhile (· != '?') with
    | [] => some (String.ofList path, none)
    | _ :: query =>
      if query.all isQueryChar then some (String.ofList path, some (String.ofList query)) else none
  else none

def parseFull? (text : List Char) : Option Uri :=
  match splitScheme? text with
  | none => none
  | some (scheme, rest) =>
    match splitAuthority? rest with
    | none => none
    | some (authority, rest) =>
      if authority.isEmpty then none
      else if scheme = none then
        if rest.isEmpty then some ⟨none, String.ofList authority, "", none⟩ else none
      else (splitPath? rest).map fun (path, query) =>
        ⟨scheme, String.ofList authority, if path = "" then "/" else path, query⟩

def parse? (text : String) : Option Uri :=
  if maxLength < text.utf8ByteSize then none
  else match text.toList with
    | ['*'] => some ⟨none, "", "*", none⟩
    | '/' :: rest => (splitPath? ('/' :: rest)).map fun (path, query) => ⟨none, "", path, query⟩
    | cs => parseFull? cs

def toText (u : Uri) : String :=
  (match u.scheme with
    | some scheme => scheme ++ "://"
    | none => "") ++ u.authority ++ u.path ++
  (match u.query with
    | some query => "?" ++ query
    | none => "")

end Uri

end Gatehouse.Http
