import Gatehouse.Document.Basic

/-!
# Tables under construction

A TOML document defines its tables piece by piece, and remembers how each came to be: by a header
of its own, on the way to a deeper header, or by a dotted key. A header may define a table once,
and may still claim one that was only passed through; a dotted key may extend only what dotted
keys made, or pass through what no header has defined.

* `define`, `append`: a header of a table, and of an element of a list of tables.
* `insert`: a key with its value.
* `Node.toDocument`: the finished document.
-/

namespace Gatehouse.Toml

inductive Origin where
  /-- By a header of its own. -/
  | header
  /-- On the way to a deeper header. -/
  | passed
  /-- By a dotted key. -/
  | dotted
  deriving DecidableEq, Repr

/-- A place in a document that is still being read; how it was written decides what may be added to
it. -/
inductive Node where
  | value (d : Document)
  | table (origin : Origin) (entries : List (String × Node))
  /-- A list of tables: the finished ones, and the last one, which can grow. -/
  | tables (earlier : List (List (String × Node))) (last : List (String × Node))

abbrev Entries := List (String × Node)

namespace Entries

def lookup? (es : Entries) (key : String) : Option Node :=
  (List.find? (·.1 == key) es).map (·.2)

def put (es : Entries) (key : String) (node : Node) : Entries :=
  match es with
  | [] => [(key, node)]
  | (k, old) :: rest => if k = key then (k, node) :: rest else (k, old) :: put rest key node

/-- Walks along a path and changes the table at its end. Tables that are missing are made with the
given origin; `enter` tells which tables may be walked through, and of a list of tables the last
one is. -/
def change (made : Origin) (enter : Origin → Bool) (f : Origin → Entries → Option Entries) :
    List String → Origin → Entries → Option Entries
  | [], origin, es => f origin es
  | key :: path, _, es =>
    match es.lookup? key with
    | none => (change made enter f path made []).map fun inner => es.put key (.table made inner)
    | some (.table origin inner) =>
      if enter origin then
        (change made enter f path origin inner).map fun inner => es.put key (.table origin inner)
      else none
    | some (.tables earlier last) =>
      (change made enter f path .header last).map fun last => es.put key (.tables earlier last)
    | some (.value _) => none

def changeUnderHeader (f : Origin → Entries → Option Entries) (path : List String)
    (root : Entries) : Option Entries :=
  change .passed (fun _ => true) f path .header root

/-- The header of a table: the last key is new, or a table that was only passed through. -/
def define (root : Entries) (path : List String) (key : String) : Option Entries :=
  changeUnderHeader (fun _ es =>
    match es.lookup? key with
    | none => some (es.put key (.table .header []))
    | some (.table .passed inner) => some (es.put key (.table .header inner))
    | some _ => none) path root

/-- The header of an element of a list of tables: the last key is new, or such a list. -/
def append (root : Entries) (path : List String) (key : String) : Option Entries :=
  changeUnderHeader (fun _ es =>
    match es.lookup? key with
    | none => some (es.put key (.tables [] []))
    | some (.tables earlier last) => some (es.put key (.tables (earlier ++ [last]) []))
    | some _ => none) path root

/-- Adds a value under a dotted key to a table. The table at the end of the dots has to come from
dotted keys if there are dots, and from a header if there are none; the key has to be new. -/
def insertDotted (dots : List String) (key : String) (d : Document) (origin : Origin)
    (es : Entries) : Option Entries :=
  change .dotted (· != .header) (fun origin es =>
    if (origin == .dotted) == dots.isEmpty then none
    else if (es.lookup? key).isSome then none
    else some (es.put key (.value d))) dots origin es

def insert (root : Entries) (header dots : List String) (key : String) (d : Document) :
    Option Entries :=
  changeUnderHeader (insertDotted dots key d) header root

end Entries

mutual

def Node.toDocument : Node → Document
  | .value d => d
  | .table _ entries => .table (documentEntries entries)
  | .tables earlier last => .list (documentTables earlier ++ [.table (documentEntries last)])

def documentEntries : List (String × Node) → List (String × Document)
  | [] => []
  | (key, node) :: rest => (key, node.toDocument) :: documentEntries rest

def documentTables : List (List (String × Node)) → List Document
  | [] => []
  | entries :: rest => .table (documentEntries entries) :: documentTables rest

end

end Gatehouse.Toml
