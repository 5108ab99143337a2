/-!
# Structured documents

What a configuration file or a message body says once its notation has been read: scalars, lists
and tables. A table keeps its entries in the order in which they were written.

* `Document.lookup?`: the first entry of a name.
-/

namespace Gatehouse

/-- A document in any of the notations that this library reads. -/
inductive Document where
  | null
  | boolean (value : Bool)
  | integer (value : Int)
  /-- A number that was written with a fraction or an exponent, or that is no finite integer:
  `mantissa * 10 ^ exponent`. -/
  | decimal (mantissa exponent : Int)
  | text (value : String)
  /-- A date, a time of day, or both, as it was written. -/
  | moment (written : String)
  | list (items : List Document)
  | table (entries : List (String × Document))
  deriving Inhabited

namespace Document

/-- The value of the first entry called `name`. -/
def lookup? (entries : List (String × Document)) (name : String) : Option Document :=
  (entries.find? (·.1 == name)).map (·.2)

def get? : Document → String → Option Document
  | table entries, name => lookup? entries name
  | _, _ => none

end Document

end Gatehouse
