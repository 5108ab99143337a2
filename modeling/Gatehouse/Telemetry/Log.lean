/-!
# Log events

An event has a severity, a message and named fields. Events are data: the operations of this
library return them in the order in which they happen.
-/

namespace Gatehouse

inductive Severity where
  | error
  | warn
  | info
  | debug
  deriving DecidableEq, Repr

inductive FieldValue where
  | text (value : String)
  | number (value : Int)
  deriving DecidableEq, Repr

/-- A log event; its fields keep their order. -/
structure LogEvent where
  severity : Severity
  message : String
  fields : List (String × FieldValue)
  deriving DecidableEq, Repr

end Gatehouse
