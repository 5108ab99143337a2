import Gatehouse.Telemetry.Log
import Gatehouse.Telemetry.Measure

/-!
# The journal

Log events and measurements in the order in which they happened. Operations return the entries
they cause; whoever runs them keeps the journal.
-/

namespace Gatehouse

inductive Entry where
  | log (event : LogEvent)
  | measure (measurement : Measurement)
  deriving DecidableEq, Repr

/-- Entries, oldest first. -/
abbrev Journal := List Entry

namespace Journal

def events (j : Journal) : List LogEvent :=
  j.filterMap fun
    | .log event => some event
    | .measure _ => none

def measurements (j : Journal) : List Measurement :=
  j.filterMap fun
    | .log _ => none
    | .measure m => some m

end Journal

namespace Entry

def error (message : String) (fields : List (String × FieldValue)) : Entry :=
  .log ⟨.error, message, fields⟩

def warn (message : String) (fields : List (String × FieldValue)) : Entry :=
  .log ⟨.warn, message, fields⟩

def info (message : String) (fields : List (String × FieldValue)) : Entry :=
  .log ⟨.info, message, fields⟩

def debug (message : String) (fields : List (String × FieldValue)) : Entry :=
  .log ⟨.debug, message, fields⟩

end Entry

end Gatehouse
