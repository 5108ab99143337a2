/-!
# Probe paths

The paths on which an orchestrator asks how the service is. A request to one of them, or to
anything below one, has to be answered whatever the load.
-/

namespace Gatehouse.Http

def livenessPath : String := "/livez"

def readinessPath : String := "/readyz"

def healthPath : String := "/healthz"

def probePaths : List String := [livenessPath, readinessPath, healthPath]

/-- What is left of a list of characters after another one it starts with. -/
def remainder? : List Char → List Char → Option (List Char)
  | [], path => some path
  | _ :: _, [] => none
  | a :: probe, b :: path => if a = b then remainder? probe path else none

/-- Whether a path is the given one or lies under it. -/
def isUnder (probe path : String) : Bool :=
  match remainder? probe.toList path.toList with
  | some [] => true
  | some (c :: _) => c == '/'
  | none => false

def isProbePath (path : String) : Bool := probePaths.any fun probe => isUnder probe path

end Gatehouse.Http
