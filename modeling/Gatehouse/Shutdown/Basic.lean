import Gatehouse.Scope.Basic
import Gatehouse.Telemetry.Journal

/-!
# Shutdown

The one place where the end of a process is asked for. The first request fixes the exit code;
every request cancels the root token, and with it every token and scope that was or will be taken
from it.

* `Shutdown.request`: asks for the end of the process.
* `Shutdown.token`, `Shutdown.scope`: what ends with the process.
-/

namespace Gatehouse

/-- The request to stop, which every holder of a token under `root` learns of. -/
structure Shutdown where
  tokens : Tokens
  root : Token
  /-- The code of the first request. -/
  exitCode : Option Int
  deriving DecidableEq, Repr

namespace Shutdown

def create : Shutdown :=
  let (root, tokens) := Tokens.empty.root
  ⟨tokens, root, none⟩

def token (s : Shutdown) : Token × Shutdown :=
  let (t, tokens) := s.tokens.child s.root
  (t, { s with tokens := tokens })

def scope (s : Shutdown) : Scope × Shutdown :=
  let (t, s) := s.token
  (Scope.ofToken t, s)

def requestEvent (code : Int) : Entry :=
  if code = 0 then .info "Shutdown requested" []
  else .warn "Shutdown requested after fatal error" [("exit_code", .number code)]

/-- Asks for the end of the process with an exit code. Only the first code is kept. -/
def request (s : Shutdown) (code : Int) : Shutdown × Journal :=
  let cancelled := s.tokens.cancel s.root
  match s.exitCode with
  | some _ => ({ s with tokens := cancelled }, [])
  | none => ({ s with tokens := cancelled, exitCode := some code }, [requestEvent code])

def trigger (s : Shutdown) : Shutdown × Journal := s.request 0

def isTriggered (s : Shutdown) : Bool := s.tokens.isCancelled s.root

end Shutdown

end Gatehouse
