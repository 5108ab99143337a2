import Gatehouse.Config.Decode
import Gatehouse.Config.Validate
import Gatehouse.Toml.Reader

/-!
# Loading a configuration

A configuration file is UTF-8 text in TOML. It is read, decoded and validated, and the first step
that fails tells why there is no configuration.

* `Config.parse`: a configuration from its text.
* `Config.load`: a configuration from the bytes of a file, if there is one.
-/

namespace Gatehouse.Config

inductive LoadError where
  | notFound
  | invalidData
  /-- The text is not TOML, or a value does not fit its field. -/
  | unreadable
  | invalid (problems : List Problem)
  deriving DecidableEq, Repr

def invalidText (problems : List Problem) : String :=
  "Validation failed: " ++ joinProblems problems

def parse (text : String) : Except LoadError Config :=
  match (Toml.parse text).bind (Config.decode? .toml) with
  | none => .error .unreadable
  | some config =>
    match config.validate with
    | .ok () => .ok config
    | .error problems => .error (.invalid problems)

/-- A configuration from the bytes of its file, `none` standing for a file that does not exist. -/
def load (content : Option ByteArray) : Except LoadError Config :=
  match content with
  | none => .error .notFound
  | some bytes =>
    match String.fromUTF8? bytes with
    | none => .error .invalidData
    | some text => parse text

end Gatehouse.Config
