import Gatehouse.Pipeline.Stage

/-!
# Checks and translations

The validators and translators that services put into their pipelines.

* `Validator.header`: a header has to have a certain value.
* `Translator.plain`, `Translator.remap`, `Translator.keep`: failures as plain text, as failures of
  another kind, and unchanged.
-/

namespace Gatehouse.Pipeline

def validatorLabel : String := "validate"

/-- Accepts the requests whose first header of a name, in whatever case it is written, has a certain
value. -/
def Validator.header (name value : String) : Validator :=
  { label := validatorLabel
    check := fun r =>
      if Http.Headers.get? r.headers (Http.lowerName name) = some value.toUTF8.toList then .accepted
      else .rejected ⟨.clientInput, "expected " ++ value⟩ }

namespace Translator

def plain : Translator := fun f => .outcome (.ok ⟨f.status, [], .text f.message⟩)

/-- Gives failures another kind and keeps their text. -/
def remap (kind : FailureKind) : Translator := fun f => .outcome (.error ⟨kind, f.toText⟩)

def keep : Translator := fun f => .outcome (.error f)

end Translator

end Gatehouse.Pipeline
