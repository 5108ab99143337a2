import Gatehouse.Http.Message
import Gatehouse.Proofs.Document.Json

/-!
# How failures are answered

A failure is answered with the status of its kind and a small JSON text, from which whoever
receives it reads its kind and its message, whatever characters there are in the message. So no two
failures are answered alike.

* `FailureKind.name_injective`: a kind is told by its name.
* `FailureKind.answers`: the nine names, and the status that goes with each.
* `Failure.body_injective`: a failure is told by its document.
* `Failure.answered_as_told`: the whole answer.
-/

namespace Gatehouse

namespace FailureKind

theorem ofName?_name (k : FailureKind) : ofName? k.name = some k := by
  cases k <;> rfl

theorem name_injective : Function.Injective name := by
  intro k k' h
  have hFound := ofName?_name k
  rw [h, ofName?_name] at hFound
  exact (Option.some.inj hFound).symm

/-- The name that is told of each kind, and the status. -/
def answers : List (String × Nat) :=
  [("client_input", 400), ("internal", 500), ("unavailable", 503), ("rate_limited", 429),
    ("bulkhead_full", 503), ("breaker_open", 503), ("deadline_exceeded", 504), ("cancelled", 499),
    ("panic_recovered", 500)]

theorem mem_answers (k : FailureKind) : (k.name, k.status) ∈ answers := by
  cases k <;> decide

end FailureKind

namespace Failure

open Document (Json.Plain Json.parse Json.render)

theorem plain_body (f : Failure) : Json.Plain f.body := by
  refine Document.Json.plain_table.mpr ?_
  simp only [List.forall_mem_cons]
  exact ⟨.text _, .text _, nofun⟩

theorem body_injective : Function.Injective body := by
  rintro ⟨kind, message⟩ ⟨kind', message'⟩ h
  simp only [body, Document.table.injEq, List.cons.injEq, Prod.mk.injEq, Document.text.injEq,
    true_and, and_true] at h
  rw [FailureKind.name_injective h.1, h.2]

/-- A failure is answered with the status of its kind, and as JSON. The text that is sent is read as
a document with two entries, the name of the kind and the message as it was, character by character.
Only the same failure is answered with the same text. -/
theorem answered_as_told (f : Failure) :
    (Http.Outcome.render (.error f)).status = f.kind.status ∧
    (f.kind.name, (Http.Outcome.render (.error f)).status) ∈ FailureKind.answers ∧
    (Http.Outcome.render (.error f)).headers =
      [⟨"content-type", Http.asciiBytes "application/json"⟩] ∧
    (∃ text, (Http.Outcome.render (.error f)).body = .text text ∧
      Json.parse text =
        some (.table [("error", .text f.kind.name), ("message", .text f.message)])) ∧
    ∀ g, (Http.Outcome.render (.error g)).body = (Http.Outcome.render (.error f)).body ↔ g = f := by
  refine ⟨rfl, f.kind.mem_answers, rfl, ⟨Json.render f.body, rfl, ?_⟩,
    fun g => ⟨fun hSame => ?_, ?_⟩⟩
  · exact Document.Json.parse_render f.plain_body
  · have hText : Json.render g.body = Json.render f.body := Http.Body.text.inj hSame
    exact body_injective (Document.Json.render_injective g.plain_body f.plain_body hText)
  · rintro rfl
    rfl

/-- Quotes, a backslash, a line break, a control and a letter that is not ASCII. -/
example : Json.render (body ⟨.internal, "\"a\\\n\x01é\""⟩) =
    "\x7b\"error\":\"internal\",\"message\":\"\\\"a\\\\\\n\\u0001é\\\"\"\x7d" := by
  decide

end Failure

end Gatehouse
