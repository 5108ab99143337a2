/-!
# Request ids

The id that correlates one request across services. A caller's id is kept where it is short
printable ASCII; otherwise a UUID of version 4 is generated from the next number of a supply.

* `RequestId.ofHeader?`: the caller's id, if it gets through three filters.
* `RequestId.generate`: a UUID in its usual text form, which is an acceptable id as well.
* `RequestId.toHeader?`: the value of a header that is sent on.
-/

namespace Gatehouse.Http

/-- A printable ASCII byte that is no blank. -/
def isGraphic (b : UInt8) : Bool := 0x21 ≤ b && b ≤ 0x7e

def maxIdLength : Nat := 128

def isAcceptableId (bytes : List UInt8) : Bool :=
  !bytes.isEmpty && bytes.length ≤ maxIdLength && bytes.all isGraphic

/-- A byte that a header value may hold: a tab, or anything but the controls. -/
def isHeaderByte (b : UInt8) : Bool := b == 0x09 || (0x20 ≤ b && b != 0x7f)

/-- A byte of a header value that can be read as text: a tab, or ASCII but the controls. -/
def isTextByte (b : UInt8) : Bool := b == 0x09 || (0x20 ≤ b && b < 0x7f)

namespace Uuid

def digitByte (n : Nat) : UInt8 :=
  if n < 10 then (0x30 + n).toUInt8 else (0x57 + n % 16).toUInt8

/-- The bytes of a UUID of version 4 at position `i` of its text; `bits` gives the free digits,
four bits for each position. -/
def byteAt (bits i : Nat) : UInt8 :=
  if i = 8 ∨ i = 13 ∨ i = 18 ∨ i = 23 then 0x2d
  else if i = 14 then 0x34
  else if i = 19 then digitByte (8 + (bits >>> (4 * i)) % 4)
  else digitByte ((bits >>> (4 * i)) % 16)

def textLength : Nat := 36

def v4 (bits : Nat) : List UInt8 := (List.range textLength).map (byteAt bits)

theorem length_v4 (bits : Nat) : (v4 bits).length = 36 := by simp [v4, textLength]

theorem isGraphic_digitByte : ∀ n < 16, isGraphic (digitByte n) = true := by decide

theorem isGraphic_byteAt (bits i : Nat) : isGraphic (byteAt bits i) = true := by
  unfold byteAt
  split
  · decide
  · split
    · decide
    · split
      · exact isGraphic_digitByte _ (by omega)
      · exact isGraphic_digitByte _ (by omega)

theorem isAcceptableId_v4 (bits : Nat) : isAcceptableId (v4 bits) = true := by
  have hne : v4 bits ≠ [] := by
    intro h
    have := length_v4 bits
    simp [h] at this
  simp only [isAcceptableId, Bool.and_eq_true, Bool.not_eq_true', List.isEmpty_eq_false_iff,
    List.all_eq_true, decide_eq_true_eq]
  refine ⟨⟨hne, by simp [length_v4, maxIdLength]⟩, ?_⟩
  intro b hb
  obtain ⟨i, -, rfl⟩ := List.mem_map.1 hb
  exact isGraphic_byteAt bits i

end Uuid

structure RequestId where
  bytes : List UInt8
  acceptable : isAcceptableId bytes = true
  deriving DecidableEq, Repr

/-- Where generated ids come from: the number of the next one. -/
abbrev IdSupply := Nat

namespace RequestId

/-- The value of a header as text, in which each of these bytes is one character. -/
def headerText? (value : List UInt8) : Option (List UInt8) :=
  if value.all isTextByte then some value else none

/-- What a caller sends as its id, if it is text, neither empty nor too long, and graphic. -/
def kept? (value : List UInt8) : Option (List UInt8) :=
  ((headerText? value).filter fun id => !id.isEmpty && id.length ≤ maxIdLength).filter
    fun id => id.all isGraphic

theorem isAcceptableId_of_kept? {value id : List UInt8} (h : kept? value = some id) :
    isAcceptableId id = true := by
  obtain ⟨hLength, hGraphic⟩ := Option.filter_eq_some_iff.mp h
  obtain ⟨-, hLength⟩ := Option.filter_eq_some_iff.mp hLength
  exact Bool.and_eq_true_iff.mpr ⟨hLength, hGraphic⟩

/-- The caller's id, where it can be kept. -/
def ofHeader? (value : List UInt8) : Option RequestId :=
  (kept? value).pmap RequestId.mk fun _ => isAcceptableId_of_kept?

def generate (supply : IdSupply) : RequestId × IdSupply :=
  (⟨Uuid.v4 supply, Uuid.isAcceptableId_v4 supply⟩, supply + 1)

/-- The caller's id if there is one that can be kept, and a generated one otherwise. -/
def assign (value : Option (List UInt8)) (supply : IdSupply) : RequestId × IdSupply :=
  match value.bind ofHeader? with
  | some id => (id, supply)
  | none => generate supply

def toText (id : RequestId) : String :=
  String.ofList (id.bytes.map fun b => Char.ofNat b.toNat)

/-- The id as the value of a header, if all of its bytes may stand there. -/
def toHeader? (id : RequestId) : Option (List UInt8) :=
  if id.bytes.all isHeaderByte then some id.bytes else none

end RequestId

def requestIdHeader : String := "x-request-id"

end Gatehouse.Http
