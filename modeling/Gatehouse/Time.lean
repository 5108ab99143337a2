/-!
# Time

Instants and durations are natural numbers of nanoseconds throughout the library, an instant
counting from the start of the clock. Arithmetic on them is exact, but a clock does not show every
instant.

* `Duration.ofMillis`, `Duration.ofSeconds`: durations in other units.
* `Instant.after?`: the instant that is some time away, if the clock will ever show it.
* `Duration.toText`: the largest unit whose whole part is not zero, then the fraction without
  trailing zeros.
-/

namespace Gatehouse

namespace Duration

def nanosPerMicro : Nat := 1000

def nanosPerMilli : Nat := 1000000

def nanosPerSecond : Nat := 1000000000

def ofMillis (ms : Nat) : Nat := ms * nanosPerMilli

-- The literal is on the left, where a comparison with it does not unfold it.
def ofSeconds (s : Nat) : Nat := nanosPerSecond * s

/-- Whole milliseconds, what is left over is dropped. -/
def toMillis (d : Nat) : Nat := d / nanosPerMilli

/-- The lowest `width` decimal digits of `n`, with leading zeros. -/
def paddedDigits (width n : Nat) : List Char :=
  let digits := Nat.toDigits 10 n
  List.replicate (width - digits.length) '0' ++ digits

def dropTrailingZeros (digits : List Char) : List Char :=
  (digits.reverse.dropWhile (· == '0')).reverse

/-- `n / 10 ^ places` in decimal, without trailing zeros after the point and without a point
when nothing follows it. -/
def decimal (n places : Nat) : String :=
  let fraction := dropTrailingZeros (paddedDigits places (n % Nat.pow 10 places))
  let whole := toString (n / Nat.pow 10 places)
  if n % Nat.pow 10 places = 0 then whole else whole ++ "." ++ String.ofList fraction

/-- A duration in its largest unit with a whole part: `1.5s`, `20ms`, `1.5µs`, `999ns`. -/
def toText (d : Nat) : String :=
  if nanosPerSecond ≤ d then decimal d 9 ++ "s"
  else if nanosPerMilli ≤ d then decimal d 6 ++ "ms"
  else if nanosPerMicro ≤ d then decimal d 3 ++ "µs"
  else decimal d 0 ++ "ns"

end Duration

namespace Instant

/-- The last instant that a clock shows: its seconds are a signed number of 64 bits. -/
def latest : Nat := Nat.pow 2 63 * Duration.nanosPerSecond - 1

/-- The instant that is `d` after `now`, if there is one. Whoever asks for a later one panics. -/
def after? (now d : Nat) : Option Nat := if now + d ≤ latest then some (now + d) else none

theorem after?_eq_some_iff {now d t : Nat} :
    after? now d = some t ↔ now + d ≤ latest ∧ now + d = t := by
  simp [after?]

theorem after?_eq_none_iff {now d : Nat} : after? now d = none ↔ latest < now + d := by
  simp [after?]

end Instant

end Gatehouse
