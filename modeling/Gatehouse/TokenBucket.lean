import Gatehouse.Time

/-!
# Token buckets

One bucket of tokens that fills at a steady rate up to its burst. A request takes a whole token or
is denied; it never waits. The bucket is written over any numbers with the usual operations: the
service counts in floating point, and the same definition over the rationals is the exact bucket.

* `RateLimiter.tryAcquire`: refills for the time that has passed and takes a token if it can.
-/

namespace Gatehouse

instance natCastFloat : NatCast Float := ⟨Float.ofNat⟩

/-- A bucket of `burst` tokens that gains `refillRate` tokens in a second. -/
structure RateLimiter (α : Type) where
  refillRate : α
  burst : Nat
  tokens : α
  updated : Nat
  deriving Repr

namespace RateLimiter

/-- A full bucket. It holds at least one token. -/
def create {α : Type} [NatCast α] (refillRate : α) (burst : Nat) (now : Nat) : RateLimiter α :=
  ⟨refillRate, max burst 1, ((max burst 1 : Nat) : α), now⟩

section
variable {α : Type} [NatCast α] [Add α] [Sub α] [Mul α] [Div α] [LE α] [DecidableLE α]

/-- A duration in seconds: the whole seconds, and the nanoseconds left over as a fraction. -/
def seconds (d : Nat) : α :=
  ((d / Duration.nanosPerSecond : Nat) : α) +
    ((d % Duration.nanosPerSecond : Nat) : α) / ((Duration.nanosPerSecond : Nat) : α)

def smaller (a b : α) : α := if a ≤ b then a else b

/-- The tokens after the time up to `now`, never more than the burst. -/
def refilled (l : RateLimiter α) (now : Nat) : α :=
  smaller (l.tokens + seconds (now - l.updated) * l.refillRate) ((l.burst : Nat) : α)

def tryAcquire (l : RateLimiter α) (now : Nat) : Bool × RateLimiter α :=
  let tokens := l.refilled now
  if ((1 : Nat) : α) ≤ tokens then
    (true, { l with tokens := tokens - ((1 : Nat) : α), updated := now })
  else (false, { l with tokens := tokens, updated := now })

def tryAcquireMany (l : RateLimiter α) (now : Nat) : Nat → List Bool × RateLimiter α
  | 0 => ([], l)
  | n + 1 =>
    let (granted, l) := l.tryAcquire now
    let (rest, l) := l.tryAcquireMany now n
    (granted :: rest, l)

end

end RateLimiter

end Gatehouse
