/-!
# Socket addresses

The text form of an address and a port: `a.b.c.d:port`, or an IPv6 address in brackets, with an
optional numeric scope after a percent sign, and a port. Names are not resolved.

* `SocketAddress.parse?`: reads a whole text.
-/

namespace Gatehouse.Config

inductive SocketAddress where
  | v4 (octets : List Nat) (port : Nat)
  | v6 (groups : List Nat) (scope : Nat) (port : Nat)
  deriving DecidableEq, Repr

namespace SocketAddress

/-- A reader: what it found, and the characters after it. -/
abbrev Reader (α : Type) := List Char → Option (α × List Char)

/-- The value of an ASCII digit, or of a letter from `a` to `f` in either case. -/
def digitValue? (c : Char) : Option Nat :=
  let n := c.toNat
  if 0x30 ≤ n ∧ n ≤ 0x39 then some (n - 0x30)
  else if 0x61 ≤ n ∧ n ≤ 0x66 then some (n - 0x57)
  else if 0x41 ≤ n ∧ n ≤ 0x46 then some (n - 0x37)
  else none

def digits (radix : Nat) : List Char → List Nat × List Char
  | [] => ([], [])
  | c :: rest =>
    match digitValue? c with
    | some d =>
      if d < radix then
        let (ds, tail) := digits radix rest
        (d :: ds, tail)
      else ([], c :: rest)
    | none => ([], c :: rest)

def value (radix : Nat) (ds : List Nat) : Nat := ds.foldl (fun n d => n * radix + d) 0

/-- A number that is not above `limit`. `maxDigits` bounds its digits where there is a bound, and
a zero may stand in front of other digits only if `leadingZero` says so. -/
def number (radix limit : Nat) (maxDigits : Option Nat) (leadingZero : Bool) : Reader Nat :=
  fun cs =>
    let (ds, rest) := digits radix cs
    if ds.isEmpty then none
    else if maxDigits.any (· < ds.length) then none
    else if !leadingZero && ds.head? == some 0 && 1 < ds.length then none
    else if limit < value radix ds then none
    else some (value radix ds, rest)

def char (c : Char) : Reader Unit
  | d :: rest => if c = d then some ((), rest) else none
  | [] => none

/-- A part of an IPv4 address: at most three digits, and no zero in front of others. -/
def octet : Reader Nat := number 10 255 (some 3) false

def ipv4 : Reader (List Nat) := fun cs => do
  let (a, cs) ← octet cs
  let ((), cs) ← char '.' cs
  let (b, cs) ← octet cs
  let ((), cs) ← char '.' cs
  let (c, cs) ← octet cs
  let ((), cs) ← char '.' cs
  let (d, cs) ← octet cs
  pure ([a, b, c, d], cs)

/-- A reader behind the colon that stands before every group but the first. -/
def afterColon {α : Type} (first : Bool) (r : Reader α) : Reader α := fun cs =>
  if first then r cs
  else match char ':' cs with
    | some ((), cs) => r cs
    | none => none

/-- A group of an IPv6 address: at most four hexadecimal digits. -/
def group : Reader Nat := number 16 0xffff (some 4) true

def embedded (octets : List Nat) : List Nat :=
  match octets with
  | [a, b, c, d] => [a * 256 + b, c * 256 + d]
  | _ => []

/-- At most `room` groups, and whether the last two were an embedded IPv4 address, which ends the
groups and needs room for two. -/
def groups (first : Bool) : Nat → List Char → (List Nat × Bool) × List Char
  | 0, cs => (([], false), cs)
  | room + 1, cs =>
    match if 0 < room then afterColon first ipv4 cs else none with
    | some (octets, rest) => ((embedded octets, true), rest)
    | none =>
      match afterColon first group cs with
      | some (g, rest) =>
        let ((gs, ended), rest) := groups false room rest
        ((g :: gs, ended), rest)
      | none => (([], false), cs)

/-- Eight groups, or fewer with one double colon that stands for at least one group of zero. An
embedded IPv4 address may only come last. -/
def ipv6 : Reader (List Nat) := fun cs =>
  let ((front, ended), rest) := groups true 8 cs
  if front.length = 8 then some (front, rest)
  else if ended then none
  else match rest with
    | ':' :: ':' :: rest =>
      let ((back, _), rest) := groups true (7 - front.length) rest
      some (front ++ List.replicate (8 - front.length - back.length) 0 ++ back, rest)
    | _ => none

def port : Reader Nat := fun cs =>
  match char ':' cs with
  | some ((), cs) => number 10 65535 none true cs
  | none => none

/-- A percent sign and the number of a scope; without one the scope is zero. -/
def scope (cs : List Char) : Nat × List Char :=
  match cs with
  | '%' :: rest => (number 10 4294967295 none true rest).getD (0, cs)
  | _ => (0, cs)

def v4Address : Reader SocketAddress := fun cs => do
  let (octets, cs) ← ipv4 cs
  let (p, cs) ← port cs
  pure (.v4 octets p, cs)

def v6Address : Reader SocketAddress := fun cs => do
  let ((), cs) ← char '[' cs
  let (gs, cs) ← ipv6 cs
  let (s, cs) := scope cs
  let ((), cs) ← char ']' cs
  let (p, cs) ← port cs
  pure (.v6 gs s p, cs)

def parse? (s : String) : Option SocketAddress :=
  match (v4Address s.toList).orElse fun _ => v6Address s.toList with
  | some (address, []) => some address
  | _ => none

end SocketAddress

end Gatehouse.Config
