import Gatehouse.Document.Basic
import Gatehouse.Toml.Text

/-!
# Numbers and dates in TOML

Integers in four radixes, within 64 bits; floating point numbers; dates, times of day and both
together. Digits may be grouped by single underscores. A date says no more here than that it is
one, but it has to be a day of the calendar.

* `integer`, `float`, `moment`: the three kinds.
* `numeric`: any of them, dates first.
-/

namespace Gatehouse.Toml

/-- Digits of a radix, grouped by single underscores, with a digit at both ends. -/
def groupedDigits (isDigit : Char → Bool) : List Char → List Char × List Char
  | '_' :: c :: rest =>
    if isDigit c then
      let (ds, tail) := groupedDigits isDigit rest
      (c :: ds, tail)
    else ([], '_' :: c :: rest)
  | c :: rest =>
    if isDigit c then
      let (ds, tail) := groupedDigits isDigit rest
      (c :: ds, tail)
    else ([], c :: rest)
  | [] => ([], [])

def digitRun (isDigit : Char → Bool) : List Char → Found (List Char)
  | c :: rest => if isDigit c then some (groupedDigits isDigit (c :: rest)) else none
  | [] => none

def digitsValue (radix : Nat) (ds : List Char) : Nat :=
  ds.foldl (fun n c => n * radix + (hexValue? c).getD 0) 0

def sign : List Char → Bool × List Char
  | '-' :: rest => (true, rest)
  | '+' :: rest => (false, rest)
  | cs => (false, cs)

/-- The digits of a decimal integer: no zero in front of other digits. -/
def decimalDigits : List Char → Found (List Char)
  | '0' :: rest => some (['0'], rest)
  | cs => digitRun Char.isDigit cs

def isHexDigit (c : Char) : Bool := (hexValue? c).isSome

def isOctalDigit (c : Char) : Bool := '0' ≤ c && c ≤ '7'

def isBinaryDigit (c : Char) : Bool := c == '0' || c == '1'

/-- An integer as a document, where it fits into 64 bits with a sign. -/
def boundedInteger (negative : Bool) (n : Nat) (rest : List Char) : Found Document :=
  if negative then if n ≤ Nat.pow 2 63 then some (.integer (-n), rest) else none
  else if n < Nat.pow 2 63 then some (.integer n, rest) else none

/-- An integer: with a radix mark and no sign, or decimal. -/
def integer : List Char → Found Document
  | '0' :: 'x' :: rest =>
    (digitRun isHexDigit rest).bind fun p => boundedInteger false (digitsValue 16 p.1) p.2
  | '0' :: 'o' :: rest =>
    (digitRun isOctalDigit rest).bind fun p => boundedInteger false (digitsValue 8 p.1) p.2
  | '0' :: 'b' :: rest =>
    (digitRun isBinaryDigit rest).bind fun p => boundedInteger false (digitsValue 2 p.1) p.2
  | cs =>
    let (negative, cs) := sign cs
    (decimalDigits cs).bind fun p => boundedInteger negative (digitsValue 10 p.1) p.2

/-- The number halfway from the largest finite number of binary64 to the next power of two. -/
def halfwayToInfinity : Nat := Nat.pow 2 1024 - Nat.pow 2 970

/-- Whether `m * 10 ^ e` is rounded to infinity in binary64. -/
def overflows (m : Nat) (e : Int) : Bool :=
  let size : Int := (Nat.toDigits 10 m).length + e
  if m = 0 ∨ size < 300 then false
  else if 320 < size then true
  else if 0 ≤ e then halfwayToInfinity ≤ m * Nat.pow 10 e.toNat
  else halfwayToInfinity * Nat.pow 10 (-e).toNat ≤ m

def exponent : List Char → Found Int
  | c :: rest =>
    if c = 'e' ∨ c = 'E' then
      let (negative, rest) := sign rest
      (digitRun Char.isDigit rest).map fun p =>
        let n : Int := digitsValue 10 p.1
        (if negative then -n else n, p.2)
    else none
  | [] => none

def startsExponent : List Char → Bool
  | c :: _ => c == 'e' || c == 'E'
  | [] => false

/-- A finite number as a document, unless it is positive and too large. -/
def finite (negative : Bool) (ds : List Char) (e : Int) (rest : List Char) : Found Document :=
  let m := digitsValue 10 ds
  if !negative && overflows m e then none
  else some (.decimal (if negative then -(m : Int) else m) e, rest)

/-- Infinity or no number at all, which no field of a configuration can hold. -/
def special : List Char → Found Document
  | 'i' :: 'n' :: 'f' :: rest => some (.decimal 0 0, rest)
  | 'n' :: 'a' :: 'n' :: rest => some (.decimal 0 0, rest)
  | _ => none

/-- A floating point number: it has a fraction, an exponent, or both. Once a point or an exponent
has begun, it has to be complete. The result is `none` where there is no floating point number. -/
def float (cs : List Char) : Option (Found Document) :=
  let (negative, cs) := sign cs
  match special cs with
  | some found => some (some found)
  | none =>
    match decimalDigits cs with
    | none => none
    | some (whole, rest) =>
      match rest with
      | '.' :: tail =>
        match digitRun Char.isDigit tail with
        | none => some none
        | some (fraction, rest) =>
          let places : Int := fraction.length
          if startsExponent rest then
            some ((exponent rest).bind fun p =>
              finite negative (whole ++ fraction) (p.1 - places) p.2)
          else some (finite negative (whole ++ fraction) (-places) rest)
      | rest =>
        if startsExponent rest then
          some ((exponent rest).bind fun p => finite negative whole p.1 p.2)
        else none

def fixedDigits : Nat → List Char → Found (List Char)
  | 0, cs => some ([], cs)
  | n + 1, c :: rest =>
    if c.isDigit then (fixedDigits n rest).map fun p => (c :: p.1, p.2) else none
  | _ + 1, [] => none

def twoDigits (low high : Nat) (cs : List Char) : Found Nat :=
  match fixedDigits 2 cs with
  | some (ds, rest) =>
    if low ≤ digitsValue 10 ds ∧ digitsValue 10 ds ≤ high then some (digitsValue 10 ds, rest)
    else none
  | none => none

def isLeapYear (y : Nat) : Bool := y % 4 == 0 && (y % 100 != 0 || y % 400 == 0)

def daysInMonth (year month : Nat) : Nat :=
  if month = 2 then if isLeapYear year then 29 else 28
  else if month = 4 ∨ month = 6 ∨ month = 9 ∨ month = 11 then 30
  else 31

def monthAndDay (year : Nat) (cs : List Char) : Option (List Char) :=
  match twoDigits 1 12 cs with
  | some (month, '-' :: rest) =>
    match twoDigits 1 31 rest with
    | some (day, rest) => if day ≤ daysInMonth year month then some rest else none
    | none => none
  | _ => none

def minutesAndSeconds (cs : List Char) : Option (List Char) :=
  match twoDigits 0 59 cs with
  | some (_, ':' :: rest) =>
    match twoDigits 0 60 rest with
    | some (_, '.' :: c :: rest) =>
      if c.isDigit then some (rest.dropWhile Char.isDigit) else some ('.' :: c :: rest)
    | some (_, rest) => some rest
    | none => none
  | _ => none

/-- An hour and its colon, which make what follows a time of day. -/
def hour : List Char → Option (List Char)
  | cs => match twoDigits 0 23 cs with
    | some (_, ':' :: rest) => some rest
    | _ => none

def offset : List Char → Option (List Char)
  | c :: rest =>
    if c = 'Z' ∨ c = 'z' then some rest
    else if c = '+' ∨ c = '-' then
      match hour rest with
      | some rest => (twoDigits 0 59 rest).map (·.2)
      | none => none
    else some (c :: rest)
  | [] => some []

/-- The time of day that may follow a date, behind a letter `T` or a blank. -/
def timeAfterDate : List Char → Option (List Char)
  | c :: rest =>
    if c = 'T' ∨ c = 't' ∨ c = ' ' then
      match hour rest with
      | some rest => (minutesAndSeconds rest).bind offset
      | none => some (c :: rest)
    else some (c :: rest)
  | [] => some []

/-- A date with or without a time, or a time of day: `none` where neither begins here. -/
def moment (cs : List Char) : Option (Option (List Char)) :=
  match fixedDigits 4 cs with
  | some (year, '-' :: rest) =>
    some ((monthAndDay (digitsValue 10 year) rest).bind timeAfterDate)
  | _ => (hour cs).map minutesAndSeconds

def before (cs rest : List Char) : List Char := cs.take (cs.length - rest.length)

/-- What starts with a digit or a sign: a date or time, a floating point number, or an integer. -/
def numeric (cs : List Char) : Found Document :=
  match moment cs with
  | some ended => ended.map fun rest => (.moment (String.ofList (before cs rest)), rest)
  | none =>
    match float cs with
    | some found => found
    | none => integer cs

end Gatehouse.Toml
