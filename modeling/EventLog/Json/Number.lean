import EventLog.Json

/-!
# Reading JSON numbers

A number is written as a whole part without superfluous zeros, perhaps a fraction, and perhaps a
power of ten.  A whole number of at most 64 bits is kept exactly.  Any other number becomes one of
double precision in a fast and slightly inexact way: the digits are gathered in 64 bits as far as
they fit (`JsonNumber.gather`), and the result is multiplied or divided by a power of ten once
(`JsonNumber.scaled?`).  A number too large for double precision is refused.
-/

namespace EventLog.JsonNumber

/-- The parts of a number as written. -/
structure Parts where
  negative : Bool
  whole : Text
  /-- The digits behind the point, if there is one. -/
  fraction : Option Text
  /-- The power of ten, if there is one. -/
  power : Option Int
deriving Repr, DecidableEq

/-- Takes all digits at the front, at least one. -/
def digits? (t : Text) : Option (Text × Text) :=
  let digits := t.takeWhile Char.isDigit
  if digits = [] then none else some (digits, t.dropWhile Char.isDigit)

/-- The digits of the whole part: a single zero, or digits of which the first is not zero. -/
def whole? (t : Text) : Option (Text × Text) :=
  (digits? t).filter fun (digits, _) => digits.length = 1 || digits.head? != some '0'

/-- The digits behind a point, if there is one. -/
def fraction? : Text → Option (Option Text × Text)
  | '.' :: t => (digits? t).map fun (digits, rest) => (some digits, rest)
  | t        => some (none, t)

/-- A sign, if there is one, and what follows it. -/
def sign : Text → Bool × Text
  | '-' :: t => (true, t)
  | '+' :: t => (false, t)
  | t        => (false, t)

/-- The power of ten behind the letter for it. -/
def signedPower? (t : Text) : Option (Option Int × Text) :=
  (digits? (sign t).2).map fun (digits, rest) =>
    (some (if (sign t).1 then -(Text.toNat digits : Int) else Text.toNat digits), rest)

/-- The power of ten, if there is one. -/
def power? : Text → Option (Option Int × Text)
  | 'e' :: t => signedPower? t
  | 'E' :: t => signedPower? t
  | t        => some (none, t)

/-- A minus sign, if there is one, and what follows it. -/
def minus : Text → Bool × Text
  | '-' :: t => (true, t)
  | t        => (false, t)

/-- The parts of a number that takes up the whole text. -/
def parts? (t : Text) : Option Parts := do
  let (whole, rest) ← whole? (minus t).2
  let (fraction, rest) ← fraction? rest
  let (power, rest) ← power? rest
  guard (rest = [])
  return ⟨(minus t).1, whole, fraction, power⟩

/-! ### Conversion -/

/-- The greatest number of 64 bits, 2^64 - 1. -/
def maxWord : Nat := 0xFFFFFFFFFFFFFFFF

/-- The least number of 64 bits with a sign is this one negated. -/
def maxNegated : Nat := 0x8000000000000000

/-- Appends digits to a number as long as it stays within 64 bits; gives the number, how many digits
it took and how many it left. -/
def gather (n taken : Nat) : Text → Nat × Nat × Nat
  | []      => (n, taken, 0)
  | d :: ds =>
    let next := n * 10 + (d.toNat - '0'.toNat)
    if next ≤ maxWord then gather next (taken + 1) ds else (n, taken, (d :: ds).length)

/-- A power of ten, at most 308. -/
def powerOfTen (n : Nat) : Float := Float.ofScientific 1 false n

/-- A number below 2^64 times a power of ten.  A negative power below -308 is taken in steps; two
of them make any such number zero. -/
def scaled? (x : Float) (power : Int) : Nat → Option Float
  | 0         => some x
  | steps + 1 =>
    if power.natAbs ≤ 308 then
      if 0 ≤ power then
        let y := x * powerOfTen power.natAbs
        if y.isInf then none else some y
      else some (x / powerOfTen power.natAbs)
    else if x == 0 then some x
    else if 0 ≤ power then none
    else scaled? (x / powerOfTen 308) (power + 308) steps

/-- The number of double precision that the parts denote. -/
def double? (p : Parts) : Option Double := do
  let (n, _, left) := gather 0 0 p.whole
  let (n, taken, _) := gather n 0 (p.fraction.getD [])
  let x ← scaled? n.toUInt64.toFloat (p.power.getD 0 + left - taken) 3
  return .ofFloat (if p.negative then -x else x)

/-- The whole number that the parts denote, if they have neither fraction nor power and it fits;
there is no negative zero among the whole numbers. -/
def integer? (p : Parts) : Option Int :=
  let n := Text.toNat p.whole
  if p.fraction.isSome || p.power.isSome then none
  else if p.negative then if 0 < n ∧ n ≤ maxNegated then some (-(n : Int)) else none
  else if n ≤ maxWord then some n else none

/-- The number that a text denotes. -/
def read? (t : Text) : Option JsonNumber := do
  let p ← parts? t
  match integer? p with
  | some n => return .integer n
  | none   => return .double (← double? p)

end EventLog.JsonNumber
