import EventLog.Text

/-!
# The shortest decimal that reads back

A binary floating-point number stands for all reals that round to it.  Its shortest decimal is the
one with the fewest digits among them, of several the nearest to the number itself, and of two
equally near the one with the even last digit.

`Binary` is a positive number `m * 2 ^ q`; the numbers between it and its neighbours are kept apart
in exact arithmetic, as fractions of natural numbers.  For 1, 2, … digits the two decimals around
the number are tried (`Binary.tryDigits`), and the first length with a hit wins.
-/

namespace EventLog

/-- The positive number `mantissa * 2 ^ exponent`. -/
structure Binary where
  mantissa : Nat
  exponent : Int
  /-- The next number below is nearer than the next one above. -/
  narrowBelow : Bool
deriving Repr, DecidableEq

/-- The number `digits * 10 ^ exponent`. -/
structure Decimal where
  digits : Nat
  exponent : Int
deriving Repr, DecidableEq

namespace Binary

/-- Numbers `n * 2 ^ (exponent - 2)` as fractions: the factor of `n`, and the denominator. -/
def scale (b : Binary) : Nat × Nat :=
  (Nat.pow 2 (b.exponent - 2).toNat, Nat.pow 2 (2 - b.exponent).toNat)

/-- The numerator of the number. -/
def center (b : Binary) : Nat := 4 * b.mantissa * b.scale.1

/-- The numerator of the middle between the number and the next one below. -/
def low (b : Binary) : Nat := (4 * b.mantissa - if b.narrowBelow then 1 else 2) * b.scale.1

/-- The numerator of the middle between the number and the next one above. -/
def high (b : Binary) : Nat := (4 * b.mantissa + 2) * b.scale.1

/-- The denominator of the three. -/
def denominator (b : Binary) : Nat := b.scale.2

/-- The power of ten of the number's first digit. -/
def leadingPower (b : Binary) : Int :=
  if b.denominator ≤ b.center then
    ((Text.ofNat (b.center / b.denominator)).length : Int) - 1
  else -((Text.ofNat ((b.denominator + b.center - 1) / b.center - 1)).length : Int)

/-- Whether `n * 10 ^ power` rounds to the number. -/
def reads (b : Binary) (n : Nat) (power : Int) : Bool :=
  let x := n * Nat.pow 10 power.toNat * b.denominator
  let unit := Nat.pow 10 (-power).toNat
  if b.mantissa % 2 = 0 then b.low * unit ≤ x && x ≤ b.high * unit
  else b.low * unit < x && x < b.high * unit

/-- The better of the two decimals of a length around the number, if one rounds to it. -/
def tryDigits (b : Binary) (length : Nat) : Option Decimal :=
  let power := b.leadingPower + 1 - length
  let unit := Nat.pow 10 power.toNat * b.denominator
  let x := b.center * Nat.pow 10 (-power).toNat
  let n := x / unit
  match b.reads n power, b.reads (n + 1) power with
  | true, true   =>
    let twice := 2 * (x - n * unit)
    if twice < unit ∨ twice = unit ∧ n % 2 = 0 then some ⟨n, power⟩ else some ⟨n + 1, power⟩
  | true, false  => some ⟨n, power⟩
  | false, true  => some ⟨n + 1, power⟩
  | false, false => none

/-- The shortest decimal that rounds to the number; 17 digits are always enough for 53 bits. -/
def shortest (b : Binary) : Decimal :=
  ((List.range 17).findSome? fun length => b.tryDigits (length + 1)).getD ⟨b.mantissa, 0⟩

end Binary

/-! ### Double precision -/

/-- A floating-point number of double precision, by its bits. -/
structure Double where
  bits : UInt64
deriving Repr, DecidableEq

namespace Double

/-- A floating-point number. -/
def ofFloat (x : Float) : Double := ⟨x.toBits⟩

/-- Whether the sign is set. -/
def negative (d : Double) : Bool := d.bits.toNat.testBit 63

/-- The lowest 52 bits of a number are its fraction. -/
def fractionBound : Nat := 0x10000000000000

/-- The size of a number other than zero, infinity and the like. -/
def binary (d : Double) : Binary :=
  let fraction : Nat := d.bits.toNat % fractionBound
  let power : Nat := d.bits.toNat / fractionBound % 0x800
  if power = 0 then ⟨fraction, -1074, false⟩
  else ⟨fractionBound + fraction, (power : Int) - 1075, fraction = 0 ∧ 1 < power⟩

/-- Whether the number is a zero of either sign. -/
def isZero (d : Double) : Bool := d.bits.toNat % 0x8000000000000000 = 0

/-- The digits of the shortest decimal, and the power of ten of the first one. -/
def shortestDigits (d : Double) : Text × Int :=
  let s := d.binary.shortest
  let digits := Text.ofNat s.digits
  let power := s.exponent + digits.length - 1
  (((digits.reverse.dropWhile (· = '0')).reverse), power)

/-- Digits with a point behind the first `n` of them, zeros filling both sides where needed. -/
def positional (digits : Text) (n : Int) : Text :=
  if n ≤ 0 then "0." ++ List.replicate n.natAbs '0' ++ digits
  else
    let whole := digits.take n.toNat
    let part := digits.drop n.toNat
    whole ++ List.replicate (n.toNat - whole.length) '0' ++ "." ++ if part = [] then ['0'] else part

/-- Digits with a point behind the first one, and a signed power of ten. -/
def scientific (digits : Text) (power : Int) : Text :=
  let mantissa := match digits with
    | c :: d :: ds => c :: '.' :: d :: ds
    | ds           => ds
  mantissa ++ "e" ++ (if power < 0 then ['-'] else ['+']) ++ Text.ofNat power.natAbs

/-- The text of a finite number: the shortest decimal, positional from 10^-5 up to 10^16 and always
with a fraction there, scientific elsewhere. -/
def text (d : Double) : Text :=
  let sign : Text := if d.negative then ['-'] else []
  if d.isZero then sign ++ "0.0"
  else
    let (digits, power) := d.shortestDigits
    sign ++ if -5 ≤ power ∧ power < 16 then positional digits (power + 1)
      else scientific digits power

end Double

end EventLog
