import EventLog.Calendar
import EventLog.Toml

/-!
# TOML numbers, dates and words

A value without brackets and quotes is a run of characters that is read as a whole: one of the two
words, a whole number in one of four bases, a floating-point number, or a date, a time or both.
Single underscores may stand between digits.
-/

namespace EventLog.Toml.Scalar

/-- Whether a character may stand in such a run. -/
def isRunChar (c : Char) : Bool :=
  c.isAlphanum || c == '_' || c == '-' || c == '+' || c == '.' || c == ':'

/-- A run of digits without its underscores; each must stand between two digits. -/
def ungroup? (isDigit : Char → Bool) (t : Text) : Option Text :=
  let digits := t.filter (· ≠ '_')
  let lonely :=
    t.head? == some '_' || t.getLast? == some '_' || (t.zip (t.drop 1)).any (· == ('_', '_'))
  if digits ≠ [] ∧ !lonely ∧ digits.all isDigit then some digits else none

/-- A sign, if there is one, and what follows it. -/
def sign : Text → Bool × Text
  | '-' :: t => (true, t)
  | '+' :: t => (false, t)
  | t        => (false, t)

/-- Decimal digits without superfluous zeros in front. -/
def whole? (t : Text) : Option Text :=
  (ungroup? Char.isDigit t).filter fun ds => t.length = 1 || ds.head? != some '0'

/-- The number that digits of a base denote. -/
def ofDigits (base : Nat) (digits : Text) : Nat :=
  digits.foldl (fun n c => n * base + (Text.hexValue? c).getD 0) 0

/-- Whether a character is a digit of a base. -/
def isDigitOf (base : Nat) (c : Char) : Bool := (Text.hexValue? c).any (· < base)

/-- The least whole number that can be read, the least that 128 bits with a sign can hold. -/
def leastInteger : Int := -0x80000000000000000000000000000000

/-- The greatest whole number that can be read, the greatest that 128 bits without a sign can
hold. -/
def greatestInteger : Int := 0xFFFFFFFFFFFFFFFFFFFFFFFFFFFFFFFF

/-- A whole number. -/
def integer? (t : Text) : Option Int :=
  let inBase (base : Nat) (t : Text) : Option Int :=
    (ungroup? (isDigitOf base) t).map fun ds => (ofDigits base ds : Int)
  match t with
  | '0' :: 'x' :: t => inBase 16 t
  | '0' :: 'o' :: t => inBase 8 t
  | '0' :: 'b' :: t => inBase 2 t
  | t               =>
    (whole? (sign t).2).map fun ds =>
      if (sign t).1 then -(Text.toNat ds : Int) else (Text.toNat ds : Int)

/-- Whether `digits * 10 ^ power` is too large for double precision. -/
def overflows (digits : Text) (power : Int) : Bool :=
  let n := Text.toNat digits
  let size := power + (Text.ofNat n).length
  if n = 0 || size ≤ 308 then false
  else if 309 < size then true
  else Nat.pow 2 1024 - Nat.pow 2 970 ≤ n * Nat.pow 10 power.toNat / Nat.pow 10 (-power).toNat

/-- Whether a text, its sign left off, stands for infinity or for no number at all. -/
def isSpecial (t : Text) : Bool := t = "inf" ∨ t = "nan"

/-- The digits of a floating-point number, its sign left off, and the power of ten to take them
times. -/
def scientific? (t : Text) : Option (Text × Int) :=
  let isMark (c : Char) : Bool := c == 'e' || c == 'E'
  let mantissa := t.takeWhile fun c => !isMark c
  let power := (t.dropWhile fun c => !isMark c)
  let wholePart := mantissa.takeWhile (· ≠ '.')
  let fraction := mantissa.dropWhile (· ≠ '.')
  let power? : Option Int := match power with
    | []     => some 0
    | _ :: p => (ungroup? Char.isDigit (sign p).2).map fun ds =>
      if (sign p).1 then -(Text.toNat ds : Int) else (Text.toNat ds : Int)
  let fraction? : Option Text := match fraction with
    | []     => some []
    | _ :: f => ungroup? Char.isDigit f
  match whole? wholePart, fraction?, power? with
  | some ds, some fs, some p =>
    if fraction = [] ∧ power = [] then none else some (ds ++ fs, p - fs.length)
  | _, _, _                  => none

/-! ### Dates and times -/

/-- Takes a number of exactly `n` digits. -/
def fixed? (n : Nat) : Reader Nat := fun t =>
  if (t.take n).length = n ∧ (t.take n).all Char.isDigit then
    some (Text.toNat (t.take n), t.drop n)
  else none

/-- Takes one given character. -/
def char? (c : Char) : Text → Option Text
  | []     => none
  | d :: t => if d = c then some t else none

/-- Takes a real date. -/
def date? (t : Text) : Option Text := do
  let (year, t) ← fixed? 4 t
  let (month, t) ← fixed? 2 (← char? '-' t)
  let (day, t) ← fixed? 2 (← char? '-' t)
  guard (Date.IsReal ⟨year, month, day⟩)
  return t

/-- Takes seconds and a fraction of one, if they are there. -/
def seconds? : Text → Option Text
  | ':' :: t => do
    let (second, t) ← fixed? 2 t
    guard (second ≤ 60)
    match t with
    | '.' :: t => if (t.takeWhile Char.isDigit) = [] then none else some (t.dropWhile Char.isDigit)
    | t        => return t
  | t        => some t

/-- Takes a time of day; the seconds may be missing. -/
def time? (t : Text) : Option Text := do
  let (hour, t) ← fixed? 2 t
  let (minute, t) ← fixed? 2 (← char? ':' t)
  guard (hour ≤ 23 ∧ minute ≤ 59)
  seconds? t

/-- Whether a text is nothing or a zone. -/
def isZone (t : Text) : Bool :=
  match t with
  | []          => true
  | ['Z']       => true
  | ['z']       => true
  | c :: t      =>
    (c == '+' || c == '-') && (do
      let (hour, t) ← fixed? 2 t
      let (minute, t) ← fixed? 2 (← char? ':' t)
      guard (hour ≤ 23 ∧ minute ≤ 59 ∧ t = [])).isSome

/-- Whether a text is a date, a time, or both with a zone perhaps. -/
def isDatetime (t : Text) : Bool :=
  if time? t = some [] then true
  else match date? t with
    | none          => false
    | some []       => true
    | some (c :: t) => (c == 'T' || c == 't' || c == ' ') && (time? t).any isZone

/-! ### Values -/

/-- The value of a whole number as written. -/
def ofInteger (t : Text) (n : Int) : Toml :=
  if leastInteger ≤ n ∧ n ≤ greatestInteger then .integer n else .outOfRange t

/-- The value of a floating-point number as written. -/
def ofScientific (t : Text) (number : Text × Int) : Toml :=
  if overflows number.1 number.2 then .outOfRange t else .float t

/-- The value of a run of characters. -/
def ofRun? (t : Text) : Option Toml :=
  if t = "true" then some (.boolean true)
  else if t = "false" then some (.boolean false)
  else if isSpecial (sign t).2 then some (.float t)
  else if isDatetime t then some (.datetime t)
  else match integer? t with
    | some n => some (ofInteger t n)
    | none   => (scientific? (sign t).2).map (ofScientific t)

/-- A run of characters; a date takes a time behind one blank with it. -/
def run (t : Text) : Text × Text :=
  let first := t.takeWhile isRunChar
  let rest := t.dropWhile isRunChar
  match rest with
  | ' ' :: c :: more =>
    if c.isDigit && date? first = some [] then
      (first ++ ' ' :: (c :: more).takeWhile isRunChar, (c :: more).dropWhile isRunChar)
    else (first, rest)
  | _                => (first, rest)

/-- Takes a value without brackets and quotes. -/
def any : Reader Toml := fun t => (ofRun? (run t).1).map fun v => (v, (run t).2)

end EventLog.Toml.Scalar
