import EventLog.Text

/-!
# Reading from the front of a text

The steps that readers of primitive values are made of.  Each takes what it reads from the front
and gives the remainder, or fails.
-/

namespace EventLog.Scan

/-- Takes one given character. -/
def char? (c : Char) : Text → Option Text
  | []     => none
  | d :: s => if d = c then some s else none

/-- Takes one given character if it is there. -/
def skip (c : Char) (s : Text) : Text := (char? c s).getD s

/-- Takes a number of exactly `n` digits. -/
def fixed? (n : Nat) (s : Text) : Option (Nat × Text) :=
  if (s.take n).length = n ∧ (s.take n).all Char.isDigit then
    some (Text.toNat (s.take n), s.drop n)
  else none

/-- Takes all digits at the front: at least one, at most `max`. -/
def run? (max : Nat) (s : Text) : Option (Text × Text) :=
  let digits := s.takeWhile Char.isDigit
  if digits ≠ [] ∧ digits.length ≤ max then some (digits, s.dropWhile Char.isDigit) else none

/-- Takes a number of at most `max` digits, of all the digits at the front. -/
def number? (max : Nat) (s : Text) : Option (Nat × Text) :=
  (run? max s).map fun (digits, rest) => (Text.toNat digits, rest)

/-- What was taken from the front of a text to leave the remainder. -/
def taken (s rest : Text) : Text := s.take (s.length - rest.length)

end EventLog.Scan
