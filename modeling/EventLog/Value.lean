import EventLog.Error
import EventLog.Timestamp

/-!
# Values

A value is untyped or holds a text, a number or a timestamp.  Its type is fixed once: only an
untyped value can be set (`Value.set`).
-/

namespace EventLog

/-- A single value of a field. -/
inductive Value where
  /-- A value without a type. -/
  | none
  | string (text : Text)
  | number (n : Int)
  | timestamp (time : Timestamp)
deriving Repr, DecidableEq

namespace Value

/-- The name of a value's type. -/
def typeName : Value → Text
  | none        => "none"
  | string _    => "string"
  | number _    => "number"
  | timestamp _ => "timestamp"

/-- The text of a value. -/
def text : Value → Text
  | none           => []
  | string t       => t
  | number n       => Text.ofInt n
  | timestamp time => time.text

/-- Whether two values are of one type and say the same. -/
def same : Value → Value → Bool
  | timestamp a, timestamp b => a.same b
  | v, w                     => v = w

/-- Gives an untyped value its content. -/
def set (content : Value) : Value → Except EventError Value
  | none => .ok content
  | v    => .error (.invalidArgument (.alreadyTyped v.typeName))

/-- The text that a string holds. -/
def string? : Value → Option Text
  | string t => some t
  | _        => Option.none

/-- The number that a number holds. -/
def number? : Value → Option Int
  | number n => some n
  | _        => Option.none

/-- The timestamp that a timestamp holds. -/
def timestamp? : Value → Option Timestamp
  | timestamp time => some time
  | _              => Option.none

end Value

end EventLog
