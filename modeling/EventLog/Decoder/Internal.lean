import EventLog.Event

/-!
# The internal format

Each line is a letter, a colon and a value.  `e:` begins an event, `f:` a field of it with the
value as its name, `v:` adds a text to the field, and `#:` begins a comment.  An event is complete
when the next one begins or the input ends; a field when anything but a value follows.
-/

namespace EventLog.Internal

/-- What a line is. -/
inductive LineKind where
  | comment
  | event
  | field
  | value
deriving Repr, DecidableEq

/-- The name of a kind of line. -/
def LineKind.name : LineKind → Text
  | comment => "Comment"
  | event   => "Event"
  | field   => "Field"
  | value   => "Value"

/-- The kind of line that a character begins. -/
def LineKind.ofChar? (c : Char) : Option LineKind :=
  match c with
  | '#' => some comment
  | 'e' => some event
  | 'f' => some field
  | 'v' => some value
  | _   => none

/-- The first byte of a character. -/
def firstByte (c : Char) : UInt8 := ((String.utf8EncodeChar c).head?).getD 0

/-- The kind of a line and its value. -/
def split (line : Text) : Except EventError (LineKind × Text) :=
  if line.size < 2 then .error (.invalidFormat (.lineTooShort line.size))
  else match line with
    | []     => .error (.invalidFormat (.lineTooShort 0))
    | c :: t =>
      match LineKind.ofChar? c, t with
      | none, _              => .error (.invalidFormat (.unknownLineKind (firstByte c)))
      | some kind, ':' :: v  => .ok (kind, v)
      | some _, _            => .error (.invalidFormat .noColon)

/-- What has been read of the event under way. -/
inductive Open where
  /-- No event has begun. -/
  | nothing
  /-- An event without a field that is open. -/
  | event (e : Event)
  /-- An event with a field that is open. -/
  | field (e : Event) (f : Field)
deriving Repr, DecidableEq

/-- The event under way, its last field completed. -/
def Open.event? : Open → Option Event
  | nothing   => none
  | event e   => some e
  | field e f => some (e.addField f)

/-- One line further: the event it completes, if any, and what is under way behind it. -/
def step (o : Open) : LineKind → Text → Except EventError (Option Event × Open)
  | .comment, _    => .ok (none, o)
  | .event, _      => .ok (o.event?, .event .empty)
  | .field, name   =>
    match o.event? with
    | some e => .ok (none, .field e (.named name))
    | none   => .error (.invalidFormat .fieldOutsideEvent)
  | .value, text   =>
    match o with
    | .field e f => (f.add (.string text)).map fun f => (none, .field e f)
    | _          => .error (.invalidFormat .valueOutsideField)

/-- What is said about a line before it is acted on. -/
def remark (kind : LineKind) (value : Text) : Text :=
  "int decoder: line " ++ kind.name ++ " '" ++ value ++ "'"

end EventLog.Internal
