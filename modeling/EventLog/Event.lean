import EventLog.Field

/-!
# Events

An event has fields in the order they were added, several perhaps of one name, and may have a
bucket of tags.  A bucket without tags is not the same as no bucket.  The tags can be asked for
under the field name `event.tags`.
-/

namespace EventLog

/-- A log event. -/
structure Event where
  tags : Option (List Text)
  fields : List Field
deriving Repr, DecidableEq

namespace Event

/-- The field name that stands for the tags. -/
def tagsName : Text := "event.tags"

/-- An event without tags and fields. -/
def empty : Event := ⟨none, []⟩

/-- Adds a tag, in a new bucket if there is none. -/
def addTag (e : Event) (tag : Text) : Event := { e with tags := some (e.tags.getD [] ++ [tag]) }

/-- Adds a field behind the others. -/
def addField (e : Event) (f : Field) : Event := { e with fields := e.fields ++ [f] }

/-- Adds a field of one text. -/
def addText (e : Event) (name text : Text) : Event := e.addField (.single name (.string text))

/-- Whether an event has a tag of exactly this name. -/
def hasTag (e : Event) (tag : Text) : Bool := (e.tags.getD []).contains tag

/-- The first field of a name. -/
def field? (e : Event) (name : Text) : Option Field := Fields.find? name e.fields

/-- The text of the first field of a name, or the tags with commas between them. -/
def fieldText (e : Event) (name : Text) : Except EventError Text :=
  if name = tagsName then
    match e.tags with
    | some tags => .ok (Text.commaList tags)
    | none      => .error (.notFound (.field name))
  else
    match e.field? name with
    | some f => .ok f.text
    | none   => .error (.notFound (.field name))

end Event

end EventLog
