import EventLog.Event
import EventLog.Json.Reader

/-!
# JSON lines

A line is a JSON object.  Its members become fields: a scalar a field of one text, an array a field
of one text for each item, an object the fields of its members with the names joined by a point.
The array `event.tags` at the top holds the tags.
-/

namespace EventLog.JsonLine

/-- The text of a value: a string as it is, a dash for null, anything else as compact JSON. -/
def scalarText : Json → Text
  | .string t => t
  | .null     => "-"
  | v         => v.compact

mutual

/-- The fields of a member. -/
def fieldsOf (name : Text) : Json → Except EventError (List Field)
  | .object members => fieldsBelow name members
  | .array items    => do return [← (Field.named name).addTexts (items.map scalarText)]
  | v               => return [.single name (.string (scalarText v))]

/-- The fields of the members of an object that is itself a member. -/
def fieldsBelow (name : Text) : List (Text × Json) → Except EventError (List Field)
  | []           => return []
  | (k, v) :: ms => do
    let fs ← fieldsOf (name ++ "." ++ k) v
    return fs ++ (← fieldsBelow name ms)

end

/-- Adds what a member at the top gives to an event. -/
def addMember (e : Event) (name : Text) (v : Json) : Except EventError Event :=
  if name = Event.tagsName then
    match v with
    | .array items => return (items.map scalarText).foldl Event.addTag e
    | _            => .error (.invalidFormat .tagsNotArray)
  else do
    let fs ← fieldsOf name v
    return { e with fields := e.fields ++ fs }

/-- Adds what the members at the top give to an event, one after the other. -/
def addMembers (e : Event) : List (Text × Json) → Except EventError Event
  | []           => return e
  | (k, v) :: ms => do addMembers (← addMember e k v) ms

/-- The event of a JSON value whose objects have one member of each name. -/
def eventOf : Json → Except EventError Event
  | .object members => addMembers .empty members
  | _               => .error (.invalidFormat .notObject)

/-- The event of a line. -/
def event (line : Text) : Except EventError Event :=
  match Json.read line with
  | some v => eventOf v.distinct
  | none   => .error (.invalidFormat (.malformedJson "not a JSON text"))

end EventLog.JsonLine
