import EventLog.Context
import EventLog.Event
import EventLog.Text.Escape

/-!
# Framed output formats

Three formats write an event as a frame around entries: an entry for the tags, where the format
wants one and the event has a bucket, then one for every field in order.  What differs between them
is a `Layout`: the frame, the text of an entry, and how entries are put side by side.  In
ultra-compact mode fields without values have no entry, whatever the format.
-/

namespace EventLog

/-- The decisions of a framed format.  Where one depends on the mode, it is told whether that is
ultra-compact. -/
structure Layout where
  /-- The frame around the entries. -/
  opening : Text
  closing : Text
  /-- Puts the entries side by side. -/
  arrange : Bool → List Text → Text
  /-- Whether the tags of an event have an entry. -/
  wantsTags : Flags → Bool
  tagsEntry : List Text → Text
  fieldEntry : Bool → Field → Text

namespace Layout

/-- The fields that have an entry. -/
def keptFields (compact : Bool) (fs : List Field) : List Field :=
  if compact then fs.filter fun f => f.values ≠ [] else fs

/-- The entries of an event. -/
def entries (l : Layout) (flags : Flags) (e : Event) : List Text :=
  ((e.tags.filter fun _ => l.wantsTags flags).map l.tagsEntry).toList ++
    (keptFields flags.ultraCompact e.fields).map (l.fieldEntry flags.ultraCompact)

/-- A format that wants the tags has an entry for them whenever there is a bucket. -/
theorem entries_of_wantsTags (l : Layout) {flags : Flags} (h : l.wantsTags flags = true)
    (e : Event) :
    l.entries flags e =
      (e.tags.map l.tagsEntry).toList ++
        (keptFields flags.ultraCompact e.fields).map (l.fieldEntry flags.ultraCompact) := by
  have all : (e.tags.filter fun _ => l.wantsTags flags) = e.tags := by
    rw [h]
    cases e.tags <;> rfl
  rw [entries, all]

/-- The text of an event. -/
def render (l : Layout) (flags : Flags) (e : Event) : Text :=
  l.opening ++ l.arrange flags.ultraCompact (l.entries flags e) ++ l.closing

/-! ### Structured data -/

/-- The name of the structured data element. -/
def structuredDataId : Text := "cee@115"

/-- A name and its texts with commas between them, as a parameter of structured data. -/
def parameter (name : Text) (texts : List Text) : Text :=
  Escape.structured name ++ "=\"" ++ Text.commaList (texts.map Escape.structured) ++ "\""

/-- A structured data element of a syslog message: `[id name="v1,v2" …]`. -/
def structuredData : Layout where
  opening := ['['] ++ structuredDataId
  closing := [']']
  arrange _ entries := entries.flatMap fun t => ' ' :: t
  wantsTags _ := true
  tagsEntry tags := parameter Event.tagsName tags
  fieldEntry _ f := parameter f.label f.texts

/-! ### JSON -/

/-- A string between double quotes. -/
def jsonString (t : Text) : Text := ['"'] ++ Escape.quoted t ++ ['"']

/-- An array of strings. -/
def jsonArray (ts : List Text) : Text := ['['] ++ Text.commaList (ts.map jsonString) ++ [']']

/-- The texts of a field: an empty string for none, a string for one, an array for more. -/
def jsonTexts : List Text → Text
  | []  => jsonString []
  | [t] => jsonString t
  | ts  => jsonArray ts

/-- What stands between a name and its value. -/
def jsonColon (compact : Bool) : Text := if compact then [':'] else [':', ' ']

/-- What stands between members. -/
def jsonComma (compact : Bool) : Text := if compact then [','] else [',', ' ']

/-- A JSON object; the tags are written only on demand, and never with a blank behind the colon. -/
def jsonObject : Layout where
  opening := ['\x7b']
  closing := ['\x7d']
  arrange compact entries := (jsonComma compact).intercalate entries
  wantsTags flags := flags.includeFlatTags
  tagsEntry tags := jsonString Event.tagsName ++ jsonColon true ++ jsonArray tags
  fieldEntry compact f := jsonString f.label ++ jsonColon compact ++ jsonTexts f.texts

/-! ### XML -/

/-- An element without attributes around some content. -/
def element (name content : Text) : Text :=
  "<" ++ name ++ ">" ++ content ++ "</" ++ name ++ ">"

/-- Elements of one name around escaped texts. -/
def elements (name : Text) (ts : List Text) : Text :=
  ts.flatMap fun t => element name (Escape.markup t)

/-- An XML element with the tags and the fields as its children. -/
def xmlElement : Layout where
  opening := "<event>"
  closing := "</event>"
  arrange _ entries := entries.flatten
  wantsTags _ := true
  tagsEntry tags := element Event.tagsName (elements "tag" tags)
  fieldEntry _ f :=
    "<Field name =\"" ++ Escape.markup f.label ++ "\">" ++ elements "value" f.texts ++ "</Field>"

end Layout

end EventLog
