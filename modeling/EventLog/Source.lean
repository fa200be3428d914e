import EventLog.Error
import EventLog.Text.Backslash
import EventLog.Text.Lines

/-!
# Line sources

A source is what asking for a line again and again answers: lines, and perhaps a failure; behind
the last answer is the end.  Bytes are a source of their lines.  When the bytes break off with a
failure, a line that no line feed has ended is lost and the failure answered in its place.
-/

namespace EventLog

/-- The answers of a source, up to its end. -/
abbrev Source := List (Except EventError Text)

namespace Source

/-- A source that has these lines. -/
def ofLines (lines : List Text) : Source := lines.map .ok

/-- A source of the lines of some bytes, which end or break off with a failure. -/
def ofBytes (bytes : Bytes) (failure : Option EventError) : Source :=
  (Lines.ended bytes).map .ok ++
    match failure with
    | none   => (Lines.unended bytes).map .ok
    | some e => [.error e]

/-- The source with the backslash escapes of its lines resolved. -/
def unescape (s : Source) : Source := s.map fun answer => answer.map Backslash.unescape

/-- The lines up to the end or the first failure, and that failure. -/
def drain : Source → List Text × Option EventError
  | []            => ([], none)
  | .error e :: _ => ([], some e)
  | .ok line :: s => (line :: (drain s).1, (drain s).2)

end Source

end EventLog
