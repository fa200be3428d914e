import EventLog.Text

/-!
# Log formats

The program's own log lines come in two formats.  They are chosen by name, and a name that neither
has is refused.
-/

namespace EventLog

/-- A format of log lines. -/
inductive LogFormat where
  | json
  | pretty
deriving Repr, DecidableEq

/-- A name that no log format has. -/
structure UnknownLogFormat where
  name : Text
deriving Repr, DecidableEq

/-- The text of the refusal. -/
def UnknownLogFormat.message (e : UnknownLogFormat) : Text :=
  "unknown log format '" ++ e.name ++ "', expected 'json' or 'pretty'"

namespace LogFormat

/-- All log formats. -/
def all : List LogFormat := [json, pretty]

/-- The name of a log format. -/
def name : LogFormat → Text
  | json   => "json"
  | pretty => "pretty"

/-- The log format of a name. -/
def select (name : Text) : Except UnknownLogFormat LogFormat :=
  match all.find? fun f => f.name = name with
  | some f => .ok f
  | none   => .error ⟨name⟩

end LogFormat

end EventLog
