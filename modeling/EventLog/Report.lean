import EventLog.CommandError
import EventLog.Json.Pretty
import EventLog.Output
import EventLog.Settings.Load
import EventLog.Style

/-!
# Reports on settings

Two reports say whether the settings can be used and what they are.  Each can be written as text for
people, in colour on demand, or as JSON.
-/

namespace EventLog

/-! ### The two reports -/

/-- The form of a report. -/
inductive ReportFormat where
  | text
  | json
deriving Repr, DecidableEq

/-- The form of a name. -/
def ReportFormat.ofName? (name : Text) : Option ReportFormat :=
  if name = "text" then some text else if name = "json" then some json else none

/-- Whether settings can be used. -/
structure ValidationReport where
  source : Text
  /-- What is wrong, if anything is. -/
  fault : Option Text
deriving Repr, DecidableEq

/-- What settings are. -/
structure SettingsReport where
  source : Text
  /-- The section it is about, if it is not about all. -/
  part? : Option Text
  document : Text
deriving Repr, DecidableEq

namespace ValidationReport

/-- The report on the settings that a program would run with. -/
def make (w : Surroundings) (given : Option Text) : ValidationReport :=
  match Settings.effective w given with
  | .ok (_, origin) => ⟨origin.name, none⟩
  | .error e        => ⟨given.getD Settings.Origin.defaults.name, some e.message⟩

/-- Whether nothing is wrong. -/
def valid (r : ValidationReport) : Bool := r.fault.isNone

/-- The report for people. -/
def text (colour : Bool) (r : ValidationReport) : Text :=
  "Config Validation: " ++ Style.bold.paint colour r.source ++ "\n" ++
    match r.fault with
    | none   => "  Result: " ++ Style.boldGreen.paint colour "VALID" ++ "\n"
    | some e =>
      "  Result: " ++ Style.boldRed.paint colour "INVALID" ++ "\n" ++
        "  Error: " ++ Style.red.paint colour e ++ "\n"

/-- The report as JSON. -/
def json (r : ValidationReport) : Json :=
  .object [("source", .string r.source), ("valid", .bool r.valid),
    ("errors", .array (r.fault.toList.map .string))]

end ValidationReport

namespace SettingsReport

/-- The report on some settings; refused if there is no such section. -/
def make (s : Settings) (origin : Settings.Origin) (part? : Option Text) :
    Except CommandError SettingsReport :=
  match part? with
  | none      => .ok ⟨origin.name, none, s.document⟩
  | some name =>
    match Settings.Section.ofName? name with
    | some part => .ok ⟨origin.name, some name, s.sectionDocument part⟩
    | none      =>
      .error (.command ("unknown section: " ++ name ++ " (expected: " ++
        [',', ' '].intercalate (Settings.Section.all.map Settings.Section.name) ++ ")"))

/-- The report for people. -/
def text (colour : Bool) (r : SettingsReport) : Text :=
  (match r.part? with
    | some name =>
      "Configuration " ++ Style.bold.paint colour ("[" ++ name ++ "]") ++ " (source: " ++
        r.source ++ ")\n"
    | none      => "Configuration (source: " ++ Style.bold.paint colour r.source ++ ")\n") ++
    "\n" ++ r.document

/-- The report as JSON; it does not hold the document. -/
def json (r : SettingsReport) : Json :=
  .object (("source", .string r.source) ::
    (r.part?.map fun name => ("section".toList, Json.string name)).toList)

end SettingsReport

/-! ### Writing a report -/

namespace Report

/-- Writes a report for people. -/
def writeText (t : Text) (o : Output) : Except CommandError Unit × Output :=
  let (done, o) := o.writeText t
  (if done then .ok () else .error (.io Output.fullReason), o)

/-- Writes a report as JSON and a line feed behind it. -/
def writeJson (v : Json) (o : Output) : Except CommandError Unit × Output :=
  let (done, o) := o.writeText (v.pretty 0)
  if done then writeText "\n" o else (.error (.json Output.fullReason), o)

/-- Writes a report in a form. -/
def write (format : ReportFormat) (text : Text) (json : Json) (o : Output) :
    Except CommandError Unit × Output :=
  match format with
  | .text => writeText text o
  | .json => writeJson json o

end Report

end EventLog
