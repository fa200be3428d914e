import EventLog.Encoder.Layout
import EventLog.NameList

/-!
# Encoders

An encoder writes one event as one text.  Three write the whole event in a framed layout; the
fourth writes a row of a table whose columns are the names it was made with.
-/

namespace EventLog

/-- An output format. -/
inductive Encoder where
  | syslog
  | json
  | xml
  | csv (columns : NameList)
deriving Repr, DecidableEq

namespace Encoder

/-- The name of an output format. -/
def format : Encoder → Text
  | syslog => "syslog"
  | json   => "json"
  | xml    => "xml"
  | csv _  => "csv"

/-- The texts of a cell: several stand in brackets with commas between them. -/
def cellTexts : List Text → Text
  | []  => []
  | [t] => Escape.quoted t
  | ts  => ['['] ++ Text.commaList (ts.map Escape.quoted) ++ [']']

/-- The cell of a column: the first field of its name, or nothing, between double quotes. -/
def cell (e : Event) (column : Text) : Text :=
  ['"'] ++ cellTexts (((e.field? column).map Field.texts).getD []) ++ ['"']

/-- A row of a table. -/
def row (columns : NameList) (e : Event) : Text := Text.commaList (columns.names.map (cell e))

/-- The text of an event. -/
def encode (flags : Flags) (e : Event) : Encoder → Text
  | syslog      => Layout.structuredData.render flags e
  | json        => Layout.jsonObject.render flags e
  | xml         => Layout.xmlElement.render flags e
  | csv columns => row columns e

/-- The encoder of a name; a table needs the list of its columns, the others ignore it. -/
def select (name : Text) (columns : Option Text) : Except CodecError Encoder :=
  if name = "syslog" then .ok syslog
  else if name = "json" then .ok json
  else if name = "xml" then .ok xml
  else if name = "csv" then
    match columns with
    | some list => (NameList.parse list).map csv
    | none      => .error (.missingOption "csv encoder" "a field name list")
  else .error (.unsupported "encoder" name)

end Encoder

end EventLog
