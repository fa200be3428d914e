import EventLog.Decoder.Apache
import EventLog.Decoder.Internal
import EventLog.Decoder.JsonLine
import EventLog.Metrics
import EventLog.Source

/-!
# Decoders

A decoder pulls lines from a source, makes events of them and delivers each to a sink as soon as it
is complete.  Line by line it is a machine (`Decoder.step`): a line may complete an event, and
leaves something under way for the next one.  A run (`Decoder.run`) ends with the number of events
delivered, or at the first error.  An error of a line or of the sink is answered with the number of
the line; an error of the source stands alone.

The outcome of a run also says what was counted on the way, what the decoder remarked, and what was
left of the source.
-/

namespace EventLog

/-- An input format. -/
inductive Decoder where
  | internal
  | apache (names : NameList)
  | json
deriving Repr, DecidableEq

/-- Takes an event into its state, or refuses it. -/
abbrev Sink (σ : Type) := Event → σ → Except EventError Unit × σ

/-- What a run has counted. -/
structure Tally where
  linesRead : Nat
  eventsDelivered : Nat
  failures : Nat
  completions : Nat
deriving Repr, DecidableEq

namespace Tally

/-- Nothing has been counted. -/
def zero : Tally := ⟨0, 0, 0, 0⟩

/-- The samples of a run in a format. -/
def samples (format : Text) (t : Tally) : List Sample :=
  Sample.touched format [(.linesRead, t.linesRead), (.eventsDecoded, t.eventsDelivered),
    (.decodeErrors, t.failures), (.decodeDuration, t.completions)]

end Tally

/-- What a run gives. -/
structure Outcome (σ : Type) where
  /-- The number of events delivered, or the error that ended the run. -/
  result : Except EventError Nat
  /-- The state of the sink. -/
  state : σ
  tally : Tally
  /-- What the decoder remarked, in order. -/
  remarks : List Text
  /-- What was not pulled from the source. -/
  rest : Source

namespace Decoder

/-- The name of an input format. -/
def format : Decoder → Text
  | internal => "int"
  | apache _ => "apache"
  | json     => "json"

/-- The decoder of a name; an access log needs the list of its field names, the others ignore it. -/
def select (name : Text) (names : Option Text) : Except CodecError Decoder :=
  if name = "int" then .ok internal
  else if name = "json" then .ok json
  else if name = "apache" then
    match names with
    | some list => (NameList.parse list).map apache
    | none      => .error (.missingOption "apache decoder" "a field name list")
  else .error (.unsupported "decoder" name)

/-! ### Line by line -/

/-- One line further: the event it completes, if any, and what is under way behind it.  Only the
internal format has events of several lines. -/
def step (d : Decoder) (o : Internal.Open) (line : Text) :
    Except EventError (Option Event × Internal.Open) :=
  match d with
  | internal     => do
    let (kind, value) ← Internal.split line
    Internal.step o kind value
  | apache names => .ok (some (Apache.event names line), o)
  | json         => (JsonLine.event line).map fun e => (some e, o)

/-- What the decoder remarks about a line. -/
def remarks (d : Decoder) (line : Text) : List Text :=
  match d, Internal.split line with
  | internal, .ok (kind, value) => [Internal.remark kind value]
  | _, _                        => []

/-! ### Runs -/

/-- Where a run stands between two lines. -/
structure Progress where
  opened : Internal.Open
  tally : Tally
  remarks : Array Text

/-- Nothing has been read. -/
def Progress.start : Progress := ⟨.nothing, .zero, #[]⟩

/-- The outcome of a run that an error ends. -/
def fail {σ : Type} (p : Progress) (e : EventError) (s : σ) (rest : Source) : Outcome σ :=
  ⟨.error e, s, { p.tally with failures := p.tally.failures + 1 }, p.remarks.toList, rest⟩

/-- The outcome of a run that comes to the end of its source. -/
def complete {σ : Type} (p : Progress) (s : σ) : Outcome σ :=
  ⟨.ok p.tally.eventsDelivered, s, { p.tally with completions := p.tally.completions + 1 },
    p.remarks.toList, []⟩

/-- An error at the line that was read last. -/
def atLine (d : Decoder) (p : Progress) (e : EventError) : EventError :=
  .decode d.format p.tally.linesRead e

/-- The progress behind a line that has been pulled. -/
def Progress.pulled (p : Progress) (d : Decoder) (line : Text) : Progress :=
  ⟨p.opened, { p.tally with linesRead := p.tally.linesRead + 1 }, p.remarks ++ d.remarks line⟩

/-- The progress behind an event that the sink has taken. -/
def Progress.delivered (p : Progress) : Progress :=
  { p with tally := { p.tally with eventsDelivered := p.tally.eventsDelivered + 1 } }

/-- Delivers an event, if there is one. -/
def deliver {σ : Type} (sink : Sink σ) (p : Progress) (s : σ) :
    Option Event → Except EventError Progress × σ
  | none   => (.ok p, s)
  | some e =>
    match sink e s with
    | (.ok _, s)    => (.ok p.delivered, s)
    | (.error e, s) => (.error e, s)

/-- The rest of a run. -/
def runFrom {σ : Type} (d : Decoder) (sink : Sink σ) (p : Progress) (s : σ) :
    Source → Outcome σ
  | []               =>
    match deliver sink p s p.opened.event? with
    | (.ok p, s)    => complete p s
    | (.error e, s) => fail p (d.atLine p e) s []
  | .error e :: rest => fail p e s rest
  | .ok line :: rest =>
    let p := p.pulled d line
    match d.step p.opened line with
    | .error e       => fail p (d.atLine p e) s rest
    | .ok (event, o) =>
      match deliver sink { p with opened := o } s event with
      | (.ok p, s)    => runFrom d sink p s rest
      | (.error e, s) => fail p (d.atLine p e) s rest

/-- Decodes a source into a sink. -/
def run {σ : Type} (d : Decoder) (sink : Sink σ) (s : σ) (source : Source) : Outcome σ :=
  d.runFrom sink .start s source

end Decoder

end EventLog
