import EventLog.Text

/-!
# Metrics

What codecs count, by format.  A metric that was never touched has no sample.
-/

namespace EventLog

/-- What is counted or measured. -/
inductive Metric where
  | linesRead
  | eventsDecoded
  | decodeErrors
  | eventsEncoded
  | decodeDuration
deriving Repr, DecidableEq

namespace Metric

/-- All metrics. -/
def all : List Metric := [linesRead, eventsDecoded, decodeErrors, eventsEncoded, decodeDuration]

/-- The name of a metric. -/
def name : Metric → Text
  | linesRead      => "ceelog_codec_lines_read_total"
  | eventsDecoded  => "ceelog_codec_events_decoded_total"
  | decodeErrors   => "ceelog_codec_decode_errors_total"
  | eventsEncoded  => "ceelog_codec_events_encoded_total"
  | decodeDuration => "ceelog_codec_decode_duration_seconds"

/-- The kind of a metric. -/
def kind : Metric → Text
  | decodeDuration => "histogram"
  | _              => "counter"

/-- What a metric says. -/
def description : Metric → Text
  | linesRead      => "Total number of input lines read by decoders"
  | eventsDecoded  => "Total number of events delivered by decoders"
  | decodeErrors   => "Total number of decode runs aborted by an error"
  | eventsEncoded  => "Total number of events encoded to text"
  | decodeDuration => "Time to decode a whole input in seconds"

end Metric

/-- How often a metric of a format was touched. -/
structure Sample where
  metric : Metric
  format : Text
  count : Nat
deriving Repr, DecidableEq

namespace Sample

/-- The name of a sample, with its format as a label. -/
def label (s : Sample) : Text := s.metric.name ++ "\x7bformat=" ++ s.format ++ "\x7d"

/-- The samples of a format whose count is not zero. -/
def touched (format : Text) (counts : List (Metric × Nat)) : List Sample :=
  (counts.filter fun (_, n) => n ≠ 0).map fun (m, n) => ⟨m, format, n⟩

/-- The samples of encoders that wrote events in these formats. -/
def ofEncoded (formats : List Text) : List Sample :=
  formats.eraseDups.flatMap fun f => touched f [(.eventsEncoded, formats.count f)]

end Sample

end EventLog
