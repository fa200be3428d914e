import EventLog.CommandError
import EventLog.Decoder
import EventLog.Encoder
import EventLog.Output
import EventLog.Settings

/-!
# Converting events

The converter decodes an input and writes every event as soon as it is decoded, one line each.  The
encoder `all` writes each event in three formats, each on a line that names the format, below an
empty line.  An event is encoded piece by piece: once a write fails nothing further is encoded.

Lines in the JSON format are taken as they are; those of the other formats may hold backslash
escapes.
-/

namespace EventLog

/-! ### Options -/

/-- What the command line says about a conversion. -/
structure ConvertOptions where
  input : Option Text
  decoder : Option Text
  encoder : Option Text
  decoderFormat : Option Text
  encoderFormat : Option Text
  /-- Encode without optional blanks and fields without values. -/
  ultra : Bool
  /-- Log as much as possible. -/
  verbose : Bool
deriving Repr, DecidableEq

namespace ConvertOptions

/-- Nothing is said. -/
def none : ConvertOptions :=
  ⟨Option.none, Option.none, Option.none, Option.none, Option.none, false, false⟩

/-- The settings with the options laid over them.  Being verbose outweighs a log level. -/
def overlay (o : ConvertOptions) (logLevel : Option Text) (s : Settings) : Settings where
  general :=
    { s.general with
      logLevel := if o.verbose then "trace" else logLevel.getD s.general.logLevel }
  context :=
    { s.context with
      flags := { s.context.flags with ultraCompact := o.ultra || s.context.flags.ultraCompact } }
  codec :=
    { decoder := o.decoder.getD s.codec.decoder
      encoder := o.encoder.getD s.codec.encoder
      decoderFormat := o.decoderFormat <|> s.codec.decoderFormat
      encoderFormat := o.encoderFormat <|> s.codec.encoderFormat }

/-- The settings with the options laid over them, if they can be used. -/
def apply (o : ConvertOptions) (logLevel : Option Text) (s : Settings) :
    Except CommandError Settings :=
  match (o.overlay logLevel s).validate with
  | .ok _        => .ok (o.overlay logLevel s)
  | .error fault => .error (.settings (EventError.settings fault).message)

end ConvertOptions

/-! ### Emitters -/

/-- A part of what is written for an event: some text, and what an encoder makes of the event. -/
structure Piece where
  lead : Text
  encoder : Option Encoder
deriving Repr, DecidableEq

/-- What is written for an event: pieces, each ended by a line feed. -/
abbrev Emitter := List Piece

namespace Emitter

/-- One line in one format. -/
def single (e : Encoder) : Emitter := [⟨[], some e⟩]

/-- An empty line, and a line in each of three formats. -/
def all : Emitter :=
  [⟨[], none⟩, ⟨"syslog: ", some .syslog⟩, ⟨"json..: ", some .json⟩, ⟨"xml...: ", some .xml⟩]

/-- The emitter of the settings. -/
def ofSettings (s : CodecSettings) : Except CodecError Emitter :=
  if s.encoder = "all" then .ok all else (Encoder.select s.encoder s.encoderFormat).map single

/-- What has been written so far, and the formats that events were encoded in, in order. -/
structure Written where
  output : Output
  encoded : Array Text
deriving Repr, DecidableEq

/-- Nothing has been written. -/
def Written.start (o : Output) : Written := ⟨o, #[]⟩

/-- The line of a piece. -/
def pieceText (flags : Flags) (e : Event) (p : Piece) : Text :=
  p.lead ++ ((p.encoder.map (Encoder.encode flags e)).getD []) ++ "\n"

/-- Writes pieces until a write fails. -/
def emit (flags : Flags) (e : Event) : Emitter → Written → Except EventError Unit × Written
  | [], w      => (.ok (), w)
  | p :: ps, w =>
    let (done, output) := w.output.writeText (pieceText flags e p)
    let w : Written := ⟨output, w.encoded ++ (p.encoder.map Encoder.format).toList⟩
    if done then emit flags e ps w else (.error (.io Output.fullReason), w)

end Emitter

/-! ### Conversions -/

/-- What a conversion gives. -/
structure Conversion where
  result : Except CommandError Nat
  written : Emitter.Written
  /-- What was counted. -/
  samples : List Sample

namespace Convert

/-- Whether the lines of a format may hold backslash escapes. -/
def hasEscapes (decoder : Text) : Bool := decoder ≠ "json"

/-- The source that a decoder reads. -/
def sourceFor (decoder : Text) (s : Source) : Source := if hasEscapes decoder then s.unescape else s

/-- Decodes a source and writes its events. -/
def run (s : Settings) (source : Source) (output : Output) : Conversion :=
  let start := Emitter.Written.start output
  match Decoder.select s.codec.decoder s.codec.decoderFormat with
  | .error e => ⟨.error (.codec e), start, []⟩
  | .ok d    =>
    match Emitter.ofSettings s.codec with
    | .error e     => ⟨.error (.codec e), start, []⟩
    | .ok emitter  =>
      let out := d.run (fun e w => Emitter.emit s.context.flags e emitter w) start
        (sourceFor s.codec.decoder source)
      ⟨out.result.mapError .decode, out.state,
        out.tally.samples d.format ++ Sample.ofEncoded out.state.encoded.toList⟩

end Convert

end EventLog
