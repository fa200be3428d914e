import EventLog.Context
import EventLog.Error
import EventLog.LogFormat

/-!
# Settings

The settings of the program stand in three sections: general ones for logging, those of the context
that events live in, and those of the two codecs.  Any text can be stored for a codec or a log
level; `Settings.validate` says whether the settings can be used, and names the first fault.
-/

namespace EventLog

/-- Settings for logging. -/
structure GeneralSettings where
  logLevel : Text
  logFormat : Text
deriving Repr, DecidableEq

/-- Settings for the two codecs. -/
structure CodecSettings where
  decoder : Text
  encoder : Text
  /-- The field names that a decoder needs. -/
  decoderFormat : Option Text
  /-- The field names that an encoder needs. -/
  encoderFormat : Option Text
deriving Repr, DecidableEq

/-- The settings of the program. -/
structure Settings where
  general : GeneralSettings
  context : Context
  codec : CodecSettings
deriving Repr, DecidableEq

namespace Settings

/-- The settings that hold where nothing else is said. -/
def standard : Settings where
  general := ⟨"info", "pretty"⟩
  context := .standard
  codec := ⟨"int", "syslog", none, none⟩

/-- The log levels there are. -/
def logLevels : List Text :=
  ["trace".toList, "debug".toList, "info".toList, "warn".toList, "error".toList]

/-- The log formats there are. -/
def logFormats : List Text := LogFormat.all.map LogFormat.name

/-- The decoders that can be asked for. -/
def decoders : List Text := ["int".toList, "apache".toList, "json".toList]

/-- The encoders that can be asked for; the last one stands for several. -/
def encoders : List Text :=
  ["syslog".toList, "json".toList, "xml".toList, "csv".toList, "all".toList]

/-- A fault of a field whose value must be in a list. -/
def oneOf (field : Text) (names : List Text) : SettingsError :=
  .invalidValue field ("must be one of: " ++ [',', ' '].intercalate names)

/-- What must hold of the settings, in the order it is looked at, and the fault if it does not. -/
def requirements (s : Settings) : List (Bool × SettingsError) :=
  [(s.general.logLevel ∈ logLevels, oneOf "general.log_level" logLevels),
    (s.general.logFormat ∈ logFormats, oneOf "general.log_format" logFormats),
    (0 < s.context.fieldBucketSize,
      .invalidValue "context.field_bucket_size" "must be greater than 0"),
    (0 < s.context.tagBucketSize,
      .invalidValue "context.tag_bucket_size" "must be greater than 0"),
    (s.codec.decoder ∈ decoders, oneOf "codec.decoder" decoders),
    (s.codec.encoder ∈ encoders, oneOf "codec.encoder" encoders),
    (s.codec.decoder ≠ "apache" ∨ s.codec.decoderFormat.isSome,
      .invalidValue "codec.decoder_format" "apache decoder needs a field name list"),
    (s.codec.encoder ≠ "csv" ∨ s.codec.encoderFormat.isSome,
      .invalidValue "codec.encoder_format" "csv encoder needs a field name list")]

/-- Whether the settings can be used; if not, the first fault. -/
def validate (s : Settings) : Except SettingsError Unit :=
  match s.requirements.find? fun r => !r.1 with
  | some (_, fault) => .error fault
  | none            => .ok ()

end Settings

end EventLog
