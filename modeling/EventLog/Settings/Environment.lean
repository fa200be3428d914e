import EventLog.Settings

/-!
# Settings from the environment

Every setting can be given by a variable named after its section and itself.  A variable that is not
set, or whose value cannot be read as one of the setting's type, leaves the setting as it is.  An
empty list of field names stands for none.
-/

namespace EventLog.Settings

/-- The values of the environment's variables. -/
abbrev Environment := Text → Option Text

/-- The variables that give settings. -/
def variableNames : List Text :=
  ["CEELOG_GENERAL_LOG_LEVEL".toList, "CEELOG_GENERAL_LOG_FORMAT".toList,
    "CEELOG_CONTEXT_COMPLIANCE_LEVEL".toList, "CEELOG_CONTEXT_ULTRA_COMPACT".toList,
    "CEELOG_CONTEXT_INCLUDE_FLAT_TAGS".toList, "CEELOG_CONTEXT_FIELD_BUCKET_SIZE".toList,
    "CEELOG_CONTEXT_TAG_BUCKET_SIZE".toList, "CEELOG_CODEC_DECODER".toList,
    "CEELOG_CODEC_ENCODER".toList, "CEELOG_CODEC_DECODER_FORMAT".toList,
    "CEELOG_CODEC_ENCODER_FORMAT".toList]

/-- A truth value. -/
def readBool? (t : Text) : Option Bool :=
  if t = "true" then some true else if t = "false" then some false else none

/-- The greatest size, 2^64 - 1. -/
def maxSize : Nat := 0xFFFFFFFFFFFFFFFF

/-- A size: decimal digits, perhaps behind a plus sign. -/
def readSize? (t : Text) : Option Nat :=
  let digits := match t with
    | '+' :: ds => ds
    | ds        => ds
  if digits ≠ [] ∧ digits.all Char.isDigit ∧ Text.toNat digits ≤ maxSize then
    some (Text.toNat digits)
  else none

/-- A list of field names, none if it is empty. -/
def readList (t : Text) : Option Text := if t = [] then none else some t

/-- The settings with those that the environment gives in their place. -/
def withEnvironment (env : Environment) (s : Settings) : Settings where
  general :=
    { logLevel := (env "CEELOG_GENERAL_LOG_LEVEL").getD s.general.logLevel
      logFormat := (env "CEELOG_GENERAL_LOG_FORMAT").getD s.general.logFormat }
  context :=
    { compliance := ((env "CEELOG_CONTEXT_COMPLIANCE_LEVEL").bind Compliance.ofName?).getD
        s.context.compliance
      flags :=
        { ultraCompact := ((env "CEELOG_CONTEXT_ULTRA_COMPACT").bind readBool?).getD
            s.context.flags.ultraCompact
          includeFlatTags := ((env "CEELOG_CONTEXT_INCLUDE_FLAT_TAGS").bind readBool?).getD
            s.context.flags.includeFlatTags }
      fieldBucketSize := ((env "CEELOG_CONTEXT_FIELD_BUCKET_SIZE").bind readSize?).getD
        s.context.fieldBucketSize
      tagBucketSize := ((env "CEELOG_CONTEXT_TAG_BUCKET_SIZE").bind readSize?).getD
        s.context.tagBucketSize }
  codec :=
    { decoder := (env "CEELOG_CODEC_DECODER").getD s.codec.decoder
      encoder := (env "CEELOG_CODEC_ENCODER").getD s.codec.encoder
      decoderFormat := ((env "CEELOG_CODEC_DECODER_FORMAT").map readList).getD s.codec.decoderFormat
      encoderFormat := ((env "CEELOG_CODEC_ENCODER_FORMAT").map readList).getD s.codec.encoderFormat }

end EventLog.Settings
