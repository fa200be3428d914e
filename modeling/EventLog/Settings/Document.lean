import EventLog.Settings.Environment
import EventLog.Toml.Reader
import EventLog.Toml.Writer

/-!
# Settings as a TOML document

A document has a table for each section and a key for each setting.  What it leaves out has its
standard value, and what it says beyond that is ignored, as long as its numbers can be read.  A
section may also be written as an array of its settings in order; what follows them there is not
looked at.  `Settings.document` writes all settings, `Settings.sectionDocument` those
of one section without its header.
-/

namespace EventLog.Settings

/-! ### Sections -/

/-- The sections of a document. -/
inductive Section where
  | general
  | context
  | codec
deriving Repr, DecidableEq

namespace Section

/-- All sections. -/
def all : List Section := [general, context, codec]

/-- The name of a section. -/
def name : Section → Text
  | general => "general"
  | context => "context"
  | codec   => "codec"

/-- The section of a name. -/
def ofName? (name : Text) : Option Section := all.find? fun s => s.name = name

end Section

/-! ### Reading -/

/-- The settings of a section, as a document gives them. -/
inductive Entries where
  | named (ms : Toml.Members)
  | listed (items : List Toml)

/-- The settings of a section; a date counts as a table without keys of interest. -/
def entries? : Option Toml → Option Entries
  | none                => some (.named [])
  | some (.table _ ms)  => if Toml.membersInRange ms then some (.named ms) else none
  | some (.array _ vs)  => some (.listed vs)
  | some (.datetime _)  => some (.named [])
  | some _              => none

/-- What the document gives for a setting, by its name or its place. -/
def Entries.get? (index : Nat) (name : Text) : Entries → Option Toml
  | named ms  => Toml.find? name ms
  | listed vs => vs[index]?

/-- A setting: its standard value where the document gives none. -/
def entry {α : Type} (read : Toml → Option α) (standard : α) : Option Toml → Option α
  | none   => some standard
  | some v => read v

/-- A text. -/
def text? : Toml → Option Text
  | .string t => some t
  | _         => none

/-- A truth value. -/
def bool? : Toml → Option Bool
  | .boolean b => some b
  | _          => none

/-- A size. -/
def size? : Toml → Option Nat
  | .integer n => if 0 ≤ n ∧ n ≤ maxSize then some n.toNat else none
  | _          => none

/-- A compliance level: its name, or a table with its name as the only key and nothing in it. -/
def compliance? : Toml → Option Compliance
  | .string t                        => Compliance.ofName? t
  | .table _ [(name, .table _ [])]   => Compliance.ofName? name
  | .table _ [(name, .array _ [])]   => Compliance.ofName? name
  | _                                => none

/-- The general settings. -/
def general? (e : Entries) : Option GeneralSettings := do
  let d := standard.general
  return ⟨← entry text? d.logLevel (e.get? 0 "log_level"),
    ← entry text? d.logFormat (e.get? 1 "log_format")⟩

/-- The settings of the context. -/
def context? (e : Entries) : Option Context := do
  let d := standard.context
  let compliance ← entry compliance? d.compliance (e.get? 0 "compliance_level")
  let ultra ← entry bool? d.flags.ultraCompact (e.get? 1 "ultra_compact")
  let flat ← entry bool? d.flags.includeFlatTags (e.get? 2 "include_flat_tags")
  let fields ← entry size? d.fieldBucketSize (e.get? 3 "field_bucket_size")
  let tags ← entry size? d.tagBucketSize (e.get? 4 "tag_bucket_size")
  return ⟨compliance, ⟨ultra, flat⟩, fields, tags⟩

/-- The settings of the codecs. -/
def codec? (e : Entries) : Option CodecSettings := do
  let d := standard.codec
  let optional (v : Toml) : Option (Option Text) := (text? v).map some
  return ⟨← entry text? d.decoder (e.get? 0 "decoder"),
    ← entry text? d.encoder (e.get? 1 "encoder"),
    ← entry optional d.decoderFormat (e.get? 2 "decoder_format"),
    ← entry optional d.encoderFormat (e.get? 3 "encoder_format")⟩

/-- The members of a document that are no section. -/
def unknownMembers (ms : Toml.Members) : Toml.Members :=
  ms.filter fun m => Section.ofName? m.1 = none

/-- The settings that a document's members give. -/
def ofMembers? (ms : Toml.Members) : Option Settings := do
  guard (Toml.membersInRange (unknownMembers ms))
  return ⟨← general? (← entries? (Toml.find? "general" ms)),
    ← context? (← entries? (Toml.find? "context" ms)),
    ← codec? (← entries? (Toml.find? "codec" ms))⟩

/-- The settings that a document gives. -/
def parse (t : Text) : Except SettingsError Settings :=
  match Toml.read t with
  | none    => .error (.malformed "not a TOML document")
  | some ms =>
    match ofMembers? ms with
    | none   => .error (.malformed "a setting has a value of the wrong type")
    | some s => .ok s

/-! ### Writing -/

/-- The greatest whole number that is written, 2^63 - 1. -/
def maxWritten : Nat := 0x7FFFFFFFFFFFFFFF

/-- The lines of the general settings. -/
def generalLines (s : GeneralSettings) : Text :=
  Toml.Writer.line "log_level" (Toml.Writer.stringText s.logLevel) ++
    Toml.Writer.line "log_format" (Toml.Writer.stringText s.logFormat)

/-- The lines of the context's settings. -/
def contextLines (c : Context) : Text :=
  Toml.Writer.line "compliance_level" (Toml.Writer.stringText c.compliance.name) ++
    Toml.Writer.line "ultra_compact" (Toml.Writer.boolText c.flags.ultraCompact) ++
    Toml.Writer.line "include_flat_tags" (Toml.Writer.boolText c.flags.includeFlatTags) ++
    Toml.Writer.line "field_bucket_size" (Text.ofNat c.fieldBucketSize) ++
    Toml.Writer.line "tag_bucket_size" (Text.ofNat c.tagBucketSize)

/-- The line of a list of field names, if there is one. -/
def formatLine (name : Text) : Option Text → Text
  | none      => []
  | some list => Toml.Writer.line name (Toml.Writer.stringText list)

/-- The lines of the codecs' settings. -/
def codecLines (s : CodecSettings) : Text :=
  Toml.Writer.line "decoder" (Toml.Writer.stringText s.decoder) ++
    Toml.Writer.line "encoder" (Toml.Writer.stringText s.encoder) ++
    formatLine "decoder_format" s.decoderFormat ++ formatLine "encoder_format" s.encoderFormat

/-- Stands for a document that cannot be written. -/
def unwritable : Text := "(serialization error: out-of-range value for u64 type)"

/-- Whether the sizes can be written. -/
def isWritable (c : Context) : Bool :=
  c.fieldBucketSize ≤ maxWritten && c.tagBucketSize ≤ maxWritten

/-- The document of one section, without its header. -/
def sectionDocument (s : Settings) : Section → Text
  | .general => generalLines s.general
  | .context => if isWritable s.context then contextLines s.context else unwritable
  | .codec   => codecLines s.codec

/-- The document of all settings. -/
def document (s : Settings) : Text :=
  if isWritable s.context then
    "[general]\n" ++ generalLines s.general ++ "\n[context]\n" ++ contextLines s.context ++
      "\n[codec]\n" ++ codecLines s.codec
  else unwritable

end EventLog.Settings
