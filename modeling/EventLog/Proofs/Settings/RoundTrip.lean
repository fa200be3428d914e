import EventLog.Proofs.Toml.Tables
import EventLog.Report

/-!
# Settings written and read

A document has a table for each section and a member for each setting (`Settings.members`), none for
a list of field names that is not there.  So it says all that there is to say, and the settings that
are read from it are the ones that were written (`parse_document`), as long as the sizes can be
written.

* `document_of_report`: the document in the report on some settings is these settings.
-/

namespace EventLog.Settings

open Toml (Members Reads assignments)

/-! ### What is written -/

/-- A list of field names as a member, if there is one. -/
def formatMember (name : Text) (list : Option Text) : Members :=
  (list.map fun t => (name, Toml.string t)).toList

/-- What a section is written as. -/
def members (s : Settings) : Section → Members
  | .general =>
    [("log_level", .string s.general.logLevel), ("log_format", .string s.general.logFormat)]
  | .context =>
    [("compliance_level", .string s.context.compliance.name),
      ("ultra_compact", .boolean s.context.flags.ultraCompact),
      ("include_flat_tags", .boolean s.context.flags.includeFlatTags),
      ("field_bucket_size", .integer s.context.fieldBucketSize),
      ("tag_bucket_size", .integer s.context.tagBucketSize)]
  | .codec   =>
    ("decoder", .string s.codec.decoder) :: ("encoder", .string s.codec.encoder) ::
      (formatMember "decoder_format" s.codec.decoderFormat ++
        formatMember "encoder_format" s.codec.encoderFormat)

/-- What all settings are written as. -/
def tables (s : Settings) : List (Text × Members) :=
  Section.all.map fun part => (part.name, s.members part)

theorem reads_string (k : Text) (hk : Toml.Bare k) (t : Text) :
    Reads (Toml.Writer.line k (Toml.Writer.stringText t)) (assignments [(k, .string t)]) :=
  .assignment hk (Toml.stands_stringText t)

theorem reads_bool (k : Text) (hk : Toml.Bare k) (b : Bool) :
    Reads (Toml.Writer.line k (Toml.Writer.boolText b)) (assignments [(k, .boolean b)]) :=
  .assignment hk (Toml.stands_boolText b)

theorem reads_size (k : Text) (hk : Toml.Bare k) {n : Nat} (hn : n ≤ maxWritten) :
    Reads (Toml.Writer.line k (Text.ofNat n)) (assignments [(k, .integer n)]) := by
  refine .assignment hk (Toml.stands_ofNat ?_)
  rw [maxWritten] at hn
  rw [Toml.Scalar.greatestInteger]
  omega

theorem reads_format (k : Text) (hk : Toml.Bare k) (list : Option Text) :
    Reads (formatLine k list) (assignments (formatMember k list)) := by
  cases list with
  | none => exact .nil
  | some t => exact reads_string k hk t

theorem isWritable_iff {c : Context} :
    isWritable c ↔ c.fieldBucketSize ≤ maxWritten ∧ c.tagBucketSize ≤ maxWritten := by
  simp [isWritable]

section

variable {s : Settings} (h : isWritable s.context)

include h

/-- A section is read as its members. -/
theorem reads_section (part : Section) :
    Reads (s.sectionDocument part) (assignments (s.members part)) := by
  cases part with
  | general =>
      exact (reads_string "log_level" (by decide) s.general.logLevel).members
        (reads_string "log_format" (by decide) s.general.logFormat)
  | context =>
      obtain ⟨fields, tags⟩ := isWritable_iff.mp h
      have level := reads_string "compliance_level" (by decide) s.context.compliance.name
      have ultra := reads_bool "ultra_compact" (by decide) s.context.flags.ultraCompact
      have flat := reads_bool "include_flat_tags" (by decide) s.context.flags.includeFlatTags
      have fields := reads_size "field_bucket_size" (by decide) fields
      have tags := reads_size "tag_bucket_size" (by decide) tags
      rw [sectionDocument, if_pos h]
      exact (((level.members ultra).members flat).members fields).members tags
  | codec =>
      have decoder := reads_string "decoder" (by decide) s.codec.decoder
      have encoder := reads_string "encoder" (by decide) s.codec.encoder
      have columns := reads_format "decoder_format" (by decide) s.codec.decoderFormat
      have cells := reads_format "encoder_format" (by decide) s.codec.encoderFormat
      exact ((decoder.members encoder).members columns).members cells

theorem reads_headed (part : Section) :
    Reads ("[" ++ part.name ++ "]" ++ "\n" ++ s.sectionDocument part)
      (Toml.tableStatements part.name (s.members part)) :=
  (Reads.header (by cases part <;> decide)).append (reads_section h part)

/-- A document is read as the tables of its sections. -/
theorem reads_document :
    Reads s.document (s.tables.flatMap fun m => Toml.tableStatements m.1 m.2) := by
  have all := (reads_headed h .general).append
    ((reads_headed h .context).lineFeed.append (reads_headed h .codec).lineFeed)
  have text : s.document = "[" ++ Section.general.name ++ "]" ++ "\n" ++
      s.sectionDocument .general ++ ('\n' :: ("[" ++ Section.context.name ++ "]" ++ "\n" ++
        s.sectionDocument .context) ++ '\n' :: ("[" ++ Section.codec.name ++ "]" ++ "\n" ++
          s.sectionDocument .codec)) := by
    have context : s.sectionDocument .context = contextLines s.context := if_pos h
    rw [document, if_pos h, context, List.append_assoc, List.append_assoc, List.append_assoc]
    rfl
  rw [text]
  simpa [tables, Section.all] using all

end

theorem nodup_members (s : Settings) (part : Section) : ((s.members part).map Prod.fst).Nodup := by
  cases part with
  | general => simp [members]
  | context => simp [members]
  | codec =>
      cases hd : s.codec.decoderFormat <;> cases he : s.codec.encoderFormat <;>
        simp [members, formatMember, hd, he]

theorem read_document {s : Settings} (h : isWritable s.context) :
    Toml.read s.document = some (s.tables.map fun m => (m.1, .table .header m.2)) := by
  refine Toml.read_of_reads (reads_document h) ?_ ?_ ?_
  · rw [document, if_pos h]
    nofun
  · exact (by decide : (Section.all.map Section.name).Nodup)
  · intro m hm
    obtain ⟨part, -, rfl⟩ := List.mem_map.mp hm
    exact s.nodup_members part

/-! ### What is read -/

theorem find?_tables (s : Settings) (part : Section) :
    Toml.find? part.name (s.tables.map fun m => (m.1, .table .header m.2)) =
      some (.table .header (s.members part)) := by
  cases part <;> rfl

theorem membersInRange_members (s : Settings) (part : Section) :
    Toml.membersInRange (s.members part) := by
  cases part with
  | general => rfl
  | context => rfl
  | codec =>
      cases hd : s.codec.decoderFormat <;> cases he : s.codec.encoderFormat <;>
        simp [members, formatMember, hd, he, Toml.membersInRange, Toml.inRange]

theorem size?_integer {n : Nat} (h : n ≤ maxWritten) : size? (.integer n) = some n := by
  have fits : (0 : Int) ≤ n ∧ (n : Int) ≤ maxSize := by
    rw [maxWritten] at h
    rw [maxSize]
    omega
  rw [size?, if_pos fits, Int.toNat_natCast]

theorem compliance?_name (c : Compliance) : compliance? (.string c.name) = some c := by
  cases c <;> rfl

theorem context?_members {s : Settings} (h : isWritable s.context) :
    context? (.named (s.members .context)) = some s.context := by
  obtain ⟨fields, tags⟩ := isWritable_iff.mp h
  have level := compliance?_name s.context.compliance
  have fields := size?_integer fields
  have tags := size?_integer tags
  show (do
    let compliance ← compliance? (.string s.context.compliance.name)
    let fields ← size? (.integer s.context.fieldBucketSize)
    let tags ← size? (.integer s.context.tagBucketSize)
    return (⟨compliance, s.context.flags, fields, tags⟩ : Context)) = _
  rw [level, fields, tags]
  rfl

theorem codec?_members (s : Settings) : codec? (.named (s.members .codec)) = some s.codec := by
  obtain ⟨_, _, decoder, encoder, _ | columns, _ | cells⟩ := s <;> rfl

theorem entries?_tables (s : Settings) (part : Section) :
    entries? (Toml.find? part.name (s.tables.map fun m => (m.1, .table .header m.2))) =
      some (.named (s.members part)) := by
  rw [find?_tables, entries?, if_pos (s.membersInRange_members part)]

theorem ofMembers?_tables {s : Settings} (h : isWritable s.context) :
    ofMembers? (s.tables.map fun m => (m.1, .table .header m.2)) = some s := by
  have known : (guard (Toml.membersInRange (unknownMembers
      (s.tables.map fun m => (m.1, .table .header m.2)))) : Option Unit) = some () := rfl
  have general : entries? (Toml.find? "general" (s.tables.map fun m => (m.1, .table .header m.2))) =
      some (.named (s.members .general)) := s.entries?_tables .general
  have context : entries? (Toml.find? "context" (s.tables.map fun m => (m.1, .table .header m.2))) =
      some (.named (s.members .context)) := s.entries?_tables .context
  have codec : entries? (Toml.find? "codec" (s.tables.map fun m => (m.1, .table .header m.2))) =
      some (.named (s.members .codec)) := s.entries?_tables .codec
  have read : general? (.named (s.members .general)) = some s.general := rfl
  rw [ofMembers?, known]
  simp only [general, context, codec, Option.bind_eq_bind, Option.bind_some,
    read, context?_members h, codec?_members]
  rfl

/-- **A document is the settings it was written from.** -/
theorem parse_document {s : Settings} (h : isWritable s.context) : parse s.document = .ok s := by
  rw [parse, read_document h]
  dsimp only
  rw [ofMembers?_tables h]

theorem read_parenthesis (t : Text) : Toml.read ('(' :: t) = none := rfl

/-- What stands for a document that cannot be written is no document. -/
theorem parse_unwritable : parse unwritable = .error (.malformed "not a TOML document") := by
  have read : Toml.read unwritable = none := read_parenthesis _
  rw [parse, read]

/-- **The report on all settings** can be read as settings exactly if both sizes are below 2^63;
they are then the settings that it is about, in everything. -/
theorem document_of_report (s : Settings) (origin : Origin) :
    ∃ r, SettingsReport.make s origin none = .ok r ∧ r.source = origin.name ∧ r.part? = none ∧
      (parse r.document = .ok s ↔
        s.context.fieldBucketSize < 2 ^ 63 ∧ s.context.tagBucketSize < 2 ^ 63) := by
  refine ⟨⟨origin.name, none, s.document⟩, rfl, rfl, rfl, ?_⟩
  have bound : isWritable s.context ↔
      s.context.fieldBucketSize < 2 ^ 63 ∧ s.context.tagBucketSize < 2 ^ 63 := by
    rw [isWritable_iff, maxWritten]
    omega
  rw [← bound]
  constructor
  · intro read
    by_contra h
    have none : s.document = unwritable := if_neg h
    rw [none, parse_unwritable] at read
    cases read
  · exact parse_document

end EventLog.Settings
