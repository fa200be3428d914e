import EventLog.Proofs.Settings.Layers
import EventLog.Proofs.Settings.Spelling

/-!
# Which layer a setting comes from

Every setting has a section, a key there and a kind of value.  This settles how each layer names it:
a document by its section and key, the environment by a variable made of the two
(`Setting.variableName`), each with a spelling for the kind (`Kind.Holds`, `Kind.Spells`).  Only the
command line has a rule for each of its options.

* `Setting.value_merged`: in merged settings, each setting is the one of the highest layer that
  gives it, whatever the layers give for the others.
* `value_of_forConversion`: so it is in the settings of a conversion, with the layers read as their
  names say.
-/

namespace EventLog.Settings

/-! ### Settings, one by one -/

/-- One of the settings. -/
inductive Setting where
  | logLevel
  | logFormat
  | compliance
  | ultraCompact
  | includeFlatTags
  | fieldBucketSize
  | tagBucketSize
  | decoder
  | encoder
  | decoderFormat
  | encoderFormat
deriving Repr, DecidableEq

namespace Setting

/-- The section of a setting. -/
def part : Setting → Section
  | logLevel | logFormat                                                            => .general
  | compliance | ultraCompact | includeFlatTags | fieldBucketSize | tagBucketSize => .context
  | decoder | encoder | decoderFormat | encoderFormat                              => .codec

/-- The key of a setting in its section. -/
def key : Setting → Text
  | logLevel        => "log_level"
  | logFormat       => "log_format"
  | compliance      => "compliance_level"
  | ultraCompact    => "ultra_compact"
  | includeFlatTags => "include_flat_tags"
  | fieldBucketSize => "field_bucket_size"
  | tagBucketSize   => "tag_bucket_size"
  | decoder         => "decoder"
  | encoder         => "encoder"
  | decoderFormat   => "decoder_format"
  | encoderFormat   => "encoder_format"

/-- The place of a setting in its section. -/
def place : Setting → Nat
  | logLevel | compliance | decoder        => 0
  | logFormat | ultraCompact | encoder     => 1
  | includeFlatTags | decoderFormat        => 2
  | fieldBucketSize | encoderFormat        => 3
  | tagBucketSize                          => 4

/-- The kind of a setting's value. -/
abbrev kind : Setting → Kind
  | logLevel | logFormat | decoder | encoder => .text
  | compliance                                => .compliance
  | ultraCompact | includeFlatTags            => .bool
  | fieldBucketSize | tagBucketSize           => .size
  | decoderFormat | encoderFormat             => .names

/-- The value of a setting. -/
def value : (f : Setting) → Settings → f.kind.Value
  | logLevel, s        => s.general.logLevel
  | logFormat, s       => s.general.logFormat
  | compliance, s      => s.context.compliance
  | ultraCompact, s    => s.context.flags.ultraCompact
  | includeFlatTags, s => s.context.flags.includeFlatTags
  | fieldBucketSize, s => s.context.fieldBucketSize
  | tagBucketSize, s   => s.context.tagBucketSize
  | decoder, s         => s.codec.decoder
  | encoder, s         => s.codec.encoder
  | decoderFormat, s   => s.codec.decoderFormat
  | encoderFormat, s   => s.codec.encoderFormat

/-- The variable of a setting: the name of the program, its section and its key, in capitals. -/
def variableName (f : Setting) : Text :=
  ("ceelog_" ++ f.part.name ++ "_" ++ f.key).map Char.toUpper

/-! ### What the layers give -/

/-- What the command line gives for a setting.  Being verbose is a log level, and compactness can
only be asked for. -/
def inOptions? (o : ConvertOptions) (logLevel : Option Text) :
    (f : Setting) → Option f.kind.Value
  | .logLevel      => if o.verbose then some "trace".toList else logLevel
  | .ultraCompact  => if o.ultra then some true else none
  | .decoder       => o.decoder
  | .encoder       => o.encoder
  | .decoderFormat => o.decoderFormat.map some
  | .encoderFormat => o.encoderFormat.map some
  | _              => none

/-- What the environment gives for a setting: its variable, if it is set and can be read. -/
def inEnvironment? (env : Environment) (f : Setting) : Option f.kind.Value :=
  (env f.variableName).bind f.kind.ofVariable?

/-- What a document gives for a setting: the value of its key, or of its place in a section that is
an array. -/
def inDocument? (t : Text) (f : Setting) : Option f.kind.Value :=
  (Layer.given ((Toml.read t).getD []) f.part.name f.place f.key).bind f.kind.ofToml?

/-- What a layer gives for a setting. -/
def inLayer? (l : Layer) : (f : Setting) → Option f.kind.Value
  | logLevel        => l.logLevel
  | logFormat       => l.logFormat
  | compliance      => l.compliance
  | ultraCompact    => l.ultraCompact
  | includeFlatTags => l.includeFlatTags
  | fieldBucketSize => l.fieldBucketSize
  | tagBucketSize   => l.tagBucketSize
  | decoder         => l.decoder
  | encoder         => l.encoder
  | decoderFormat   => l.decoderFormat
  | encoderFormat   => l.encoderFormat

theorem inEnvironment?_eq_some_iff {env : Environment} {f : Setting} {v : f.kind.Value} :
    f.inEnvironment? env = some v ↔ ∃ t, env f.variableName = some t ∧ f.kind.Spells t v :=
  Option.bind_eq_some_iff.trans
    (exists_congr fun _ => and_congr_right fun _ => Kind.ofVariable?_eq_some_iff)

theorem inDocument?_eq_some_iff {t : Text} {f : Setting} {v : f.kind.Value} :
    f.inDocument? t = some v ↔
      ∃ value, Layer.given ((Toml.read t).getD []) f.part.name f.place f.key = some value ∧
        f.kind.Holds value v :=
  Option.bind_eq_some_iff.trans
    (exists_congr fun _ => and_congr_right fun _ => Kind.ofToml?_eq_some_iff)

theorem inLayer?_ofOptions (o : ConvertOptions) (logLevel : Option Text) (f : Setting) :
    f.inLayer? (.ofOptions o logLevel) = f.inOptions? o logLevel := by
  cases f <;> rfl

theorem inLayer?_ofEnvironment (env : Environment) (f : Setting) :
    f.inLayer? (.ofEnvironment env) = f.inEnvironment? env := by
  cases f with
  | logLevel | logFormat | decoder | encoder => exact (Option.bind_fun_some _).symm
  | decoderFormat | encoderFormat => exact Option.map_eq_bind
  | compliance | ultraCompact | includeFlatTags | fieldBucketSize | tagBucketSize => rfl

theorem inLayer?_ofDocument (t : Text) (f : Setting) :
    f.inLayer? (.ofDocument t) = f.inDocument? t := by
  cases f <;> rfl

/-- **In merged settings** each setting is the one of the highest layer that gives it. -/
theorem value_merged (f : Setting) (ls : List Layer) (s : Settings) :
    f.value (Layer.merged ls s) = (ls.findSome? (inLayer? · f)).getD (f.value s) := by
  cases f <;> rfl

end Setting

/-! ### Main statement -/

variable {w : Surroundings} {given : Option Text}

/-- The text of the file that is loaded, if there is one and it can be read. -/
def loadedText (w : Surroundings) (given : Option Text) : Option Text :=
  (pathToLoad w given).bind fun path => (fileText w path).toOption

theorem fromFile_eq_ok_iff {path : Text} {s : Settings} :
    fromFile w path = .ok s ↔
      ∃ t, fileText w path = .ok t ∧ parse t = .ok s ∧ s.validate = .ok () := by
  rw [fromFile, bind_eq_ok_iff]
  refine exists_congr fun t => and_congr_right fun _ => ?_
  cases parse t with
  | error fault => simp
  | ok s₀ =>
      simp only [validated_eq_ok_iff, Except.ok.injEq]
      constructor
      · rintro ⟨rfl, valid⟩
        exact ⟨rfl, valid⟩
      · rintro ⟨rfl, valid⟩
        exact ⟨rfl, valid⟩

/-- Settings that are loaded come of a file that could be read, or of none. -/
theorem fileLayer_of_effective {s : Settings} {origin : Origin}
    (h : effective w given = .ok (s, origin)) :
    FileLayer w given ((loadedText w given).map .ofDocument) := by
  have loaded := exists_effective_eq_ok_iff.mp ⟨origin, h⟩
  cases path : pathToLoad w given with
  | none =>
      rw [loadedText, path]
      exact .absent path
  | some p =>
      simp only [path, Option.elim_some, load_eq_ok_iff, fromFile_eq_ok_iff] at loaded
      obtain ⟨s₀, ⟨t, text, parsed, -⟩, -⟩ := loaded
      have : loadedText w given = some t := by
        simp [loadedText, path, text, Except.toOption]
      rw [this]
      exact .present path text parsed

/-- **Each setting of a conversion** is what the command line gives for it, or else the environment,
or else the file, or else the standard one; and together they are valid.  The environment gives what
the text of the setting's variable stands for, and the file what its key has there. -/
theorem value_of_forConversion {o : ConvertOptions} {logLevel : Option Text} {s : Settings}
    (h : forConversion w given o logLevel = .ok s) :
    s.validate = .ok () ∧ ∀ f : Setting,
      f.value s =
          (f.inOptions? o logLevel <|> f.inEnvironment? w.environment <|>
            (loadedText w given).bind f.inDocument?).getD (f.value standard) ∧
        (∀ v, f.inEnvironment? w.environment = some v ↔
          ∃ t, w.environment f.variableName = some t ∧ f.kind.Spells t v) ∧
        ∀ t v, f.inDocument? t = some v ↔
          ∃ value, Layer.given ((Toml.read t).getD []) f.part.name f.place f.key = some value ∧
            f.kind.Holds value v := by
  rw [forConversion, bind_eq_ok_iff] at h
  obtain ⟨⟨s₀, origin⟩, loaded, applied⟩ := h
  obtain ⟨rfl, valid⟩ := apply_eq_ok_iff.mp applied
  obtain ⟨rfl, -⟩ := (effective_eq_ok_iff (fileLayer_of_effective loaded)).mp ⟨origin, loaded⟩
  refine ⟨valid, fun f => ⟨?_, fun _ => f.inEnvironment?_eq_some_iff,
    fun _ _ => f.inDocument?_eq_some_iff⟩⟩
  have above (l : Layer) (ls : List Layer) :
      (l :: ls).findSome? (Setting.inLayer? · f) =
        (f.inLayer? l <|> ls.findSome? (Setting.inLayer? · f)) := by
    rw [List.findSome?_cons]
    cases f.inLayer? l <;> rfl
  rw [← Layer.merged_cons, f.value_merged, above, above, f.inLayer?_ofOptions,
    f.inLayer?_ofEnvironment]
  cases loadedText w given with
  | none => rfl
  | some t =>
      rw [Option.map_some, Option.toList_some, List.findSome?_singleton, f.inLayer?_ofDocument,
        Option.bind_some]

/-- Options outweigh the environment and the environment the file, but a truth value that cannot be
read does not, and an empty list of names takes the one of the file away. -/
theorem value_of_forConversion_cleared :
    let text : Text := "[context]\nultra_compact = true\nfield_bucket_size = 9\n" ++
      "[codec]\ndecoder_format = \"a,b\"\n"
    let env : Environment := fun name =>
      if name = "CEELOG_CONTEXT_COMPLIANCE_LEVEL" then some "full"
      else if name = "CEELOG_CONTEXT_ULTRA_COMPACT" then some "no"
      else if name = "CEELOG_CONTEXT_INCLUDE_FLAT_TAGS" then some "true"
      else if name = "CEELOG_CONTEXT_TAG_BUCKET_SIZE" then some "+07"
      else if name = "CEELOG_CODEC_DECODER_FORMAT" then some ""
      else if name = "CEELOG_CODEC_ENCODER_FORMAT" then some "b,c"
      else if name = "CEELOG_CODEC_ENCODER" then some "xml"
      else none
    let w : Surroundings :=
      ⟨fun p => if p = standardPath then .file (Utf8.encode text) else .missing, env⟩
    let o := { ConvertOptions.none with encoder := some "json", verbose := true }
    let s : Settings :=
      ⟨⟨"trace", "pretty"⟩, ⟨.full, ⟨true, true⟩, 9, 7⟩, ⟨"int", "json", none, some "b,c"⟩⟩
    forConversion w none o (some "warn".toList) = .ok s ∧ s.validate = .ok () ∧
      Setting.inEnvironment? env .compliance = some .full ∧
      Setting.inEnvironment? env .includeFlatTags = some true ∧
      Setting.inEnvironment? env .tagBucketSize = some 7 ∧
      Setting.inEnvironment? env .decoderFormat = some none ∧
      Setting.inEnvironment? env .encoderFormat = some (some "b,c".toList) ∧
      (∃ value, Layer.given ((Toml.read text).getD []) "context" 3 "field_bucket_size" = some value ∧
        Kind.size.Holds value 9) ∧
      s.context.flags.ultraCompact = true ∧ s.codec.decoderFormat = none ∧
      s.codec.encoder = "json" := by
  intro text env w o s
  have loaded : forConversion w none o (some "warn".toList) = .ok s :=
    toOption_eq_some_iff.mp (by decide +kernel)
  obtain ⟨valid, values⟩ := value_of_forConversion loaded
  have reads (f : Setting) {t : Text} {v : f.kind.Value} (given : env f.variableName = some t)
      (spells : f.kind.Spells t v) : f.inEnvironment? env = some v :=
    ((values f).2.1 v).mpr ⟨t, given, spells⟩
  have size : Setting.inDocument? text .fieldBucketSize = some 9 := by decide +kernel
  refine ⟨loaded, valid, reads .compliance (by decide +kernel) .compliant,
    reads .includeFlatTags (by decide +kernel) .true,
    reads .tagBucketSize (by decide +kernel) (.sizeBehindPlus (by decide) 2),
    reads .decoderFormat (by decide +kernel) .noNames,
    reads .encoderFormat (by decide +kernel) (.names (by decide)),
    ((values .fieldBucketSize).2.2 text 9).mp size,
    (values .ultraCompact).1.trans (by decide +kernel),
    (values .decoderFormat).1.trans (by decide +kernel), (values .encoder).1⟩

end EventLog.Settings
