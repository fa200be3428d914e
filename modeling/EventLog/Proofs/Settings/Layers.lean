import EventLog.CommandLine.Program
import Mathlib.Data.Option.Basic

/-!
# Layers of settings

A conversion runs with settings that come from a file, the environment and the command line.  Each
of them gives a `Layer`: a value for some of the settings.  `Layer.merged` takes every setting from
the highest layer that gives it.

* `Layer.parse_eq`, `Layer.withEnvironment_eq`, `Layer.overlay_eq`: reading a document, laying the
  environment over settings and laying options over them each merge one layer.
* `convert_of_forConversion_error`: without settings a conversion writes nothing.
* `forConversion_eq_ok_iff`: the settings of a conversion are the merge of all layers, and they are
  there if and only if the merge is valid after every layer.  A value that is wrong in one layer is
  not repaired by a higher one.
-/

namespace EventLog.Settings

/-- What a layer gives: a value for some of the settings. -/
structure Layer where
  logLevel : Option Text
  logFormat : Option Text
  compliance : Option Compliance
  ultraCompact : Option Bool
  includeFlatTags : Option Bool
  fieldBucketSize : Option Nat
  tagBucketSize : Option Nat
  decoder : Option Text
  encoder : Option Text
  /-- A layer can give a list of names, say that there is none, or be silent. -/
  decoderFormat : Option (Option Text)
  encoderFormat : Option (Option Text)

namespace Layer

/-- Settings where each is taken from the first layer that gives it, or else left. -/
def merged (ls : List Layer) (s : Settings) : Settings where
  general :=
    { logLevel := (ls.findSome? logLevel).getD s.general.logLevel
      logFormat := (ls.findSome? logFormat).getD s.general.logFormat }
  context :=
    { compliance := (ls.findSome? compliance).getD s.context.compliance
      flags :=
        { ultraCompact := (ls.findSome? ultraCompact).getD s.context.flags.ultraCompact
          includeFlatTags := (ls.findSome? includeFlatTags).getD s.context.flags.includeFlatTags }
      fieldBucketSize := (ls.findSome? fieldBucketSize).getD s.context.fieldBucketSize
      tagBucketSize := (ls.findSome? tagBucketSize).getD s.context.tagBucketSize }
  codec :=
    { decoder := (ls.findSome? decoder).getD s.codec.decoder
      encoder := (ls.findSome? encoder).getD s.codec.encoder
      decoderFormat := (ls.findSome? decoderFormat).getD s.codec.decoderFormat
      encoderFormat := (ls.findSome? encoderFormat).getD s.codec.encoderFormat }

theorem findSome?_cons_getD {α : Type} (setting : Layer → Option α) (l : Layer) (ls : List Layer)
    (standard : α) :
    ((l :: ls).findSome? setting).getD standard =
      ([l].findSome? setting).getD ((ls.findSome? setting).getD standard) := by
  simp only [List.findSome?_cons, List.findSome?_nil]
  cases setting l <;> rfl

/-- The layers can be laid over settings one by one, the highest last. -/
theorem merged_cons (l : Layer) (ls : List Layer) (s : Settings) :
    merged (l :: ls) s = merged [l] (merged ls s) := by
  simp only [merged, findSome?_cons_getD _ l ls]

/-! ### Files -/

/-- What a document gives for a setting, by its section and its name or place there. -/
def given (ms : Toml.Members) (section_ : Text) (index : Nat) (name : Text) : Option Toml :=
  (entries? (Toml.find? section_ ms)).bind (Entries.get? index name)

/-- The layer of a document's members. -/
def ofMembers (ms : Toml.Members) : Layer where
  logLevel := (given ms "general" 0 "log_level").bind text?
  logFormat := (given ms "general" 1 "log_format").bind text?
  compliance := (given ms "context" 0 "compliance_level").bind compliance?
  ultraCompact := (given ms "context" 1 "ultra_compact").bind bool?
  includeFlatTags := (given ms "context" 2 "include_flat_tags").bind bool?
  fieldBucketSize := (given ms "context" 3 "field_bucket_size").bind size?
  tagBucketSize := (given ms "context" 4 "tag_bucket_size").bind size?
  decoder := (given ms "codec" 0 "decoder").bind text?
  encoder := (given ms "codec" 1 "encoder").bind text?
  decoderFormat := (given ms "codec" 2 "decoder_format").bind fun v => (text? v).map some
  encoderFormat := (given ms "codec" 3 "encoder_format").bind fun v => (text? v).map some

/-- The layer of a document. -/
def ofDocument (t : Text) : Layer := ofMembers ((Toml.read t).getD [])

/-- A setting that can be read is the one given, or else the standard one. -/
theorem entry_eq {α : Type} {read : Toml → Option α} {standard a : α} {v? : Option Toml}
    (h : entry read standard v? = some a) : a = (v?.bind read).getD standard := by
  cases v? with
  | none => exact (Option.some.inj h).symm
  | some v =>
      have h : read v = some a := h
      simp [h]

/-- What a document says is its layer over the standard settings. -/
theorem parse_eq {t : Text} {s : Settings} (h : parse t = .ok s) :
    s = merged [ofDocument t] standard := by
  cases hms : Toml.read t with
  | none => simp [parse, hms] at h
  | some ms =>
      have read : ofMembers? ms = some s := by
        cases hs : ofMembers? ms <;> simp_all [parse]
      simp only [ofMembers?, general?, context?, codec?, Option.bind_eq_bind, Option.pure_def,
        Option.bind_eq_some_iff, Option.some.injEq] at read
      obtain ⟨-, -, general, inGeneral, -, ⟨level, hlevel, form, hform, rfl⟩, context, inContext, -,
        ⟨compliance, hcompliance, ultra, hultra, flat, hflat, fields, hfields, tags, htags, rfl⟩,
        codec, inCodec, -, ⟨decoder, hdecoder, encoder, hencoder, columns, hcolumns, cells, hcells,
          rfl⟩, rfl⟩ := read
      simp only [entry_eq hlevel, entry_eq hform, entry_eq hcompliance, entry_eq hultra,
        entry_eq hflat, entry_eq hfields, entry_eq htags, entry_eq hdecoder, entry_eq hencoder,
        entry_eq hcolumns, entry_eq hcells, merged, List.findSome?_singleton, ofDocument, hms,
        Option.getD_some, ofMembers, given, inGeneral, inContext, inCodec, Option.bind_some]

/-! ### The environment -/

/-- The layer of the environment. -/
def ofEnvironment (env : Environment) : Layer where
  logLevel := env "CEELOG_GENERAL_LOG_LEVEL"
  logFormat := env "CEELOG_GENERAL_LOG_FORMAT"
  compliance := (env "CEELOG_CONTEXT_COMPLIANCE_LEVEL").bind Compliance.ofName?
  ultraCompact := (env "CEELOG_CONTEXT_ULTRA_COMPACT").bind readBool?
  includeFlatTags := (env "CEELOG_CONTEXT_INCLUDE_FLAT_TAGS").bind readBool?
  fieldBucketSize := (env "CEELOG_CONTEXT_FIELD_BUCKET_SIZE").bind readSize?
  tagBucketSize := (env "CEELOG_CONTEXT_TAG_BUCKET_SIZE").bind readSize?
  decoder := env "CEELOG_CODEC_DECODER"
  encoder := env "CEELOG_CODEC_ENCODER"
  decoderFormat := (env "CEELOG_CODEC_DECODER_FORMAT").map readList
  encoderFormat := (env "CEELOG_CODEC_ENCODER_FORMAT").map readList

theorem withEnvironment_eq (env : Environment) (s : Settings) :
    s.withEnvironment env = merged [ofEnvironment env] s := by
  simp only [merged, List.findSome?_singleton, ofEnvironment, withEnvironment]

/-! ### The command line -/

/-- The layer of the command line.  Being verbose is a log level. -/
def ofOptions (o : ConvertOptions) (logLevel : Option Text) : Layer where
  logLevel := if o.verbose then some "trace" else logLevel
  logFormat := none
  compliance := none
  ultraCompact := if o.ultra then some true else none
  includeFlatTags := none
  fieldBucketSize := none
  tagBucketSize := none
  decoder := o.decoder
  encoder := o.encoder
  decoderFormat := o.decoderFormat.map some
  encoderFormat := o.encoderFormat.map some

theorem overlay_eq (o : ConvertOptions) (logLevel : Option Text) (s : Settings) :
    o.overlay logLevel s = merged [ofOptions o logLevel] s := by
  obtain ⟨input, decoder, encoder, columns, cells, ultra, verbose⟩ := o
  simp only [merged, List.findSome?_singleton, ofOptions, ConvertOptions.overlay]
  -- Options that give a list of names and those that are silent, flags that are set and not.
  cases columns <;> cases cells <;> cases ultra <;> cases verbose <;> rfl

end Layer

/-! ### Loading -/

theorem validated_eq_ok_iff {s s' : Settings} :
    validated s = .ok s' ↔ s' = s ∧ s'.validate = .ok () := by
  rw [validated]
  constructor
  · intro h
    split at h <;> cases h
    exact ⟨rfl, ‹_›⟩
  · rintro ⟨rfl, valid⟩
    rw [valid]

theorem apply_eq_ok_iff {o : ConvertOptions} {logLevel : Option Text} {s s' : Settings} :
    o.apply logLevel s = .ok s' ↔
      s' = Layer.merged [.ofOptions o logLevel] s ∧ s'.validate = .ok () := by
  have checked : o.apply logLevel s = .ok s' ↔ validated (o.overlay logLevel s) = .ok s' := by
    rw [ConvertOptions.apply, validated]
    cases (o.overlay logLevel s).validate <;> simp
  rw [checked, validated_eq_ok_iff, Layer.overlay_eq]

theorem load_eq_ok_iff {w : Surroundings} {path : Text} {s : Settings} :
    load w path = .ok s ↔ ∃ s₀, fromFile w path = .ok s₀ ∧
      s = Layer.merged [.ofEnvironment w.environment] s₀ ∧ s.validate = .ok () := by
  simp only [load, bind_eq_ok_iff, validated_eq_ok_iff, Layer.withEnvironment_eq]

/-- The layer of the file that is loaded, if there is one.  It is there if its text can be read. -/
inductive FileLayer (w : Surroundings) (given : Option Text) : Option Layer → Prop
  | absent (path : pathToLoad w given = none) : FileLayer w given none
  | present {p t : Text} {s : Settings} (path : pathToLoad w given = some p)
      (text : fileText w p = .ok t) (parsed : parse t = .ok s) :
      FileLayer w given (some (.ofDocument t))

variable {w : Surroundings} {given : Option Text} {file : Option Layer}

theorem exists_effective_eq_ok_iff {s : Settings} :
    (∃ origin, effective w given = .ok (s, origin)) ↔
      ((pathToLoad w given).elim (validated (standard.withEnvironment w.environment)) (load w)) =
        .ok s := by
  rw [effective]
  cases pathToLoad w given with
  | none => cases validated (standard.withEnvironment w.environment) <;> simp
  | some p => cases h : load w p <;> simp [h]

/-- The settings that are loaded are the merge of the environment and the file, valid with and
without the environment. -/
theorem effective_eq_ok_iff (h : FileLayer w given file) {s : Settings} :
    (∃ origin, effective w given = .ok (s, origin)) ↔
      s = Layer.merged (.ofEnvironment w.environment :: file.toList) standard ∧
        s.validate = .ok () ∧
        ∀ l ∈ file, (Layer.merged [l] standard).validate = .ok () := by
  rw [exists_effective_eq_ok_iff]
  cases h with
  | absent path =>
      simp [path, validated_eq_ok_iff, Layer.withEnvironment_eq]
  | @present p t s₀ path text parsed =>
      obtain rfl := Layer.parse_eq parsed
      have fromFile : fromFile w p = validated (Layer.merged [.ofDocument t] standard) := by
        simp only [fromFile, text, bind, Except.bind, parsed]
      simp only [path, Option.elim_some, load_eq_ok_iff, fromFile, validated_eq_ok_iff,
        Option.toList_some, Layer.merged_cons _ [_], Option.mem_some_iff, forall_eq']
      constructor
      · rintro ⟨_, ⟨rfl, alone⟩, rfl, valid⟩
        exact ⟨rfl, valid, alone⟩
      · rintro ⟨rfl, valid, alone⟩
        exact ⟨_, ⟨rfl, alone⟩, rfl, valid⟩

/-! ### Main statement -/

/-- The settings that a conversion runs with. -/
def forConversion (w : Surroundings) (given : Option Text) (o : ConvertOptions)
    (logLevel : Option Text) : Except CommandError Settings := do
  let (s, _) ← effective w given
  o.apply logLevel s

/-- A conversion without settings writes nothing. -/
theorem convert_of_forConversion_error {r : CommandLine.Run} {a : CommandLine.Arguments}
    {o : ConvertOptions} {e : CommandError}
    (h : forConversion r.surroundings a.config o a.logLevel = .error e) (out : Output) :
    CommandLine.convert r a o out = (.error e, out) := by
  rw [forConversion] at h
  rw [CommandLine.convert]
  cases hs : effective r.surroundings a.config <;> simp_all [bind, Except.bind]

/-- **The settings of a conversion** are the merge of the command line, the environment, the file
and the standard settings, in this order.  They are there if and only if the merge is valid, and
already valid before the command line is looked at, and before the environment is. -/
theorem forConversion_eq_ok_iff (h : FileLayer w given file) (o : ConvertOptions)
    (logLevel : Option Text) (s : Settings) :
    let flags := Layer.ofOptions o logLevel
    let environment := Layer.ofEnvironment w.environment
    forConversion w given o logLevel = .ok s ↔
      s = Layer.merged (flags :: environment :: file.toList) standard ∧ s.validate = .ok () ∧
        (Layer.merged (environment :: file.toList) standard).validate = .ok () ∧
        ∀ l ∈ file, (Layer.merged [l] standard).validate = .ok () := by
  intro flags environment
  have step : forConversion w given o logLevel = .ok s ↔
      ∃ s₀, (∃ origin, effective w given = .ok (s₀, origin)) ∧ o.apply logLevel s₀ = .ok s := by
    simp only [forConversion, bind_eq_ok_iff, Prod.exists, exists_and_right]
  simp only [step, effective_eq_ok_iff h, apply_eq_ok_iff]
  rw [Layer.merged_cons flags]
  constructor
  · rintro ⟨_, ⟨rfl, lower, alone⟩, rfl, valid⟩
    exact ⟨rfl, valid, lower, alone⟩
  · rintro ⟨rfl, valid, lower, alone⟩
    exact ⟨_, ⟨rfl, lower, alone⟩, rfl, valid⟩

/-- A file, the environment and the command line each give a setting. -/
theorem forConversion_of_three_layers :
    let text : Text := "[codec]\nencoder = \"xml\"\n"
    let w : Surroundings :=
      ⟨fun p => if p = standardPath then .file (Utf8.encode text) else .missing,
        fun name => if name = "CEELOG_GENERAL_LOG_LEVEL" then some "warn" else none⟩
    forConversion w none { ConvertOptions.none with decoder := some "json" } none =
      .ok ⟨⟨"warn", "pretty"⟩, .standard, ⟨"json", "xml", none, none⟩⟩ := by
  intro text w
  have parsed : parse text = .ok ⟨⟨"info", "pretty"⟩, .standard, ⟨"int", "xml", none, none⟩⟩ :=
    toOption_eq_some_iff.mp (by decide +kernel)
  have path : pathToLoad w none = some standardPath := by decide +kernel
  have file : FileLayer w none (some (.ofDocument text)) :=
    .present path (toOption_eq_some_iff.mp (by decide +kernel)) parsed
  refine (forConversion_eq_ok_iff file _ _ _).mpr ⟨by decide +kernel,
    toOption_eq_some_iff.mp (by decide +kernel), toOption_eq_some_iff.mp (by decide +kernel),
    fun l hl => ?_⟩
  obtain rfl := Option.mem_some_iff.mp hl
  exact toOption_eq_some_iff.mp (by decide +kernel)

/-- A list of names that only the command line gives comes too late for a file that needs it. -/
theorem names_of_options_too_late :
    let text : Text := "[codec]\nencoder = \"csv\"\n"
    let w : Surroundings :=
      ⟨fun p => if p = standardPath then .file (Utf8.encode text) else .missing, fun _ => none⟩
    let o := { ConvertOptions.none with encoderFormat := some "a,b" }
    let merge := Layer.merged [.ofOptions o none, .ofEnvironment w.environment, .ofDocument text]
      standard
    FileLayer w none (some (.ofDocument text)) ∧ merge.validate = .ok () ∧
      ∀ s, forConversion w none o none ≠ .ok s := by
  intro text w o merge
  have parsed : parse text = .ok ⟨⟨"info", "pretty"⟩, .standard, ⟨"int", "csv", none, none⟩⟩ :=
    toOption_eq_some_iff.mp (by decide +kernel)
  have refused : (forConversion w none o none).toOption = none := by decide +kernel
  have path : pathToLoad w none = some standardPath := by decide +kernel
  refine ⟨.present path (toOption_eq_some_iff.mp (by decide +kernel)) parsed,
    toOption_eq_some_iff.mp (by decide +kernel), fun s hs => ?_⟩
  rw [hs] at refused
  cases refused

end EventLog.Settings
