import EventLog.Convert
import EventLog.Proofs.NameList

/-!
# Valid settings and conversions

`Settings.validate` looks at the names of the two codecs and at whether they are given the lists of
names that they need, but not into these lists.

* `validate_eq_ok_iff`: what valid settings are, setting by setting.
* `codecs_of_validate`: under valid settings both codecs are there, and a conversion begins, if and
  only if the lists that are needed can be read; otherwise it ends with the fault of such a list.
-/

namespace EventLog

namespace Settings

/-- Settings that can be used. -/
structure Usable (s : Settings) : Prop where
  logLevel : s.general.logLevel ∈ logLevels
  logFormat : s.general.logFormat ∈ logFormats
  fieldBucketSize : 0 < s.context.fieldBucketSize
  tagBucketSize : 0 < s.context.tagBucketSize
  decoder : s.codec.decoder ∈ decoders
  encoder : s.codec.encoder ∈ encoders
  decoderFormat : s.codec.decoder = "apache".toList → s.codec.decoderFormat.isSome
  encoderFormat : s.codec.encoder = "csv".toList → s.codec.encoderFormat.isSome

theorem validate_eq_ok_iff {s : Settings} : s.validate = .ok () ↔ s.Usable := by
  have met : s.validate = .ok () ↔ ∀ r ∈ s.requirements, r.1 = true := by
    have none : s.validate = .ok () ↔ s.requirements.find? (fun r => !r.1) = none := by
      rw [validate]
      split <;> simp [*]
    simpa using none
  rw [met]
  simp only [requirements, List.forall_mem_cons, decide_eq_true_eq]
  constructor
  · rintro ⟨level, form, fields, tags, decoder, encoder, columns, cells, -⟩
    exact ⟨level, form, fields, tags, decoder, encoder,
      fun h => columns.resolve_left fun hn => hn h, fun h => cells.resolve_left fun hn => hn h⟩
  · rintro ⟨level, form, fields, tags, decoder, encoder, columns, cells⟩
    exact ⟨level, form, fields, tags, decoder, encoder, Decidable.not_or_of_imp columns,
      Decidable.not_or_of_imp cells, by simp⟩

end Settings

/-! ### Choosing a codec by its name -/

/-- The fault of a list of names that is needed: it is not tight, and the first position where a
name is missing is told with the list. -/
def ListFault (needed : Prop) (list : Option Text) (e : CodecError) : Prop :=
  needed ∧ ∃ l n, list = some l ∧ ¬ NameList.Tight l ∧
    IsLeast {k | NameList.EmptyNameAt l k} n ∧ e = .nameList l (.emptyName n)

namespace ListFault

variable {needed : Prop} {list : Option Text} {e e' : CodecError}

theorem unreadable (h : ListFault needed list e) :
    ¬ (needed → ∀ l ∈ list, NameList.Tight l) := by
  obtain ⟨need, l, -, given, loose, -⟩ := h
  exact fun readable => loose (readable need l given)

/-- A list has one fault at most. -/
theorem unique (h : ListFault needed list e) (h' : ListFault needed list e') : e = e' := by
  obtain ⟨-, l, n, hl, -, least, rfl⟩ := h
  obtain ⟨-, l', n', hl', -, least', rfl⟩ := h'
  obtain rfl : l = l' := Option.some.inj (hl.symm.trans hl')
  rw [least.unique least']

end ListFault

/-- What a name gives that may need a list of names: a codec, or the fault of the list. -/
inductive CodecChoice {α : Type} (needed : Prop) (list : Option Text) : Except CodecError α → Prop
  | chosen {a : α} (readable : needed → ∀ l ∈ list, NameList.Tight l) :
      CodecChoice needed list (.ok a)
  | faulty {e : CodecError} (fault : ListFault needed list e) : CodecChoice needed list (.error e)

namespace CodecChoice

variable {α : Type} {needed : Prop} {list : Option Text} {r : Except CodecError α}

theorem exists_ok_iff (h : CodecChoice needed list r) :
    (∃ a, r = .ok a) ↔ (needed → ∀ l ∈ list, NameList.Tight l) := by
  cases h with
  | chosen readable => exact iff_of_true ⟨_, rfl⟩ readable
  | faulty fault => exact iff_of_false (by simp) fault.unreadable

theorem eq_error_iff (h : CodecChoice needed list r) {e : CodecError} :
    r = .error e ↔ ListFault needed list e := by
  cases h with
  | chosen readable => exact iff_of_false (by simp) fun fault => fault.unreadable readable
  | faulty fault =>
      rw [Except.error.injEq]
      constructor
      · rintro rfl
        exact fault
      · exact fault.unique

/-- A codec that needs no list. -/
theorem of_not_needed (h : ¬ needed) (a : α) : CodecChoice needed list (.ok a) :=
  .chosen fun hn => absurd hn h

/-- A codec that is made of its list. -/
theorem of_parse {l : Text} (need : needed) (make : NameList → α) :
    CodecChoice needed (some l) ((NameList.parse l).map make) := by
  cases hl : NameList.parse l with
  | ok names =>
      exact .chosen fun _ l' hl' => Option.some.inj hl' ▸ NameList.parse_isOk_iff.mp ⟨names, hl⟩
  | error e =>
      obtain ⟨n, least, he⟩ := NameList.parse_eq_error_iff.mp hl
      exact .faulty ⟨need, l, n, rfl, NameList.not_tight_of_error hl, least, he⟩

variable {name : Text}

theorem decoder (hname : name ∈ Settings.decoders)
    (hlist : name = "apache".toList → list.isSome) :
    CodecChoice (name = "apache".toList) list (Decoder.select name list) := by
  simp only [Settings.decoders, List.mem_cons, List.not_mem_nil, or_false] at hname
  rcases hname with rfl | rfl | rfl
  · exact of_not_needed (by decide) Decoder.internal
  · obtain ⟨l, rfl⟩ := Option.isSome_iff_exists.mp (hlist rfl)
    exact of_parse rfl Decoder.apache
  · exact of_not_needed (by decide) Decoder.json

theorem emitter {codec : CodecSettings} (hname : codec.encoder ∈ Settings.encoders)
    (hlist : codec.encoder = "csv".toList → codec.encoderFormat.isSome) :
    CodecChoice (codec.encoder = "csv".toList) codec.encoderFormat (Emitter.ofSettings codec) := by
  obtain ⟨decoder, encoder, columns, list⟩ := codec
  simp only [Settings.encoders, List.mem_cons, List.not_mem_nil, or_false] at hname hlist ⊢
  rcases hname with rfl | rfl | rfl | rfl | rfl
  · exact of_not_needed (by decide) (Emitter.single .syslog)
  · exact of_not_needed (by decide) (Emitter.single .json)
  · exact of_not_needed (by decide) (Emitter.single .xml)
  · obtain ⟨l, rfl⟩ := Option.isSome_iff_exists.mp (hlist rfl)
    have made : Emitter.ofSettings ⟨decoder, "csv".toList, columns, some l⟩ =
        (NameList.parse l).map (Emitter.single ∘ Encoder.csv) := by
      show ((NameList.parse l).map Encoder.csv).map Emitter.single = _
      cases NameList.parse l <;> rfl
    rw [made]
    exact of_parse rfl _
  · exact of_not_needed (by decide) Emitter.all

end CodecChoice

/-- A conversion ends with the fault of a codec that is not there. -/
theorem Convert.run_eq_codec_error_iff {s : Settings} {source : Source} {output : Output}
    {e : CodecError} :
    (run s source output).result = .error (.codec e) ↔
      Decoder.select s.codec.decoder s.codec.decoderFormat = .error e ∨
        (∃ d, Decoder.select s.codec.decoder s.codec.decoderFormat = .ok d) ∧
          Emitter.ofSettings s.codec = .error e := by
  rw [run]
  cases Decoder.select s.codec.decoder s.codec.decoderFormat with
  | error e' => simp
  | ok d =>
      cases Emitter.ofSettings s.codec with
      | error e' => simp
      | ok m =>
          -- An error of the decoding is no error of a codec.
          have decoding : ∀ r : Except EventError Nat,
              r.mapError CommandError.decode ≠ .error (.codec e) := by
            rintro (_ | _) <;> nofun
          simp [decoding]

/-! ### Main statement -/

/-- **Under valid settings a codec is there** if and only if it needs no list of names or its list
can be read.  A conversion ends with the fault of a codec if and only if one is not there, and the
fault is that of the list it needs, the decoder's before the encoder's. -/
theorem codecs_of_validate {s : Settings} (h : s.validate = .ok ()) :
    let decoderReadable :=
      s.codec.decoder = "apache".toList → ∀ l ∈ s.codec.decoderFormat, NameList.Tight l
    let encoderReadable :=
      s.codec.encoder = "csv".toList → ∀ l ∈ s.codec.encoderFormat, NameList.Tight l
    ((∃ d, Decoder.select s.codec.decoder s.codec.decoderFormat = .ok d) ↔ decoderReadable) ∧
      ((∃ m, Emitter.ofSettings s.codec = .ok m) ↔ encoderReadable) ∧
      ∀ source output,
        ((∃ e, (Convert.run s source output).result = .error (.codec e)) ↔
          ¬ (decoderReadable ∧ encoderReadable)) ∧
        ∀ e, (Convert.run s source output).result = .error (.codec e) ↔
          ListFault (s.codec.decoder = "apache".toList) s.codec.decoderFormat e ∨
            decoderReadable ∧
              ListFault (s.codec.encoder = "csv".toList) s.codec.encoderFormat e := by
  intro decoderReadable encoderReadable
  have usable := Settings.validate_eq_ok_iff.mp h
  have decoder := CodecChoice.decoder usable.decoder usable.decoderFormat
  have emitter := CodecChoice.emitter usable.encoder usable.encoderFormat
  refine ⟨decoder.exists_ok_iff, emitter.exists_ok_iff, fun source output => ?_⟩
  simp only [Convert.run_eq_codec_error_iff]
  refine ⟨?_, ?_⟩
  · rw [← show _ ↔ decoderReadable from decoder.exists_ok_iff,
      ← show _ ↔ encoderReadable from emitter.exists_ok_iff]
    cases Decoder.select s.codec.decoder s.codec.decoderFormat <;>
      cases Emitter.ofSettings s.codec <;> simp
  · intro e
    rw [decoder.exists_ok_iff, decoder.eq_error_iff, emitter.eq_error_iff]

theorem codecs_of_validate_columns :
    let s : Settings :=
      { Settings.standard with codec := ⟨"apache", "csv", some "host user,", some ""⟩ }
    s.validate = .ok () ∧ (∃ d, Decoder.select s.codec.decoder s.codec.decoderFormat = .ok d) ∧
      (∃ m, Emitter.ofSettings s.codec = .ok m) ∧
      ∀ e, (Convert.run s [] (.new none)).result ≠ .error (.codec e) := by
  intro s
  have h : s.validate = .ok () := by decide
  have decoderReadable : ∀ l ∈ s.codec.decoderFormat, NameList.Tight l := by decide
  have encoderReadable : ∀ l ∈ s.codec.encoderFormat, NameList.Tight l := by decide
  obtain ⟨hd, hm, hrun⟩ := codecs_of_validate h
  refine ⟨h, hd.mpr fun _ => decoderReadable, hm.mpr fun _ => encoderReadable, fun e he => ?_⟩
  exact (hrun [] (.new none)).1.mp ⟨e, he⟩ ⟨fun _ => decoderReadable, fun _ => encoderReadable⟩

/-- Valid settings may have a list of names that cannot be read. -/
theorem valid_list_unreadable :
    let s : Settings := { Settings.standard with codec := ⟨"int", "csv", none, some "a,,b"⟩ }
    let fault : CodecError := .nameList "a,,b" (.emptyName 2)
    s.validate = .ok () ∧ Emitter.ofSettings s.codec = .error fault ∧
      (Convert.run s [] (.new none)).result = .error (.codec fault) :=
  ⟨rfl, rfl, rfl⟩

end EventLog
