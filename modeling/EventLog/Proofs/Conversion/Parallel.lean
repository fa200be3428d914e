import EventLog.Proofs.Conversion.Unbounded

/-!
# Writing in several formats at once

The encoder `all` writes each event in three formats.  It writes event by event what the three
encoders write that it stands for, and ends as each of them does (`Convert.run_all`): the events are
the same, and so is the result, whatever the format.
-/

namespace EventLog

/-- The settings with another encoder. -/
def Settings.encodedAs (s : Settings) (encoder : Text) : Settings :=
  { s with codec := { s.codec with encoder } }

namespace Convert

/-- The bytes of a text on a line of its own. -/
def lineOf (t : Text) : Bytes := Utf8.encode (t ++ "\n")

/-- What the encoder `all` writes of an event, out of its texts in three formats. -/
def allLines (syslog json xml : Text) : Bytes :=
  lineOf "" ++ lineOf ("syslog: " ++ syslog) ++ lineOf ("json..: " ++ json) ++
    lineOf ("xml...: " ++ xml)

/-- The encoders that `all` stands for need nothing besides their names. -/
theorem ofSettings_format {enc : Encoder} (h : enc ∈ [Encoder.syslog, .json, .xml])
    (names : CodecSettings) :
    Emitter.ofSettings { names with encoder := enc.format } = .ok (.single enc) := by
  simp only [List.mem_cons, List.not_mem_nil, or_false] at h
  obtain rfl | rfl | rfl := h <;> rfl

theorem bytes_all (flags : Flags) :
    Emitter.bytes flags .all = fun e =>
      allLines (Encoder.syslog.encode flags e) (Encoder.json.encode flags e)
        (Encoder.xml.encode flags e) := by
  funext e
  simp [Emitter.bytes, Emitter.all, Emitter.pieceText, allLines, lineOf]

/-- **All formats at once.**  The encoders that `all` stands for write texts of the same events, one
text for each event; `all` writes these texts event by event, and each conversion ends like the
others. -/
theorem run_all (s : Settings) (source : Source) :
    let converted := fun encoder => run (s.encodedAs encoder) source (.new none)
    let texts := fun enc : Encoder => (decoded s source).2.map (enc.encode s.context.flags)
    (∀ enc ∈ [Encoder.syslog, .json, .xml],
      (converted enc.format).written.output.written.toList = (texts enc).map lineOf ∧
        (converted enc.format).result = (converted "all").result) ∧
      (texts .syslog).length = (texts .json).length ∧
      (texts .json).length = (texts .xml).length ∧
      (converted "all").written.output.taken =
        ((texts .syslog).zip ((texts .json).zip (texts .xml))).flatMap
          (fun (syslog, json, xml) => allLines syslog json xml) ∧
      ∀ n, (converted "all").result = .ok n → n = (texts .syslog).length := by
  intro converted texts
  have selected : Emitter.ofSettings (s.encodedAs "all").codec = .ok .all := rfl
  obtain ⟨result, records⟩ := run_eq_decoded selected source
  refine ⟨fun enc henc => ?_, by simp [texts], by simp [texts], ?_, fun n hn => ?_⟩
  · obtain ⟨result', records'⟩ :=
      run_eq_decoded (s := s.encodedAs enc.format) (ofSettings_format henc s.codec) source
    refine ⟨?_, result'.trans result.symm⟩
    rw [records'.written, List.map_map, List.map_eq_flatMap]
    rfl
  · rw [records.taken, bytes_all]
    simp only [texts, List.zip_map', List.flatMap_map]
    rfl
  · have counted := length_of_decoded (result.symm.trans hn)
    rw [counted, List.length_map]
    rfl

end Convert

end EventLog
