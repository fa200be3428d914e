import EventLog.Proofs.Conversion.Written
import EventLog.Proofs.Encoding.Absent
import EventLog.Proofs.Encoding.Shown
import EventLog.Proofs.Text.Utf8
import Mathlib.Algebra.GroupWithZero.Nat

/-!
# The lines of a conversion

An encoder that writes one line for each event must keep line feeds out of it.  Three escape them
wherever they write a text of the event; `xml` writes them as they are.

* `count_encode`: how many line feeds an encoder leaves in an event (`Encoder.innerLineFeeds`).
* `pieces_lines_eq_iff`: encodings with a line feed behind each are read back as lines if and only
  if none of them has one inside.
* `lines_of_run`: this is what a conversion with a single encoder writes of its events, and it has
  no other line feeds than the inner ones and one for each event.
-/

namespace EventLog

/-! ### Escapes -/

namespace Escape

theorem lineFeed_notMem_quoted (t : Text) : '\n' ∉ quoted t := by
  have control : ∀ n < 0x20, '\n' ∉ (Text.hexByte n).map Char.toUpper := by decide
  have char (c : Char) : '\n' ∉ quotedChar c := by
    fun_cases quotedChar c with
    | case1 | case2 | case3 | case4 | case5 | case6 | case7 | case8 => decide
    | case9 =>
        rw [if_pos ‹_›]
        simpa using control _ ‹_›
    | case10 =>
        rw [if_neg ‹_›]
        simp_all [eq_comm]
  simp [quoted, char]

/-- Element text keeps its line feeds. -/
theorem count_markup (t : Text) : (markup t).count '\n' = t.count '\n' :=
  Utf8.count_flatMap_of_char (fun c => by fun_cases markupChar c <;> rfl) t

end Escape

/-! ### Encoders -/

namespace Layout

theorem lineFeed_notMem_jsonObject (flags : Flags) (e : Event) :
    '\n' ∉ jsonObject.render flags e := by
  have string (t : Text) : '\n' ∉ jsonString t := by
    simp [jsonString, Escape.lineFeed_notMem_quoted t]
  have array (ts : List Text) : '\n' ∉ jsonArray ts := by
    simp [jsonArray, notMem_commaList_map (by decide) string ts]
  have texts (ts : List Text) : '\n' ∉ jsonTexts ts := by
    fun_cases jsonTexts ts with
    | case1 => exact string []
    | case2 t => exact string t
    | case3 => exact array ts
  have colon : ∀ compact, '\n' ∉ jsonColon compact := by decide
  refine notMem_render (by decide) (fun compact ts hts => ?_) (fun tags => ?_)
    (fun compact f => ?_) flags e
  · exact notMem_intercalate (by cases compact <;> decide) hts
  · simp [jsonObject, string, colon, array]
  · simp [jsonObject, string, colon, texts]

/-! #### Element text -/

theorem count_element {name : Text} (hname : '\n' ∉ name) (content : Text) :
    (element name content).count '\n' = content.count '\n' := by
  simp [element, List.count_eq_zero.mpr hname]

theorem count_elements {name : Text} (hname : '\n' ∉ name) (ts : List Text) :
    (elements name ts).count '\n' = ts.flatten.count '\n' := by
  induction ts with
  | nil => rfl
  | cons t ts ih =>
      rw [elements, List.flatMap_cons, List.count_append, ← elements, ih, count_element hname,
        Escape.count_markup, List.flatten_cons, List.count_append]

/-- The texts of an event that its element shows, one right behind the other. -/
def shownText (flags : Flags) (e : Event) : Text :=
  (e.tags.getD []).flatten ++
    (e.shownFields flags).flatMap fun f => f.label ++ f.text

theorem count_tagsEntry (tags : List Text) :
    (xmlElement.tagsEntry tags).count '\n' = tags.flatten.count '\n' :=
  (count_element (by decide) _).trans (count_elements (by decide) tags)

theorem count_fieldEntry (compact : Bool) (f : Field) :
    (xmlElement.fieldEntry compact f).count '\n' = (f.label ++ f.text).count '\n' := by
  have start : "<Field name =\"".toList.count '\n' = 0 := by decide
  have middle : "\">".toList.count '\n' = 0 := by decide
  have stop : "</Field>".toList.count '\n' = 0 := by decide
  have values : (elements "value" f.texts).count '\n' = f.text.count '\n' :=
    count_elements (by decide) f.texts
  show ("<Field name =\"".toList ++ Escape.markup f.label ++ "\">".toList ++
    elements "value" f.texts ++ "</Field>".toList).count '\n' = _
  simp only [List.count_append, start, middle, stop, values, Escape.count_markup, Nat.zero_add,
    Nat.add_zero]

/-- The line feeds of an element are those of the texts it shows. -/
theorem count_xmlElement (flags : Flags) (e : Event) :
    (xmlElement.render flags e).count '\n' = (shownText flags e).count '\n' := by
  have opening : xmlElement.opening.count '\n' = 0 := by decide
  have closing : xmlElement.closing.count '\n' = 0 := by decide
  have arrange (compact : Bool) (ts : List Text) : xmlElement.arrange compact ts = ts.flatten := rfl
  have tags : ((e.tags.filter fun _ => xmlElement.wantsTags flags).map
      xmlElement.tagsEntry).toList.flatten.count '\n' = (e.tags.getD []).flatten.count '\n' := by
    cases e.tags with
    | none => rfl
    | some ts =>
        show (xmlElement.tagsEntry ts ++ []).count '\n' = ts.flatten.count '\n'
        rw [List.append_nil, count_tagsEntry]
  have fields (fs : List Field) :
      (fs.map (xmlElement.fieldEntry flags.ultraCompact)).flatten.count '\n' =
        (fs.flatMap fun f => f.label ++ f.text).count '\n' := by
    induction fs with
    | nil => rfl
    | cons f fs ih =>
        simp only [List.map_cons, List.flatten_cons, List.flatMap_cons, List.count_append,
          count_fieldEntry, ih]
  rw [render, List.count_append, List.count_append, opening, closing, arrange, entries,
    keptFields_eq_shownFields, List.flatten_append, List.count_append, tags, fields, shownText,
    List.count_append, Nat.zero_add, Nat.add_zero]

end Layout

namespace Encoder

theorem lineFeed_notMem_row (columns : NameList) (e : Event) : '\n' ∉ row columns e := by
  have cells (ts : List Text) : '\n' ∉ cellTexts ts := by
    fun_cases cellTexts ts with
    | case1 => decide
    | case2 t => exact Escape.lineFeed_notMem_quoted t
    | case3 =>
        simp [notMem_commaList_map (by decide) Escape.lineFeed_notMem_quoted]
  exact notMem_commaList_map (by decide) (fun column => by simp [cell, cells]) columns.names

/-- The number of line feeds that an encoder leaves in an event. -/
def innerLineFeeds (flags : Flags) (e : Event) : Encoder → Nat
  | xml => (Layout.shownText flags e).count '\n'
  | _   => 0

theorem count_encode (flags : Flags) (e : Event) (enc : Encoder) :
    (enc.encode flags e).count '\n' = enc.innerLineFeeds flags e := by
  cases enc with
  | syslog => exact List.count_eq_zero.mpr (Layout.notMem_structuredData (.inl rfl) flags e)
  | json => exact List.count_eq_zero.mpr (Layout.lineFeed_notMem_jsonObject flags e)
  | xml => exact Layout.count_xmlElement flags e
  | csv columns => exact List.count_eq_zero.mpr (lineFeed_notMem_row columns e)

/-! #### Lines of several events -/

variable (flags : Flags) (enc : Encoder) (es : List Event)

/-- The bytes of the encodings of events. -/
def encodings : List Bytes := es.map fun e => Utf8.encode (enc.encode flags e)

/-- The encodings of events, with a line feed behind each. -/
def lines : Bytes := (enc.encodings flags es).flatMap fun line => line ++ [0x0A]

theorem count_utf8_encode (e : Event) :
    (Utf8.encode (enc.encode flags e)).count 0x0A = enc.innerLineFeeds flags e :=
  (Utf8.count_encode (a := '\n') (by decide) _).trans (enc.count_encode flags e)

theorem count_lines :
    (enc.lines flags es).count 0x0A =
      es.length + (es.map fun e => enc.innerLineFeeds flags e).sum := by
  induction es with
  | nil => rfl
  | cons e es ih =>
      rw [lines, encodings] at ih
      rw [lines, encodings, List.map_cons, List.flatMap_cons, List.count_append,
        List.count_append, count_utf8_encode, ih, List.map_cons, List.sum_cons, List.length_cons,
        List.count_singleton_self]
      omega

/-- The lines are the encodings if and only if none of these has a line feed inside. -/
theorem pieces_lines_eq_iff :
    pieces Lines.isLineFeed (enc.lines flags es) = enc.encodings flags es ++ [[]] ↔
      ∀ e ∈ es, enc.innerLineFeeds flags e = 0 := by
  constructor
  · -- There are no more pieces than encodings, and so no more line feeds than events.
    intro hp e he
    have separators := congrArg List.length hp
    have count : (enc.lines flags es).countP Lines.isLineFeed =
        es.length + (es.map fun e => enc.innerLineFeeds flags e).sum :=
      enc.count_lines flags es
    rw [length_pieces, count, encodings, List.length_append, List.length_map,
      List.length_singleton] at separators
    have none : (es.map fun e => enc.innerLineFeeds flags e).sum = 0 := by omega
    exact List.sum_eq_zero_iff_forall_eq_nat.mp none _ (List.mem_map_of_mem he)
  · intro none
    refine pieces_flatMap_concat _ rfl fun line hline b hb => ?_
    obtain ⟨e, he, rfl⟩ := List.mem_map.mp hline
    have zero : (Utf8.encode (enc.encode flags e)).count 0x0A = 0 := by
      rw [count_utf8_encode, none e he]
    have : b ≠ 0x0A := fun h => List.count_eq_zero.mp zero (h ▸ hb)
    simpa [Lines.isLineFeed] using this

end Encoder

/-! ### Main statement -/

namespace Emitter

theorem flatMap_bytes_single (flags : Flags) (enc : Encoder) (es : List Event) :
    es.flatMap (bytes flags (single enc)) = enc.lines flags es := by
  have lineFeed : String.utf8EncodeChar '\n' = [0x0A] := rfl
  have one (e : Event) :
      bytes flags (single enc) e = Utf8.encode (enc.encode flags e) ++ [0x0A] := by
    simp [bytes, single, pieceText, lineFeed]
  rw [Encoder.lines, Encoder.encodings, List.flatMap_map, funext one]

theorem ofSettings_single {s : CodecSettings} {ps : Emitter} (single : s.encoder ≠ "all")
    (h : ofSettings s = .ok ps) :
    ∃ enc, Encoder.select s.encoder s.encoderFormat = .ok enc ∧ ps = .single enc := by
  rw [ofSettings, if_neg single] at h
  cases hs : Encoder.select s.encoder s.encoderFormat with
  | error c => simp [hs, Except.map] at h
  | ok enc =>
      rw [hs] at h
      cases h
      exact ⟨enc, rfl, rfl⟩

end Emitter

/-- **The lines of a conversion.**  What a conversion with a single encoder writes is the encodings
of its events with a line feed behind each.  It has a line feed for each event and the ones that the
encoder leaves inside; the lines are the encodings, one for each event, if there are none of these,
and only then. -/
theorem Convert.lines_of_run {s : Settings} {source : Source} {output : Output} {n : Nat}
    (single : s.codec.encoder ≠ "all") (h : (run s source output).result = .ok n) :
    ∃ d enc, Decoder.select s.codec.decoder s.codec.decoderFormat = .ok d ∧
      Encoder.select s.codec.encoder s.codec.encoderFormat = .ok enc ∧
      let events := d.offered (sourceFor s.codec.decoder source)
      let written := enc.lines s.context.flags events
      n = events.length ∧
        (run s source output).written.output.taken = output.taken ++ written ∧
        written.count 0x0A =
          n + (events.map fun e => enc.innerLineFeeds s.context.flags e).sum ∧
        (pieces Lines.isLineFeed written = enc.encodings s.context.flags events ++ [[]] ↔
          ∀ e ∈ events, enc.innerLineFeeds s.context.flags e = 0) := by
  obtain ⟨d, ps, hd, hps, hlen, htaken⟩ := run_ok h
  obtain ⟨enc, henc, rfl⟩ := Emitter.ofSettings_single single hps
  rw [Emitter.flatMap_bytes_single] at htaken
  exact ⟨d, enc, hd, henc, hlen, htaken, hlen ▸ enc.count_lines _ _, enc.pieces_lines_eq_iff _ _⟩

/-- An event whose value has a line feed is one line of JSON. -/
theorem Convert.lines_of_run_json :
    let s : Settings := { Settings.standard with codec := ⟨"int", "json", none, none⟩ }
    let source := Source.ofLines ["e:", "f:a", "v:x\\ny"]
    (run s source (.new none)).result = .ok 1 ∧
      (run s source (.new none)).written.output.taken.count 0x0A = 1 := by
  intro s source
  have one : (run s source (.new none)).result = .ok 1 := rfl
  obtain ⟨d, enc, -, henc, -, htaken, count, -⟩ := lines_of_run (by decide) one
  obtain rfl : Encoder.json = enc := Except.ok.inj henc
  have inner (es : List Event) :
      (es.map fun e => Encoder.json.innerLineFeeds s.context.flags e).sum = 0 := by
    refine List.sum_eq_zero_iff_forall_eq_nat.mpr fun k hk => ?_
    obtain ⟨e, -, rfl⟩ := List.mem_map.mp hk
    rfl
  rw [inner] at count
  exact ⟨one, by rw [htaken]; exact count⟩

/-- In XML it is two. -/
theorem Convert.xml_value_of_two_lines :
    let s : Settings := { Settings.standard with codec := ⟨"int", "xml", none, none⟩ }
    let source := Source.ofLines ["e:", "f:a", "v:x\\ny"]
    s.validate = .ok () ∧ (run s source (.new none)).result = .ok 1 ∧
      (run s source (.new none)).written.output.taken =
        Utf8.encode "<event><Field name =\"a\"><value>x\ny</value></Field></event>\n" ∧
      (run s source (.new none)).written.output.taken.count 0x0A = 2 := by
  intro s source
  exact ⟨rfl, rfl, by decide +kernel, by decide +kernel⟩

end EventLog
