import EventLog.Proofs.Decoding.LineGrammar
import EventLog.Proofs.Text.Backslash
import EventLog.Proofs.Text.Lines

/-!
# Writing the internal format

An event is written as a line that begins it, a line for each of its fields and behind that a line
for each value (`Internal.linesOf`).  A transcript has the lines of several events, with escapes in
place of backslashes and of the characters that end lines.

* `Reads`: how lines that are read lead from what is under way to what is under way behind them, and
  which events they complete.
* `run_transcript`: the bytes of a transcript, whatever ends each of its lines, are read back as the
  events, if these are of the form that the format has room for (`Portable`).
-/

namespace EventLog

/-! ### Lines that are read -/

/-- Lines are read one after the other and complete some events. -/
inductive Decoder.Reads (d : Decoder) :
    Internal.Open → List Text → List Event → Internal.Open → Prop where
  | nil {o : Internal.Open} : Reads d o [] [] o
  | cons {o o' o'' : Internal.Open} {line : Text} {lines : List Text} {e : Option Event}
      {es : List Event} (read : d.step o line = .ok (e, o')) (further : Reads d o' lines es o'') :
      Reads d o (line :: lines) (e.toList ++ es) o''

namespace Decoder.Reads

variable {d : Decoder} {o o' o'' : Internal.Open} {line : Text} {lines lines' : List Text}
  {es es' : List Event}

theorem append (h : d.Reads o lines es o') (h' : d.Reads o' lines' es' o'') :
    d.Reads o (lines ++ lines') (es ++ es') o'' := by
  induction h with
  | nil => exact h'
  | cons read _ ih =>
      rw [List.cons_append, List.append_assoc]
      exact .cons read (ih h')

theorem openedFrom (h : d.Reads o lines es o') : d.openedFrom o lines = .ok o' := by
  induction h with
  | nil => rfl
  | cons read _ ih => rw [openedFrom_cons, read, ← ih]

theorem completedFrom (h : d.Reads o lines es o') : d.completedFrom o lines = es := by
  induction h with
  | nil => rfl
  | cons read _ ih => simp only [Decoder.completedFrom, read, ih]

end Decoder.Reads

namespace Internal

/-! ### Events as lines -/

/-- The lines of a field. -/
def fieldLines (f : Field) : List Text :=
  (LineKind.field.letter :: ':' :: f.label) ::
    f.texts.map fun t => LineKind.value.letter :: ':' :: t

/-- The lines of an event. -/
def linesOf (e : Event) : List Text :=
  (LineKind.event.letter :: ':' :: []) :: e.fields.flatMap fieldLines

/-- The lines of events, as they are written. -/
def transcript (es : List Event) : List Text := (es.flatMap linesOf).map Backslash.escape

/-- A field with a name and with texts as its values, no more than there is room for. -/
def PortableField (f : Field) : Prop :=
  ∃ (name : Text) (ts : List Text), f = ⟨some name, ts.map .string⟩ ∧ ts.length ≤ Field.maxValues

/-- An event without tags whose fields are all of this form. -/
structure Portable (e : Event) : Prop where
  tags : e.tags = none
  fields : ∀ f ∈ e.fields, PortableField f

/-! ### Reading them -/

/-- The lines of values fill the field that is open. -/
theorem reads_values (e : Event) (name : Text) :
    ∀ (ts : List Text) (vs : List Value), vs.length + ts.length ≤ Field.maxValues →
      Decoder.internal.Reads (.field e ⟨some name, vs⟩)
        (ts.map fun t => LineKind.value.letter :: ':' :: t) []
        (.field e ⟨some name, vs ++ ts.map .string⟩)
  | [], vs, _ => by
      simp only [List.map_nil, List.append_nil]
      exact .nil
  | t :: ts, vs, h => by
      rw [List.length_cons] at h
      have added : Field.add ⟨some name, vs⟩ (.string t) = .ok ⟨some name, vs ++ [.string t]⟩ :=
        Field.add_eq_ok_iff.mpr ⟨show vs.length < _ by omega, rfl⟩
      have read : Decoder.internal.step (.field e ⟨some name, vs⟩)
          (LineKind.value.letter :: ':' :: t) =
            .ok (none, .field e ⟨some name, vs ++ [.string t]⟩) := by
        rw [step_letter, step, added]
        rfl
      have further := reads_values e name ts (vs ++ [.string t])
        (by rw [List.length_append, List.length_singleton]; omega)
      rw [List.append_assoc] at further
      exact .cons read further

/-- The lines of a field complete the one before it, and leave it open. -/
theorem reads_field {o : Open} {e : Event} (ho : o.event? = some e) {f : Field}
    (hf : PortableField f) : Decoder.internal.Reads o (fieldLines f) [] (.field e f) := by
  obtain ⟨name, ts, rfl, room⟩ := hf
  have read : Decoder.internal.step o (LineKind.field.letter :: ':' :: name) =
      .ok (none, .field e (.named name)) := by
    rw [step_letter, step, ho]
  have values := reads_values e name ts [] (by simpa using room)
  rw [fieldLines, Field.texts_map_string]
  exact .cons read values

theorem reads_fields {fs : List Field} (hfs : ∀ f ∈ fs, PortableField f) :
    ∀ {o : Open} {e : Event}, o.event? = some e →
      ∃ o', Decoder.internal.Reads o (fs.flatMap fieldLines) [] o' ∧
        o'.event? = some { e with fields := e.fields ++ fs } := by
  induction fs with
  | nil =>
      intro o e ho
      exact ⟨o, .nil, by rw [ho, List.append_nil]⟩
  | cons f fs ih =>
      intro o e ho
      rw [List.forall_mem_cons] at hfs
      obtain ⟨o', further, ho'⟩ := ih hfs.2 (o := .field e f) rfl
      refine ⟨o', (reads_field ho hfs.1).append further, ?_⟩
      simpa [Event.addField] using ho'

/-- The lines of an event complete the one before it, and leave it under way. -/
theorem reads_event (o : Open) {e : Event} (he : Portable e) :
    ∃ o', Decoder.internal.Reads o (linesOf e) o.event?.toList o' ∧ o'.event? = some e := by
  have read : Decoder.internal.step o (LineKind.event.letter :: ':' :: []) =
      .ok (o.event?, .event .empty) := by
    rw [step_letter, step]
  obtain ⟨o', further, ho'⟩ := reads_fields he.fields (o := .event .empty) rfl
  refine ⟨o', ?_, ?_⟩
  · have lines := Decoder.Reads.cons read further
    rwa [List.append_nil] at lines
  · obtain ⟨tags, fields⟩ := e
    obtain rfl : tags = none := he.tags
    exact ho'

/-- The lines of events complete all of them but the last, which they leave under way. -/
theorem reads_events {es : List Event} (hes : ∀ e ∈ es, Portable e) :
    ∀ o : Open, ∃ done o', Decoder.internal.Reads o (es.flatMap linesOf) done o' ∧
      done ++ o'.event?.toList = o.event?.toList ++ es := by
  induction es with
  | nil => exact fun o => ⟨[], o, .nil, by rw [List.append_nil, List.nil_append]⟩
  | cons e es ih =>
      intro o
      rw [List.forall_mem_cons] at hes
      -- The line that begins an event completes the one before it.
      obtain ⟨o', first, ho'⟩ := reads_event o hes.1
      obtain ⟨done, o'', others, hall⟩ := ih hes.2 o'
      refine ⟨o.event?.toList ++ done, o'', first.append others, ?_⟩
      rw [List.append_assoc, hall, ho', Option.toList_some, List.singleton_append]

/-- A transcript is a source of the lines of its events, whatever ends each line. -/
theorem ofBytes_transcript {es : List Event} {ls : List (Text × LineEnd)}
    (hls : ls.map Prod.fst = transcript es) :
    (Source.ofBytes (Lines.joined ls) none).unescape = .ofLines (es.flatMap linesOf) := by
  have single : ∀ l ∈ ls, Lines.Single l.1 := by
    intro l hl
    have written : l.1 ∈ transcript es := hls ▸ List.mem_map_of_mem hl
    obtain ⟨line, -, hline⟩ := List.mem_map.mp written
    obtain ⟨lineFeed, carriageReturn⟩ := Backslash.lineEnds_notMem_escape line
    rw [← hline]
    exact ⟨lineFeed, fun last => carriageReturn (List.mem_of_getLast? last)⟩
  rw [Source.ofBytes_joined single, hls, transcript, Source.unescape, Source.ofLines,
    Source.ofLines, List.map_map, List.map_map]
  exact List.map_congr_left fun line _ => congrArg Except.ok (Backslash.unescape_escape line)

/-! ### Main statement -/

/-- **A transcript is read back as its events**, by a run into any sink that never fails. -/
theorem run_transcript {σ : Type} {sink : Sink σ} (ht : sink.Tireless) (s : σ) {es : List Event}
    (hes : ∀ e ∈ es, Portable e) {ls : List (Text × LineEnd)}
    (hls : ls.map Prod.fst = transcript es) :
    let out := Decoder.internal.run sink s (Source.ofBytes (Lines.joined ls) none).unescape
    out.result = .ok es.length ∧ out.state = sink.feed s es := by
  obtain ⟨done, o, reads, hall⟩ := reads_events hes .nothing
  have delivered := Decoder.run_opened ht s reads.openedFrom
  rw [show Decoder.internal.completed _ = done from reads.completedFrom, hall] at delivered
  rw [ofBytes_transcript hls]
  exact delivered

/-- Texts that end lines, or look as if they held an escape, come back as they are. -/
theorem run_transcript_escapes :
    let es : List Event :=
      [⟨none, [⟨some "a\\", [.string "x\r\n", .string "\\n"]⟩, ⟨some "", []⟩]⟩, ⟨none, []⟩]
    let ls : List (Text × LineEnd) :=
      [("e:".toList, .lineFeed), ("f:a\\\\".toList, .returnLineFeed),
        ("v:x\\r\\n".toList, .lineFeed), ("v:\\\\n".toList, .returnLineFeed),
        ("f:".toList, .lineFeed), ("e:".toList, .returnLineFeed)]
    let source := (Source.ofBytes (Lines.joined ls) none).unescape
    Sink.recorder.Tireless ∧ (∀ e ∈ es, Portable e) ∧ ls.map Prod.fst = transcript es ∧
      (Decoder.internal.run Sink.recorder [] source).state = es := by
  intro es ls source
  have tireless : Sink.recorder.Tireless := fun _ _ => rfl
  have portable : ∀ e ∈ es, Portable e := by
    have field (name : Text) (ts : List Text) (h : ts.length ≤ Field.maxValues) :
        PortableField ⟨some name, ts.map .string⟩ := ⟨name, ts, rfl, h⟩
    rw [List.forall_mem_cons, List.forall_mem_singleton]
    refine ⟨⟨rfl, ?_⟩, ⟨rfl, by simp⟩⟩
    rw [List.forall_mem_cons, List.forall_mem_singleton]
    exact ⟨field "a\\" ["x\r\n", "\\n"] (by decide), field "" [] (by decide)⟩
  have written : ls.map Prod.fst = transcript es := by decide
  exact ⟨tireless, portable, written, (run_transcript tireless [] portable written).2⟩

end Internal

end EventLog
