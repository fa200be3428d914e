import EventLog.Proofs.Conversion.Unbounded
import EventLog.Proofs.Decoding.Seam
import EventLog.Proofs.Text.Lines

/-!
# Inputs put behind inputs

An input may be cut where an event begins, behind a line feed.  The part in front of the cut and the
part behind it, each converted on its own, write what the whole input writes
(`Convert.run_of_joined`).  The conversion of the whole counts the events of both parts, and an
error behind the cut has the number of its line in the whole.
-/

namespace EventLog

/-- An error of a line that has `k` lines more before it. -/
def CommandError.behind (k : Nat) : CommandError → CommandError
  | .decode c => .decode (c.behind k)
  | c         => c

namespace Convert

/-- What a decoder makes of a line before it reads it. -/
def lineFor (decoder : Text) (line : Text) : Text :=
  if hasEscapes decoder then Backslash.unescape line else line

theorem sourceFor_ofLines (decoder : Text) (lines : List Text) :
    sourceFor decoder (.ofLines lines) = .ofLines (lines.map (lineFor decoder)) := by
  unfold sourceFor lineFor
  split <;> simp [Source.unescape, Source.ofLines, Except.map]

/-- The lines that the decoder of some settings reads. -/
def linesFor (s : Settings) (bytes : Bytes) : List Text :=
  (Lines.all bytes).map (lineFor s.codec.decoder)

theorem sourceFor_ofBytes (s : Settings) (bytes : Bytes) :
    sourceFor s.codec.decoder (.ofBytes bytes none) = .ofLines (linesFor s bytes) := by
  rw [Source.ofBytes_eq, sourceFor_ofLines, linesFor]

theorem linesFor_append (s : Settings) {a : Bytes} (ha : Lines.Complete a) (b : Bytes) :
    linesFor s (a ++ b) = linesFor s a ++ linesFor s b := by
  rw [linesFor, Lines.all_append ha, List.map_append, linesFor, linesFor]

theorem length_linesFor (s : Settings) {a : Bytes} (ha : Lines.Complete a) :
    (linesFor s a).length = a.count 0x0A := by
  rw [linesFor, List.length_map, Lines.length_all ha]

theorem linesFor_of_int {s : Settings} (int : s.codec.decoder = "int") (bytes : Bytes) :
    linesFor s bytes = (Lines.all bytes).map Backslash.unescape := by
  have escapes : lineFor "int" = Backslash.unescape := rfl
  rw [linesFor, int, escapes]

theorem eq_int_of_select {name : Text} {names : Option Text}
    (h : Decoder.select name names = .ok .internal) : name = "int" := by
  unfold Decoder.select at h
  split at h
  · assumption
  · split at h
    · cases h
    · split at h
      · split at h
        · next list => cases hl : NameList.parse list <;> simp [hl, Except.map] at h
        · cases h
      · cases h

/-- A conversion of bytes, once its codecs are found, writes the events of their lines. -/
theorem run_ofBytes {s : Settings} {d : Decoder} {ps : Emitter}
    (hd : Decoder.select s.codec.decoder s.codec.decoderFormat = .ok d)
    (hps : Emitter.ofSettings s.codec = .ok ps) (bytes : Bytes) :
    let out := d.run Sink.recorder [] (.ofLines (linesFor s bytes))
    let converted := run s (.ofBytes bytes none) (.new none)
    converted.result = out.result.mapError .decode ∧
      converted.written.output.taken = out.state.flatMap (Emitter.bytes s.context.flags ps) := by
  obtain ⟨result, records⟩ := run_eq_decoded hps (.ofBytes bytes none)
  rw [decoded, hd, sourceFor_ofBytes] at result records
  exact ⟨result, records.taken⟩

/-- **Joined inputs.**  An input that ends with a line feed, or is empty, and is converted to its
end, does not change how an input behind it is converted, if that one begins with an event wherever
events have several lines. -/
theorem run_of_joined {s : Settings} {a b : Bytes} {n : Nat} (ha : Lines.Complete a)
    (hb : s.codec.decoder = "int" → Internal.BeginsAnew ((Lines.all b).map Backslash.unescape))
    (h : (run s (.ofBytes a none) (.new none)).result = .ok n) :
    let first := run s (.ofBytes a none) (.new none)
    let second := run s (.ofBytes b none) (.new none)
    let both := run s (.ofBytes (a ++ b) none) (.new none)
    both.written.output.taken = first.written.output.taken ++ second.written.output.taken ∧
      both.result = (second.result.map (n + ·)).mapError (.behind (a.count 0x0A)) := by
  intro first second both
  obtain ⟨d, ps, hd, hps, -⟩ := run_ok h
  obtain ⟨firstResult, firstTaken⟩ := run_ofBytes hd hps a
  obtain ⟨secondResult, secondTaken⟩ := run_ofBytes hd hps b
  obtain ⟨bothResult, bothTaken⟩ := run_ofBytes hd hps (a ++ b)
  rw [linesFor_append s ha] at bothResult bothTaken
  have anew : d = .internal → Internal.BeginsAnew (linesFor s b) := by
    rintro rfl
    have int := eq_int_of_select hd
    rw [linesFor_of_int int]
    exact hb int
  obtain ⟨result, events⟩ :=
    Decoder.record_append (mapError_eq_ok_iff.mp (firstResult.symm.trans h)) anew
  refine ⟨?_, ?_⟩
  · rw [bothTaken, events, List.flatMap_append, ← firstTaken, ← secondTaken]
  · rw [bothResult, result, secondResult, length_linesFor s ha]
    cases (d.run Sink.recorder [] (.ofLines (linesFor s b))).result <;> rfl

/-- The event of the first input is open at the cut, and the third line behind it is bad. -/
theorem run_of_joined_bad_line :
    let s : Settings := { Settings.standard with codec := ⟨"int", "json", none, none⟩ }
    let a := Utf8.encode "e:\nf:a\nv:1\n"
    let b := Utf8.encode "#:\ne:\nx"
    Lines.Complete a ∧ Internal.BeginsAnew ((Lines.all b).map Backslash.unescape) ∧
      (run s (.ofBytes a none) (.new none)).result = .ok 1 ∧
      (run s (.ofBytes (a ++ b) none) (.new none)).result =
        .error (.decode (.decode "int" 6 (.invalidFormat (.lineTooShort 1)))) := by
  intro s a b
  have complete : Lines.Complete a := by decide
  have anew : Internal.BeginsAnew ((Lines.all b).map Backslash.unescape) := by decide
  have converted : (run s (.ofBytes a none) (.new none)).result = .ok 1 := rfl
  obtain ⟨-, result⟩ := run_of_joined complete (fun _ => anew) converted
  exact ⟨complete, anew, converted, result.trans rfl⟩

end Convert

end EventLog
