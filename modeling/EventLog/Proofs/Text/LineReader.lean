import EventLog.LineReader
import EventLog.Proofs.Text.Broken
import EventLog.Proofs.Text.Lines

/-!
# The lines of a text

The lines of bytes are those of the text that the bytes stand for as a whole (`all_eq_ofText`): a
line feed is a byte of ASCII, and so is the carriage return in front of it, and what stands between
them is read on its own even if it is broken.

A line reader that is asked again and again gives the lines of its source, and counts them
(`drain_eq`).  So it gives the lines of its bytes as text (`drain_lines`).
-/

namespace EventLog

namespace Lines

/-! ### Lines as text -/

/-- A text without one carriage return at its end. -/
def withoutReturn (line : Text) : Text :=
  if line.getLast? = some '\r' then line.dropLast else line

/-- A last line, unless it is empty. -/
def lastLine (line : Text) : List Text := if line = [] then [] else [line]

/-- The lines of a text: what stands between its line feeds. -/
def ofText (t : Text) : List Text :=
  let cut := pieces (· == '\n') t
  cut.dropLast.map withoutReturn ++ lastLine (cut.getLast?.getD [])

example : ofText "a\r\n\nb\r\n\r" = (["a", "", "b", "\r"] : List Text) := by decide

/-- A line is read as one piece, and has no line feed. -/
theorem lineFeed_notMem_decode {line : Bytes} (h : 0x0A ∉ line) : '\n' ∉ Utf8.decode line :=
  fun hmem => h (Utf8.mem_decode (a := '\n') (by decide) hmem)

theorem pieces_lineFeed {line : Bytes} (h : 0x0A ∉ line) : pieces isLineFeed line = [line] :=
  pieces_eq_singleton _ (separates_eq_false_of_notMem _ (fun _ => eq_of_beq) h)

theorem pieces_newline {line : Text} (h : '\n' ∉ line) : pieces (· == '\n') line = [line] :=
  pieces_eq_singleton _ (separates_eq_false_of_notMem _ (fun _ => eq_of_beq) h)

/-- A piece is read without what stands around it. -/
theorem pieces_decode (bytes : Bytes) :
    pieces (· == '\n') (Utf8.decode bytes) = (pieces isLineFeed bytes).map Utf8.decode := by
  by_cases h : 0x0A ∈ bytes
  · obtain ⟨line, rest, rfl, hline⟩ := List.eq_append_cons_of_mem h
    have shorter : rest.length < (line ++ 0x0A :: rest).length := by
      rw [List.length_append, List.length_cons]
      omega
    rw [Utf8.decode_append_ascii line (by decide), pieces_append_cons _ _ _ (by rfl),
      pieces_append_cons _ _ _ rfl, pieces_newline (lineFeed_notMem_decode hline),
      pieces_lineFeed hline, pieces_decode rest]
    rfl
  · rw [pieces_newline (lineFeed_notMem_decode h), pieces_lineFeed h]
    rfl
termination_by bytes.length

/-- A carriage return is dropped before or after reading. -/
theorem decode_dropReturn (line : Bytes) :
    Utf8.decode (dropReturn line) = withoutReturn (Utf8.decode line) := by
  rw [dropReturn, withoutReturn]
  by_cases h : line.getLast? = some 0x0D
  · obtain ⟨front, rfl⟩ := List.getLast?_eq_some_iff.mp h
    have read : Utf8.decode (front ++ [0x0D]) = Utf8.decode front ++ ['\r'] :=
      Utf8.decode_append_ascii front (by decide) []
    rw [if_pos h, read, if_pos List.getLast?_concat, List.dropLast_concat, List.dropLast_concat]
  · have other : (Utf8.decode line).getLast? ≠ some '\r' := fun last =>
      h (Utf8.getLast?_decode (a := '\r') (by decide) last)
    rw [if_neg h, if_neg other]

theorem decode_unended (bytes : Bytes) :
    unended bytes = lastLine (Utf8.decode (remainder bytes)) := by
  simp only [unended, lastLine, Utf8.decode_eq_nil_iff]

/-- **The lines of bytes are the lines of their text.** -/
theorem all_eq_ofText (bytes : Bytes) : all bytes = ofText (Utf8.decode bytes) := by
  have last : (pieces (· == '\n') (Utf8.decode bytes)).getLast?.getD [] =
      Utf8.decode (remainder bytes) := by
    rw [pieces_decode, List.getLast?_map, remainder,
      List.getLast?_eq_some_getLast (pieces_ne_nil isLineFeed bytes)]
    rfl
  rw [all, ofText, last, pieces_decode, ← List.map_dropLast, List.map_map, decode_unended, ended]
  simp only [decode_dropReturn, Function.comp_def]

/-! ### Lines that are joined -/

variable {ls : List (Text × LineEnd)} {last : Text}

theorem complete_joined (ls : List (Text × LineEnd)) : Complete (joined ls) := by
  rcases ls.eq_nil_or_concat with rfl | ⟨front, ⟨line, stop⟩, rfl⟩
  · exact .inl rfl
  · have ended : joined (front.concat (line, stop)) = joined front ++ stem line stop ++ [0x0A] := by
      simp [joined, encode_append_bytes]
    exact .inr (by rw [ended, List.getLast?_concat])

theorem all_encode (h : '\n' ∉ last) : all (Utf8.encode last) = lastLine last := by
  rw [all_eq_ofText, Utf8.decode_encode, ofText, pieces_newline h]
  rfl

/-- Lines with their ends, and a last one without an end unless it is empty. -/
theorem all_joined_append (h : ∀ l ∈ ls, Single l.1) (hlast : '\n' ∉ last) :
    all (joined ls ++ Utf8.encode last) = ls.map Prod.fst ++ lastLine last := by
  rw [all_append (complete_joined ls), all_encode hlast, all, ended_joined h, unended_joined h,
    List.append_nil]

end Lines

/-! ### Readers -/

namespace Source

/-- Bytes behind a line feed are a source of their own behind the line. -/
theorem ofBytes_append_cons {line : Bytes} (h : 0x0A ∉ line) (rest : Bytes)
    (failure : Option EventError) :
    ofBytes (line ++ 0x0A :: rest) failure =
      .ok (Utf8.decode (Lines.dropReturn line)) :: ofBytes rest failure := by
  simp only [ofBytes, Lines.ended_append_cons, Lines.unended_append_cons, Lines.pieces_lineFeed h]
  rfl

theorem ofBytes_of_notMem {bytes : Bytes} (h : 0x0A ∉ bytes) (failure : Option EventError) :
    ofBytes bytes failure =
      match failure with
      | some e => [.error e]
      | none   => if bytes = [] then [] else [.ok (Utf8.decode bytes)] := by
  have remainder : Lines.remainder bytes = bytes := by
    rw [Lines.remainder, Lines.pieces_lineFeed h]
    rfl
  have ended : Lines.ended bytes = [] := by
    rw [Lines.ended, Lines.pieces_lineFeed h]
    rfl
  simp only [ofBytes, ended, Lines.unended, remainder]
  cases failure with
  | some e => rfl
  | none => by_cases h : bytes = [] <;> simp [h]

end Source

namespace LineReader

/-- What a reader has still to give. -/
def source (r : LineReader) : Source :=
  if r.unescapes then (Source.ofBytes r.rest r.failure).unescape
  else Source.ofBytes r.rest r.failure

/-- What a reader gives that is asked up to the end of its source. -/
def given (r : LineReader) : Drained where
  lines := r.source.drain.1
  failure := r.source.drain.2
  reader := { r with rest := [], linesRead := r.linesRead + r.source.drain.1.length }

section

variable {r r' : LineReader}

theorem drain_of_line {line : Text} (h : r.next = (.ok (some line), r')) :
    r.drain = { r'.drain with lines := line :: r'.drain.lines } := by
  rw [drain]
  split <;> simp_all

theorem drain_of_end (h : r.next = (.ok none, r')) : r.drain = ⟨[], none, r'⟩ := by
  rw [drain]
  split <;> simp_all

theorem drain_of_error {e : EventError} (h : r.next = (.error e, r')) :
    r.drain = ⟨[], some e, r'⟩ := by
  rw [drain]
  split <;> simp_all

end

variable {failure : Option EventError} {unescapes : Bool} {linesRead : Nat}

theorem isLineFeed_eq_false {line : Bytes} (h : 0x0A ∉ line) :
    ∀ b ∈ line, (!Lines.isLineFeed b) = true := fun b hb => by
  simpa [Lines.isLineFeed] using fun heq : b = 0x0A => h (heq ▸ hb)

theorem next_of_line {line : Bytes} (h : 0x0A ∉ line) (rest : Bytes) :
    let r : LineReader := ⟨line ++ 0x0A :: rest, failure, unescapes, linesRead⟩
    r.next = r.give (Lines.dropReturn line) rest := by
  intro r
  have front : r.rest.takeWhile (fun b => !Lines.isLineFeed b) = line := by
    rw [List.takeWhile_append_of_pos (isLineFeed_eq_false h)]
    exact List.append_nil line
  have behind : r.rest.dropWhile (fun b => !Lines.isLineFeed b) = 0x0A :: rest := by
    rw [List.dropWhile_append_of_pos (isLineFeed_eq_false h)]
    rfl
  simp only [next, behind, front]

theorem next_of_notMem {bytes : Bytes} (h : 0x0A ∉ bytes) :
    let r : LineReader := ⟨bytes, failure, unescapes, linesRead⟩
    r.next =
      match failure with
      | some e => (.error e, { r with rest := [] })
      | none   => if bytes = [] then (.ok none, r) else r.give bytes [] := by
  intro r
  have behind : r.rest.dropWhile (fun b => !Lines.isLineFeed b) = [] := by
    rw [← List.append_nil r.rest, List.dropWhile_append_of_pos (isLineFeed_eq_false h)]
    rfl
  simp only [next, behind]
  cases failure <;> rfl

theorem given_of_line {line : Bytes} (h : 0x0A ∉ line) (rest : Bytes) :
    let r : LineReader := ⟨line ++ 0x0A :: rest, failure, unescapes, linesRead⟩
    let r' : LineReader := ⟨rest, failure, unescapes, linesRead + 1⟩
    r.given = { r'.given with lines := r.text (Lines.dropReturn line) :: r'.given.lines } := by
  intro r r'
  have source : r.source = .ok (r.text (Lines.dropReturn line)) :: r'.source := by
    simp only [LineReader.source, r, r', Source.ofBytes_append_cons h, text]
    cases unescapes <;> rfl
  simp only [given, source, Source.drain, List.length_cons, r, r', Nat.add_assoc, Nat.add_comm]

/-- The last line that no line feed ends, the end, or the failure in place of both. -/
theorem drain_of_notMem {bytes : Bytes} (h : 0x0A ∉ bytes) :
    drain ⟨bytes, failure, unescapes, linesRead⟩ =
      given ⟨bytes, failure, unescapes, linesRead⟩ := by
  have source := Source.ofBytes_of_notMem h failure
  cases failure with
  | some e =>
      have next : LineReader.next ⟨bytes, some e, unescapes, linesRead⟩ = _ := next_of_notMem h
      simp only [drain_of_error next, given, LineReader.source, source]
      cases unescapes <;> rfl
  | none =>
      have next : LineReader.next ⟨bytes, none, unescapes, linesRead⟩ = _ := next_of_notMem h
      by_cases empty : bytes = []
      · subst empty
        simp only [drain_of_end next, given, LineReader.source, source]
        cases unescapes <;> rfl
      · have behind : LineReader.next ⟨[], none, unescapes, linesRead + 1⟩ = (.ok none, _) := rfl
        have line := drain_of_line (next.trans (if_neg empty))
        simp only [line, drain_of_end behind, given, LineReader.source, source, if_neg empty]
        cases unescapes <;> rfl

/-- **A reader gives the lines of its source, and counts them.** -/
theorem drain_eq (r : LineReader) : r.drain = r.given := by
  obtain ⟨bytes, failure, unescapes, linesRead⟩ := r
  by_cases h : 0x0A ∈ bytes
  · obtain ⟨line, rest, rfl, hline⟩ := List.eq_append_cons_of_mem h
    have shorter : rest.length < (line ++ 0x0A :: rest).length := by
      rw [List.length_append, List.length_cons]
      omega
    rw [drain_of_line (next_of_line hline rest), given_of_line hline, drain_eq]
  · exact drain_of_notMem h
termination_by r.rest.length

theorem drain_ofLines (lines : List Text) : (Source.ofLines lines).drain = (lines, none) := by
  induction lines with
  | nil => rfl
  | cons line lines ih =>
      simp only [Source.ofLines, List.map_cons, Source.drain] at ih ⊢
      rw [ih]

/-! ### Main statement -/

/-- **The lines of bytes are those of the text that they stand for.**  A reader gives them one after
the other and then ends, having counted them; the decoders read the same lines.  Lines that are put
side by side with their ends, the last of them perhaps without one, are given as they were. -/
theorem drain_lines :
    (∀ bytes, let lines := Lines.ofText (Utf8.decode bytes)
      (ofBytes bytes none).drain = ⟨lines, none, ⟨[], none, false, lines.length⟩⟩ ∧
        Source.ofBytes bytes none = .ofLines lines) ∧
      ∀ ls last, (∀ l ∈ ls, Lines.Single l.1) → '\n' ∉ last →
        (ofBytes (Lines.joined ls ++ Utf8.encode last) none).drain.lines =
          ls.map Prod.fst ++ Lines.lastLine last := by
  have source (bytes : Bytes) :
      Source.ofBytes bytes none = .ofLines (Lines.ofText (Utf8.decode bytes)) := by
    rw [Source.ofBytes_eq, Lines.all_eq_ofText]
  have drained (bytes : Bytes) : (ofBytes bytes none).drain =
      ⟨Lines.ofText (Utf8.decode bytes), none,
        ⟨[], none, false, (Lines.ofText (Utf8.decode bytes)).length⟩⟩ := by
    have whole : (ofBytes bytes none).source = .ofLines (Lines.ofText (Utf8.decode bytes)) :=
      source bytes
    rw [drain_eq, given, whole, drain_ofLines]
    simp [ofBytes]
  refine ⟨fun bytes => ⟨drained bytes, source bytes⟩, fun ls last hls hlast => ?_⟩
  rw [drained, ← Lines.all_eq_ofText, Lines.all_joined_append hls hlast]

/-- Both ends of lines, an empty line, and a carriage return inside of one and behind the last; and
a character that a line end cuts in two. -/
theorem drain_lines_joined :
    let ls : List (Text × LineEnd) :=
      [("a", .lineFeed), ("", .returnLineFeed), ("b\ré", .returnLineFeed)]
    let whole : Bytes :=
      [0x61, 0x0A, 0x0D, 0x0A, 0x62, 0x0D, 0xC3, 0xA9, 0x0D, 0x0A, 0x63, 0x0D]
    let broken : Bytes := [0xC3, 0x0D, 0x0A, 0xA9]
    (∀ l ∈ ls, Lines.Single l.1) ∧ '\n' ∉ "c\r".toList ∧
      (ofBytes whole none).drain.lines = ["a".toList, [], "b\ré".toList, "c\r".toList] ∧
      (ofBytes broken none).drain = ⟨["\uFFFD", "\uFFFD"], none, ⟨[], none, false, 2⟩⟩ := by
  intro ls whole broken
  have single : ∀ l ∈ ls, Lines.Single l.1 := by
    simp only [ls, List.forall_mem_cons]
    exact ⟨⟨by decide, by decide⟩, ⟨by decide, by decide⟩, ⟨by decide, by decide⟩, nofun⟩
  have last : '\n' ∉ "c\r".toList := by decide
  obtain ⟨bytes, joined⟩ := drain_lines
  have put : Lines.joined ls ++ Utf8.encode "c\r" = whole := by decide
  have read : Lines.ofText (Utf8.decode broken) = ["\uFFFD".toList, "\uFFFD".toList] := by
    decide +kernel
  refine ⟨single, last, put ▸ joined ls "c\r" single last, ?_⟩
  rw [(bytes broken).1, read]
  rfl

end LineReader

end EventLog
