import EventLog.Convert
import EventLog.Proofs.Decoding.Scan
import EventLog.Proofs.Decoding.Tokens
import EventLog.Proofs.Encoding.Absent
import EventLog.Proofs.Text.Backslash
import EventLog.Proofs.Text.Lines
import Mathlib.Data.List.TakeWhile

/-!
# Quoted tokens with escapes

Texts are put between double quotes, with a backslash in front of each double quote and each
backslash of theirs (`Apache.guardedRow`).  A source resolves the escapes of the whole line, and only
then is the line cut into tokens: what the decoder sees is the texts as they are, between double
quotes (`Apache.quotedRow`).

* `run_guardedRow`: the event of the line is that of the unguarded row, and it has the texts as its
  fields exactly if none of them has a double quote.
-/

namespace EventLog.Apache

/-! ### Guarded texts -/

/-- A character between double quotes: a backslash goes before a double quote and a backslash. -/
def guardChar (c : Char) : Text := if c = '"' ∨ c = '\\' then ['\\', c] else [c]

/-- A text between double quotes, guarded character by character. -/
def guardText (t : Text) : Text := t.flatMap guardChar

/-- Guarded texts between double quotes, with a space between them. -/
def guardedRow (ts : List Text) : Text := quotedRow (ts.map guardText)

/-! ### Reading the line -/

theorem writes_guardChar (c : Char) : Backslash.Writes (guardChar c) [c] := by
  rw [guardChar]
  split
  · next h =>
      obtain rfl | rfl := h
      · exact Backslash.writes_named rfl rfl
      · exact Backslash.writes_named rfl rfl
  · next h => exact Backslash.writes_plain fun hc => h (.inr hc)

theorem writes_guardedRow (ts : List Text) :
    Backslash.Writes (guardedRow ts) (quotedRow ts) := by
  have quote : Backslash.Writes ['"'] ['"'] := Backslash.writes_plain (by decide)
  have space : Backslash.Writes [' '] [' '] := Backslash.writes_plain (by decide)
  have token (t : Text) : Backslash.Writes (enquote (guardText t)) (enquote t) :=
    quote.append ((Backslash.Writes.flatMap writes_guardChar t).append quote)
  unfold guardedRow quotedRow
  induction ts with
  | nil => exact .nil
  | cons t ts ih =>
      cases ts with
      | nil => simpa using token t
      | cons u ts =>
          simp only [List.map_cons, List.intercalate_cons_cons] at ih ⊢
          exact ((token t).append space).append ih

theorem notMem_guardedRow {x : Char} (hx : x ≠ '"' ∧ x ≠ '\\' ∧ x ≠ ' ') {ts : List Text}
    (h : ∀ t ∈ ts, x ∉ t) : x ∉ guardedRow ts := by
  refine notMem_intercalate (by simpa using hx.2.2) fun l hl => ?_
  simp only [List.mem_map] at hl
  obtain ⟨t, ⟨u, hu, rfl⟩, rfl⟩ := hl
  have char : ∀ c ∈ u, x ∉ guardChar c := by
    intro c hc
    have other : x ≠ c := fun h' => h u hu (h' ▸ hc)
    rw [guardChar]
    split <;> simp [hx, other]
  have text : x ∉ guardText u := fun hmem => by
    obtain ⟨c, hc, hmem⟩ := List.mem_flatMap.mp hmem
    exact char c hc hmem
  simp [enquote, hx.1, text]

/-- A source of the line gives the row of the texts. -/
theorem ofBytes_guardedRow {ts : List Text} (h : ∀ t ∈ ts, '\n' ∉ t ∧ '\r' ∉ t) (stop : LineEnd) :
    Convert.sourceFor "apache" (Source.ofBytes (Lines.joined [(guardedRow ts, stop)]) none) =
      .ofLines [quotedRow ts] := by
  have lineFeed : '\n' ∉ guardedRow ts := notMem_guardedRow (by decide) fun t ht => (h t ht).1
  have carriageReturn : '\r' ∉ guardedRow ts := notMem_guardedRow (by decide) fun t ht => (h t ht).2
  have single : ∀ l ∈ [(guardedRow ts, stop)], Lines.Single l.1 := by
    rw [List.forall_mem_singleton]
    exact ⟨lineFeed, fun last => carriageReturn (List.mem_of_getLast? last)⟩
  have escapes (source : Source) : Convert.sourceFor "apache" source = source.unescape := rfl
  rw [Source.ofBytes_joined single, escapes]
  exact congrArg (fun line => [Except.ok line]) (writes_guardedRow ts).unescape

/-! ### Cutting the line -/

/-- Behind a quoted text the row goes on with the others. -/
theorem exists_behind (t : Text) (ts : List Text) :
    ∃ behind, quotedRow (t :: ts) = '"' :: (t ++ '"' :: behind) ∧
      ∀ names, fields names behind = fields names (quotedRow ts) := by
  cases ts with
  | nil => exact ⟨[], quotedRow_singleton t, fun _ => rfl⟩
  | cons u ts => exact ⟨_, quotedRow_cons_cons t u ts, fun names => fields_space names _⟩

/-- A text with a double quote is cut in front of it. -/
theorem blankDash_takeWhile_ne {t : Text} (ht : '"' ∈ t) (rest : Text) :
    blankDash ((t ++ rest).takeWhile (· ≠ '"')) ≠ blankDash t := by
  have kept : blankDash t = t := if_neg (by rintro rfl; revert ht; decide)
  have cut : '"' ∉ blankDash ((t ++ rest).takeWhile (· ≠ '"')) := by
    rw [blankDash]
    split
    · exact List.not_mem_nil
    · exact fun h => by simpa using List.mem_takeWhile_imp h
  rw [kept]
  intro h
  rw [h] at cut
  exact cut ht

/-- Behind the opening quote, the token reaches up to the next quote. -/
theorem nextToken_quote (t : Text) :
    nextToken ('"' :: t) =
      some (blankDash (t.takeWhile (· ≠ '"')), (t.dropWhile (· ≠ '"')).drop 1) := rfl

/-- The tokens of a row are its texts exactly if none of them has a double quote. -/
theorem fields_quotedRow_iff : ∀ {names ts : List Text}, names.length = ts.length →
    (fields names (quotedRow ts) = List.zipWith column names ts ↔ ∀ t ∈ ts, '"' ∉ t)
  | [], [], _ => by simp [fields]
  | name :: names, t :: ts, hlen => by
      obtain ⟨behind, hrow, hbehind⟩ := exists_behind t ts
      have further := fields_quotedRow_iff (Nat.succ.inj hlen)
      rw [hrow, fields, nextToken_quote, List.zipWith_cons_cons, List.forall_mem_cons]
      by_cases ht : '"' ∈ t
      · have other := blankDash_takeWhile_ne ht ('"' :: behind)
        refine iff_of_false (fun read => other ?_) fun plain => plain.1 ht
        simpa [column, Field.single] using (List.cons.inj read).1
      · have upTo : ('"' :: behind).head?.all (· = '"') := rfl
        rw [Text.takeWhile_ne_append ht upTo, Text.dropWhile_ne_append ht upTo]
        simp only [List.drop_one, List.tail_cons, hbehind]
        rw [← column, List.cons_inj_right, further]
        simp [ht]

/-! ### Main statement -/

variable {σ : Type} {sink : Sink σ}

theorem run_line (ht : sink.Tireless) (s : σ) (names : NameList) (line : Text) :
    let out := (Decoder.apache names).run sink s (.ofLines [line])
    out.result = .ok 1 ∧ out.state = sink.feed s [event names line] := by
  have read : (Decoder.apache names).opened [line] = .ok .nothing := rfl
  exact Decoder.run_opened ht s read

/-- **A row of guarded texts** is read as the row of the texts, and gives them all back exactly if
none of them has a double quote. -/
theorem run_guardedRow (ht : sink.Tireless) (s : σ) {names : NameList} {ts : List Text}
    (hlen : names.names.length = ts.length) (hts : ∀ t ∈ ts, '\n' ∉ t ∧ '\r' ∉ t)
    (stop : LineEnd) :
    let source := Source.ofBytes (Lines.joined [(guardedRow ts, stop)]) none
    let out := (Decoder.apache names).run sink s (Convert.sourceFor "apache" source)
    let e := event names (quotedRow ts)
    out.result = .ok 1 ∧ out.state = sink.feed s [e] ∧
      (e = ⟨none, List.zipWith column names.names ts⟩ ↔ ∀ t ∈ ts, '"' ∉ t) := by
  intro source out e
  obtain ⟨result, state⟩ := run_line ht s names (quotedRow ts)
  rw [← ofBytes_guardedRow hts stop] at result state
  refine ⟨result, state, ?_⟩
  rw [← fields_quotedRow_iff hlen]
  simp [e, event]

/-- A backslash, a dash and a bracket. -/
theorem run_guardedRow_backslash :
    let names : NameList := ⟨["a", "b", "c"]⟩
    let ts : List Text := ["\\", "-", "x] \\n"]
    let source := Source.ofBytes (Lines.joined [(guardedRow ts, .returnLineFeed)]) none
    let out := (Decoder.apache names).run .recorder [] (Convert.sourceFor "apache" source)
    Sink.recorder.Tireless ∧ names.names.length = ts.length ∧
      (∀ t ∈ ts, '\n' ∉ t ∧ '\r' ∉ t) ∧ guardedRow ts = "\"\\\\\" \"-\" \"x] \\\\n\"" ∧
      out.state = [⟨none, [.single "a" (.string "\\"), .single "b" (.string ""),
        .single "c" (.string "x] \\n")]⟩] := by
  intro names ts source out
  have tireless : Sink.recorder.Tireless := fun _ _ => rfl
  have length : names.names.length = ts.length := rfl
  have inLine : ∀ t ∈ ts, '\n' ∉ t ∧ '\r' ∉ t := by decide
  have plain : ∀ t ∈ ts, '"' ∉ t := by decide
  obtain ⟨-, state, given⟩ := run_guardedRow tireless [] length inLine .returnLineFeed
  refine ⟨tireless, length, inLine, by decide, ?_⟩
  rw [given.mpr plain] at state
  exact state

/-- An escaped double quote ends its token. -/
theorem run_guardedRow_quote :
    let names : NameList := ⟨["x"]⟩
    let ts : List Text := ["a\"b"]
    let source := Source.ofBytes (Lines.joined [(guardedRow ts, .lineFeed)]) none
    let out := (Decoder.apache names).run .recorder [] (Convert.sourceFor "apache" source)
    names.names.length = ts.length ∧ (∀ t ∈ ts, '\n' ∉ t ∧ '\r' ∉ t) ∧
      guardedRow ts = "\"a\\\"b\"" ∧
      out.state = [⟨none, [.single "x" (.string "a")]⟩] ∧
      out.state ≠ [⟨none, List.zipWith column names.names ts⟩] := by
  intro names ts source out
  have inLine : ∀ t ∈ ts, '\n' ∉ t ∧ '\r' ∉ t := by decide
  have state : out.state = [⟨none, [.single "x" (.string "a")]⟩] := by
    show ((Decoder.apache names).run .recorder [] (Convert.sourceFor "apache" source)).state = _
    rw [ofBytes_guardedRow inLine]
    rfl
  refine ⟨rfl, inLine, by decide, state, ?_⟩
  rw [state]
  decide

end EventLog.Apache
