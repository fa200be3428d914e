import EventLog.Source

/-!
# Line readers

A line reader is asked for one line after the other, and counts those it gives.  It takes the bytes
up to the next line feed, which ends the line; bytes that none ends are the last line.  When the
bytes break off with a failure, the reader answers this failure in place of a line that is not
ended, as often as it is asked.
-/

namespace EventLog

/-- What a reader of lines has before it, and how far it has come. -/
structure LineReader where
  /-- The bytes that are left. -/
  rest : Bytes
  /-- What the bytes break off with, if they do. -/
  failure : Option EventError
  /-- Whether the backslash escapes of a line are resolved. -/
  unescapes : Bool
  /-- The number of lines given so far. -/
  linesRead : Nat
deriving Repr, DecidableEq

namespace LineReader

/-- A reader that has not been asked yet. -/
def ofBytes (bytes : Bytes) (failure : Option EventError) : LineReader := ⟨bytes, failure, false, 0⟩

/-- The text of a line. -/
def text (r : LineReader) (line : Bytes) : Text :=
  if r.unescapes then Backslash.unescape (Utf8.decode line) else Utf8.decode line

/-- Gives a line, some bytes being left behind it. -/
def give (r : LineReader) (line rest : Bytes) : Except EventError (Option Text) × LineReader :=
  (.ok (some (r.text line)), { r with rest := rest, linesRead := r.linesRead + 1 })

/-- The next line, or none at the end, and the reader behind it. -/
def next (r : LineReader) : Except EventError (Option Text) × LineReader :=
  match r.rest.dropWhile fun b => !Lines.isLineFeed b with
  | _ :: behind =>
    r.give (Lines.dropReturn (r.rest.takeWhile fun b => !Lines.isLineFeed b)) behind
  | []          =>
    match r.failure with
    | some e => (.error e, { r with rest := [] })
    | none   => if r.rest = [] then (.ok none, r) else r.give r.rest []

/-- A line takes bytes. -/
theorem length_rest_lt {r r' : LineReader} {line : Text} (h : r.next = (.ok (some line), r')) :
    r'.rest.length < r.rest.length := by
  unfold next at h
  split at h
  · next behind hbehind =>
      cases h
      have suffix := List.dropWhile_suffix (l := r.rest) fun b => !Lines.isLineFeed b
      rw [hbehind] at suffix
      exact suffix.length_le
  · split at h
    · cases h
    · split at h
      · cases h
      · next some =>
          cases h
          exact List.length_pos_iff.mpr some

/-- What a reader gives that is asked up to its end or its first failure. -/
structure Drained where
  lines : List Text
  failure : Option EventError
  /-- The reader afterwards. -/
  reader : LineReader
deriving Repr, DecidableEq

/-- Asks a reader up to its end or its first failure. -/
def drain (r : LineReader) : Drained :=
  match _h : r.next with
  | (.ok (some line), r') => { r'.drain with lines := line :: r'.drain.lines }
  | (.ok none, r')        => ⟨[], none, r'⟩
  | (.error e, r')        => ⟨[], some e, r'⟩
termination_by r.rest.length
decreasing_by all_goals exact length_rest_lt _h

end LineReader

end EventLog
