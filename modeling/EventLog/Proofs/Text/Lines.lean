import EventLog.Proofs.Text.Utf8
import EventLog.Source

/-!
# Joining lines

Lines are put one behind the other, each with a line feed or with a carriage return and a line feed
at its end (`Lines.joined`).  If no line has a line feed, or a carriage return at its end, then the
bytes are a source of exactly these lines (`ofBytes_joined`).

Bytes that end with a line feed, or are none, have complete lines only (`Lines.Complete`): the lines
of bytes behind them do not depend on them (`Lines.all_append`).
-/

namespace EventLog

/-- What ends a line. -/
inductive LineEnd where
  | lineFeed
  /-- A carriage return and a line feed. -/
  | returnLineFeed
deriving Repr, DecidableEq

/-- The bytes that end a line. -/
def LineEnd.bytes : LineEnd → Bytes
  | lineFeed       => [0x0A]
  | returnLineFeed => [0x0D, 0x0A]

namespace Lines

/-- The bytes of lines with their ends. -/
def joined (ls : List (Text × LineEnd)) : Bytes :=
  ls.flatMap fun (line, stop) => Utf8.encode line ++ stop.bytes

/-- A line that can be told from what ends it. -/
structure Single (line : Text) : Prop where
  lineFeed : '\n' ∉ line
  carriageReturn : line.getLast? ≠ some '\r'

/-- The bytes of a line up to its line feed. -/
def stem (line : Text) : LineEnd → Bytes
  | .lineFeed       => Utf8.encode line
  | .returnLineFeed => Utf8.encode line ++ [0x0D]

theorem encode_append_bytes (line : Text) (stop : LineEnd) :
    Utf8.encode line ++ stop.bytes = stem line stop ++ [0x0A] := by
  cases stop with
  | lineFeed => rfl
  | returnLineFeed => rw [stem, List.append_assoc]; rfl

variable {line : Text}

theorem lineFeed_notMem_stem (h : Single line) (stop : LineEnd) : 0x0A ∉ stem line stop := by
  have none : 0x0A ∉ Utf8.encode line := fun hmem =>
    h.lineFeed ((Utf8.mem_encode (a := '\n') (by decide) line).mp hmem)
  cases stop with
  | lineFeed => exact none
  | returnLineFeed => simp [stem, none]

theorem dropReturn_stem (h : Single line) (stop : LineEnd) :
    dropReturn (stem line stop) = Utf8.encode line := by
  cases stop with
  | lineFeed =>
      have last : (Utf8.encode line).getLast? ≠ some 0x0D := fun hlast =>
        h.carriageReturn (Utf8.getLast?_encode (a := '\r') (by decide) hlast)
      rw [stem, dropReturn, if_neg last]
  | returnLineFeed => simp [stem, dropReturn]

variable {ls : List (Text × LineEnd)}

theorem pieces_joined (h : ∀ l ∈ ls, Single l.1) :
    pieces isLineFeed (joined ls) = (ls.map fun l => stem l.1 l.2) ++ [[]] := by
  have cut : joined ls = (ls.map fun l => stem l.1 l.2).flatMap fun bytes => bytes ++ [0x0A] := by
    simp only [joined, encode_append_bytes, List.flatMap_map]
  rw [cut]
  refine pieces_flatMap_concat _ rfl fun bytes hbytes => ?_
  obtain ⟨l, hl, rfl⟩ := List.mem_map.mp hbytes
  exact separates_eq_false_of_notMem _ (fun _ => eq_of_beq) (lineFeed_notMem_stem (h l hl) l.2)

theorem ended_joined (h : ∀ l ∈ ls, Single l.1) : ended (joined ls) = ls.map Prod.fst := by
  rw [ended, pieces_joined h, List.dropLast_concat, List.map_map]
  refine List.map_congr_left fun l hl => ?_
  rw [Function.comp_apply, dropReturn_stem (h l hl), Utf8.decode_encode]

theorem unended_joined (h : ∀ l ∈ ls, Single l.1) : unended (joined ls) = [] := by
  simp [unended, remainder, pieces_joined h]

end Lines

/-- **Lines that are joined** are the lines of their bytes. -/
theorem Source.ofBytes_joined {ls : List (Text × LineEnd)} (h : ∀ l ∈ ls, Lines.Single l.1) :
    ofBytes (Lines.joined ls) none = ofLines (ls.map Prod.fst) := by
  simp [ofBytes, Lines.ended_joined h, Lines.unended_joined h, ofLines]

/-! ### Bytes behind complete lines -/

namespace Lines

/-- All lines of some bytes. -/
def all (bytes : Bytes) : List Text := ended bytes ++ unended bytes

/-- Nothing is left of bytes behind their last line feed. -/
def Complete (bytes : Bytes) : Prop := bytes = [] ∨ bytes.getLast? = some 0x0A

instance (bytes : Bytes) : Decidable (Complete bytes) := inferInstanceAs (Decidable (_ ∨ _))

/-- A line feed ends the lines before it. -/
theorem ended_append_cons (a b : Bytes) :
    ended (a ++ 0x0A :: b) =
      (pieces isLineFeed a).map (fun line => Utf8.decode (dropReturn line)) ++ ended b := by
  rw [ended, pieces_append_cons isLineFeed a b (s := 0x0A) rfl,
    List.dropLast_append_of_ne_nil (pieces_ne_nil isLineFeed b), List.map_append, ended]

theorem unended_append_cons (a b : Bytes) : unended (a ++ 0x0A :: b) = unended b := by
  have last : remainder (a ++ 0x0A :: b) = remainder b := by
    rw [remainder, remainder, pieces_append_cons isLineFeed a b (s := 0x0A) rfl,
      List.getLast?_append, List.getLast?_eq_some_getLast (pieces_ne_nil isLineFeed b),
      Option.some_or]
  rw [unended, unended, last]

theorem all_append_cons (a b : Bytes) :
    all (a ++ 0x0A :: b) =
      (pieces isLineFeed a).map (fun line => Utf8.decode (dropReturn line)) ++ all b := by
  rw [all, all, ended_append_cons, unended_append_cons, List.append_assoc]

theorem all_nil : all [] = [] := rfl

/-- Bytes behind complete lines have lines of their own. -/
theorem all_append {a : Bytes} (ha : Complete a) (b : Bytes) : all (a ++ b) = all a ++ all b := by
  obtain rfl | last := ha
  · rfl
  · obtain ⟨front, rfl⟩ := List.getLast?_eq_some_iff.mp last
    rw [List.append_assoc, List.singleton_append, all_append_cons, all_append_cons, all_nil,
      List.append_nil]

/-- Complete lines are as many as there are line feeds. -/
theorem length_all {a : Bytes} (ha : Complete a) : (all a).length = a.count 0x0A := by
  obtain rfl | last := ha
  · rfl
  · obtain ⟨front, rfl⟩ := List.getLast?_eq_some_iff.mp last
    rw [all_append_cons, all_nil, List.append_nil, List.length_map, length_pieces,
      List.count_append, List.count_singleton_self]
    rfl

end Lines

theorem Source.ofBytes_eq (bytes : Bytes) : ofBytes bytes none = ofLines (Lines.all bytes) := by
  rw [ofBytes, ofLines, Lines.all, List.map_append]

end EventLog
