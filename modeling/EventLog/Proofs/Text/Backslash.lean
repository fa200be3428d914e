import EventLog.Proofs.Text.Utf8
import EventLog.Text.Backslash

/-!
# Writing backslash escapes

A line whose backslashes, line feeds and carriage returns are written as escapes
(`Backslash.escape`) has neither of the last two, and stands for the text that was written
(`unescape_escape`).

A line is cut into parts from left to right.  As soon as the part at its front is known
(`parts_of_firstPart`), the others are those of what follows it.
-/

namespace EventLog.Backslash

/-! ### Parts at the front -/

theorem partsFrom_length (s t : Text) : partsFrom s.length (s ++ t) = parts t := by
  induction s with
  | nil => rfl
  | cons c s ih => exact ih

/-- The part at the front of a line is followed by the parts of what it leaves. -/
theorem parts_of_firstPart {c : Char} {w t : Text} {p : Part} (h : firstPart c (w ++ t) = p)
    (written : p.written = c :: w) : parts (c :: w ++ t) = p :: parts t := by
  rw [List.cons_append, parts, partsFrom, h, written, List.length_cons, Nat.add_sub_cancel,
    partsFrom_length]

/-- The bytes that a line stands for. -/
def bytes (line : Text) : Bytes := (parts line).flatMap Part.bytes

theorem bytes_of_firstPart {c : Char} {w t : Text} {p : Part} (h : firstPart c (w ++ t) = p)
    (written : p.written = c :: w) : bytes (c :: w ++ t) = p.bytes ++ bytes t := by
  rw [bytes, parts_of_firstPart h written, List.flatMap_cons, bytes]

/-! ### Writing -/

/-- What is written stands for a text, whatever follows it. -/
def Writes (written t : Text) : Prop :=
  ∀ rest, bytes (written ++ rest) = Utf8.encode t ++ bytes rest

namespace Writes

variable {written written' t t' : Text}

theorem nil : Writes [] [] := fun _ => rfl

theorem append (h : Writes written t) (h' : Writes written' t') :
    Writes (written ++ written') (t ++ t') := by
  intro rest
  rw [List.append_assoc, h, h', Utf8.encode_append, List.append_assoc]

theorem flatMap {write : Char → Text} (h : ∀ c, Writes (write c) [c]) (t : Text) :
    Writes (t.flatMap write) t := by
  induction t with
  | nil => exact nil
  | cons c t ih => exact (h c).append ih

/-- **What is written is read back.** -/
theorem unescape (h : Writes written t) : unescape written = t := by
  have none : bytes [] = [] := rfl
  have read := h []
  rw [List.append_nil, none, List.append_nil] at read
  rw [Backslash.unescape, ← bytes, read, Utf8.decode_encode]

end Writes

theorem writes_plain {c : Char} (hc : c ≠ '\\') : Writes [c] [c] := by
  intro rest
  have plain : firstPart c ([] ++ rest) = .plain c := if_neg hc
  rw [bytes_of_firstPart plain rfl]
  rfl

/-- A character behind a backslash that names its byte. -/
theorem writes_named {c a : Char} {b : UInt8} (hc : named? c = some b)
    (ha : Utf8.encode [a] = [b]) : Writes ['\\', c] [a] := by
  intro rest
  have named : firstPart '\\' ([c] ++ rest) = .named c b := by
    rw [firstPart, if_pos rfl, List.singleton_append, escapePart, hc]
  rw [bytes_of_firstPart named rfl, ha]
  rfl

/-! ### Escapes -/

/-- A character as it is written. -/
def escapeChar (c : Char) : Text :=
  match c with
  | '\\' => ['\\', '\\']
  | '\n' => ['\\', 'n']
  | '\r' => ['\\', 'r']
  | _    => [c]

/-- A text as it is written. -/
def escape (t : Text) : Text := t.flatMap escapeChar

theorem writes_escapeChar (c : Char) : Writes (escapeChar c) [c] := by
  fun_cases escapeChar c with
  | case1 | case2 | case3 => exact writes_named rfl rfl
  | case4 => exact writes_plain ‹_›

/-- **A text that is written with escapes** is what the line stands for. -/
theorem unescape_escape (t : Text) : unescape (escape t) = t :=
  (Writes.flatMap writes_escapeChar t).unescape

theorem lineEnds_notMem_escape (t : Text) : '\n' ∉ escape t ∧ '\r' ∉ escape t := by
  have char (c : Char) : '\n' ∉ escapeChar c ∧ '\r' ∉ escapeChar c := by
    fun_cases escapeChar c <;> simp_all [eq_comm]
  simp [escape, char]

end EventLog.Backslash
