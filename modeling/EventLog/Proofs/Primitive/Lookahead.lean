import EventLog.Proofs.Primitive.Grammar
import EventLog.Proofs.Text.Utf8

/-!
# One character ahead

What is found at a position depends on nothing that stands before it, and on no more of what stands
behind the value than its first character: there a run of digits, a word or a time ends, or does
not.  So a value is found as well in any other text that has the same bytes up to its end and goes
on with the same character (`Text.AgreeTo`).

* `Primitive.looks_one_ahead`: both for every kind, at any position.
-/

namespace EventLog

/-! ### Texts that begin alike -/

namespace Text

/-- The character that stands at a position, if the position is good and not the end. -/
def ahead? (n : Nat) (t : Text) : Option Char := (dropBytes? n t).bind List.head?

/-- Two texts have the same first bytes, and behind these they go on with the same character, or
both end. -/
structure AgreeTo (n : Nat) (s t : Text) : Prop where
  bytes : (Utf8.encode s).take n = (Utf8.encode t).take n
  ahead : s.ahead? n = t.ahead? n

theorem ahead?_append (word rest : Text) : (word ++ rest).ahead? word.size = rest.head? := by
  rw [ahead?, ← Nat.add_zero word.size, dropBytes?_append, dropBytes?_zero, Option.bind_some]

theorem AgreeTo.exists_rest {word rest t : Text} (h : AgreeTo word.size (word ++ rest) t) :
    ∃ rest', t = word ++ rest' ∧ rest'.head? = rest.head? := by
  have front : (Utf8.encode t).take word.size = Utf8.encode word := by
    rw [← h.bytes, Utf8.encode_append, List.take_left' (Utf8.length_encode word)]
  have split : Utf8.encode t = Utf8.encode word ++ (Utf8.encode t).drop word.size := by
    rw [← front, List.take_append_drop]
  obtain ⟨rest', rfl⟩ := Utf8.exists_of_encode split
  exact ⟨rest', rfl, by rw [← ahead?_append word rest', ← h.ahead, ahead?_append]⟩

end Text

namespace Primitive

variable {p : Primitive} {extra : Option Text}

/-! ### Before and behind -/

/-- What stands before a position only moves it. -/
theorem parse_append_add (before s : Text) (offset : Nat) :
    p.parse extra (before ++ s) (before.size + offset) =
      (p.parse extra s offset).map id (before.size + ·) := by
  rw [parse, parse]
  cases p.reader extra with
  | error e => rfl
  | ok read =>
      have same : readAt read (before ++ s) (before.size + offset) =
          (readAt read s offset).map fun found => (found.1, before.size + found.2) := by
        rw [readAt, readAt, Text.dropBytes?_append]
        cases Text.dropBytes? offset s with
        | none => rfl
        | some behind => cases h : read behind <;> simp [h, Nat.add_assoc]
      dsimp only
      rw [same]
      cases readAt read s offset <;> rfl

/-- A reader that finds a value finds it in front of any text that begins with the same character,
or is empty as well. -/
theorem read_of_head? {read : Reader} (hread : p.reader extra = .ok read) {word rest rest' : Text}
    {v : Value} (h : read (word ++ rest) = some (v, rest)) (ahead : rest'.head? = rest.head?) :
    read (word ++ rest') = some (v, rest') := by
  obtain ⟨w, takes, split⟩ := (reader_eq_some_iff hread).mp h
  obtain rfl : word = w := List.append_cancel_right split
  exact (reader_eq_some_iff hread).mpr ⟨word, by rwa [ahead], rfl⟩

theorem parse_of_agreeTo {s t : Text} {offset next : Nat} {v : Value}
    (h : p.parse extra s offset = (.ok v, next)) (agree : Text.AgreeTo next s t) :
    p.parse extra t offset = (.ok v, next) := by
  cases hread : p.reader extra with
  | error e => simp [parse, hread] at h
  | ok read =>
      obtain ⟨word, rest, found, ⟨before, rfl, rfl⟩, rfl⟩ := (parse_eq_ok_iff hread).mp h
      -- What stands before the value and the value itself are the bytes that the texts share.
      rw [← List.append_assoc, ← Text.size_append] at agree
      obtain ⟨rest', rfl, ahead⟩ := agree.exists_rest
      exact (parse_eq_ok_iff hread).mpr
        ⟨word, rest', read_of_head? hread found ahead, ⟨before, List.append_assoc .., rfl⟩, rfl⟩

/-! ### Main statement -/

variable (p extra)

/-- **Reading depends on the rest of the input only**, and of what stands behind a value only on the
first character.  A text in front moves the position and changes neither value nor error; a value is
found in every text that is the same up to the position behind it, and goes on with the same
character there or ends there as well. -/
theorem looks_one_ahead :
    (∀ before s offset, p.parse extra (before ++ s) (before.size + offset) =
      (p.parse extra s offset).map id (before.size + ·)) ∧
    ∀ s t offset v next, p.parse extra s offset = (.ok v, next) → Text.AgreeTo next s t →
      p.parse extra t offset = (.ok v, next) :=
  ⟨parse_append_add, fun _ _ _ _ _ => parse_of_agreeTo⟩

/-- The colon behind a time is taken with it, so that the character behind the colon is the one that
is looked at. -/
theorem looks_one_ahead_colon :
    let s : Text := "Oct 11 22:14:15:é1"
    let t : Text := "Oct 11 22:14:15:é"
    let time : Value := .timestamp (.wall none 10 11 ⟨22, 14, 15, 0⟩)
    wallTime.parse none s 0 = (.ok time, 16) ∧ Text.AgreeTo 16 s t ∧
      wallTime.parse none t 0 = (.ok time, 16) := by
  intro s t time
  have found : wallTime.parse none s 0 = (.ok time, 16) := by decide
  have agree : Text.AgreeTo 16 s t := ⟨by decide, by decide⟩
  exact ⟨found, agree, (looks_one_ahead wallTime none).2 s t 0 time 16 found agree⟩

/-- The character behind a value counts: a space ends a time with a zone, and a digit does not. -/
example :
    (zonedTime.parse none "1985-04-12T23:20:50Z x" 0).2 = 20 ∧
      zonedTime.parse none "1985-04-12T23:20:50Z5" 0 = (.error .wrongParser, 0) := by
  decide

end Primitive

end EventLog
