import EventLog.Proofs.Primitive.Position
import EventLog.Proofs.Text.Numeral

/-!
# The steps of a reader

Each step that readers are made of takes a piece of a certain form from the front, and finds it
exactly where a text begins with such a piece.  `Primitive.parse_eq_ok_iff` says it of a whole
reader at a position of an input (`Text.StandsAt`).
-/

namespace EventLog

namespace Scan

variable {s rest : Text}

theorem char?_eq_some_iff {c : Char} : char? c s = some rest ↔ s = c :: rest := by
  cases s with
  | nil => simp [char?]
  | cons d s => simp [char?]

/-- What may be skipped is one character, and it is skipped if it is there. -/
theorem skip_eq_iff {c : Char} : skip c s = rest ↔ s = c :: rest ∨ s = rest ∧ s.head? ≠ some c := by
  cases s with
  | nil => simp [skip, char?]
  | cons d s =>
      by_cases h : d = c
      · simp [skip, char?, h]
      · simp [skip, char?, h]

/-- A number of fixed width is one filled with zeros. -/
theorem fixed?_eq_some_iff {n k : Nat} (hn : 0 < n) :
    fixed? n s = some (k, rest) ↔ k < 10 ^ n ∧ s = Text.zeroPadded n k ++ rest := by
  constructor
  · intro h
    obtain ⟨⟨length, digits⟩, h⟩ := Option.ite_none_right_eq_some.mp h
    cases h
    have numeral : Text.Numeral n n (s.take n) :=
      ⟨List.all_eq_true.mp digits, Nat.le_of_eq length.symm, Nat.le_of_eq length⟩
    obtain ⟨small, padded⟩ := (Text.numeral_iff_eq_zeroPadded hn).mp numeral
    exact ⟨small, by rw [← padded, List.take_append_drop]⟩
  · rintro ⟨small, rfl⟩
    have length := Text.length_zeroPadded hn small
    have digits := List.all_eq_true.mpr (Text.numeral_zeroPadded hn small).digits
    rw [fixed?, List.take_left' length, List.drop_left' length, if_pos ⟨length, digits⟩,
      Text.toNat_zeroPadded]

theorem run?_eq_some_iff {max : Nat} {ds : Text} :
    run? max s = some (ds, rest) ↔
      Text.Numeral 1 max ds ∧ Text.EndsDigits rest ∧ s = ds ++ rest := by
  constructor
  · intro h
    obtain ⟨⟨nonempty, most⟩, h⟩ := Option.ite_none_right_eq_some.mp h
    cases h
    exact ⟨⟨List.all_eq_true.mp List.all_takeWhile, List.length_pos_iff.mpr nonempty, most⟩,
      Text.endsDigits_dropWhile s, List.takeWhile_append_dropWhile.symm⟩
  · rintro ⟨numeral, ends, rfl⟩
    rw [run?, Text.takeWhile_isDigit_append numeral.digits ends,
      Text.dropWhile_isDigit_append numeral.digits ends]
    exact if_pos ⟨List.length_pos_iff.mp numeral.least, numeral.most⟩

theorem number?_eq_some_iff {max n : Nat} :
    number? max s = some (n, rest) ↔
      ∃ ds, Text.Numeral 1 max ds ∧ Text.EndsDigits rest ∧ s = ds ++ rest ∧ Text.toNat ds = n := by
  simp only [number?, Option.map_eq_some_iff, Prod.exists, run?_eq_some_iff, Prod.mk.injEq]
  constructor
  · rintro ⟨ds, r, ⟨numeral, ends, rfl⟩, rfl, rfl⟩
    exact ⟨ds, numeral, ends, rfl, rfl⟩
  · rintro ⟨ds, numeral, ends, rfl, rfl⟩
    exact ⟨ds, rest, ⟨numeral, ends, rfl⟩, rfl, rfl⟩

/-- What was taken is what stands before the rest. -/
theorem taken_append (word rest : Text) : taken (word ++ rest) rest = word := by
  simp [taken]

end Scan

/-! ### A piece of an input -/

namespace Text

/-- A piece of an input stands at a position, in front of some rest. -/
def StandsAt (input : Text) (offset : Nat) (word rest : Text) : Prop :=
  ∃ before, input = before ++ (word ++ rest) ∧ before.size = offset

theorem standsAt_zero (word : Text) : StandsAt word 0 word [] := ⟨[], by simp, rfl⟩

end Text

namespace Primitive

variable {p : Primitive} {extra : Option Text} {read : Reader}

/-- Reading at a position is reading what stands there. -/
theorem parse_append (hread : p.reader extra = .ok read) (before s : Text) :
    p.parse extra (before ++ s) before.size =
      match read s with
      | some (v, rest) => (.ok v, before.size + (s.size - rest.size))
      | none           => (.error .wrongParser, before.size) := by
  have behind : Text.dropBytes? before.size (before ++ s) = some s := by
    simpa using Text.dropBytes?_append before s 0
  simp only [parse, hread, readAt, behind, Option.bind_eq_bind, Option.bind_some]
  cases read s <;> rfl

/-- A reader that finds no value does not fit, and leaves the position where it is. -/
theorem parse_eq_wrongParser (hread : p.reader extra = .ok read) {input : Text} {offset : Nat}
    (h : ∀ v next, p.parse extra input offset ≠ (.ok v, next)) :
    p.parse extra input offset = (.error .wrongParser, offset) := by
  simp only [parse, hread] at h ⊢
  cases hfound : readAt read input offset with
  | none => rfl
  | some found => exact absurd (by rw [hfound]) (h found.1 found.2)

/-- A value is found where a piece stands that the reader takes; the position moves behind it. -/
theorem parse_eq_ok_iff (hread : p.reader extra = .ok read) {input : Text} {offset next : Nat}
    {v : Value} :
    p.parse extra input offset = (.ok v, next) ↔
      ∃ word rest, read (word ++ rest) = some (v, rest) ∧ input.StandsAt offset word rest ∧
        next = offset + word.size := by
  constructor
  · intro h
    obtain ⟨before, s, rfl, rfl⟩ : ∃ before s, input = before ++ s ∧ before.size = offset := by
      obtain ⟨front, word, rest, -, hinput, -, hfront, -⟩ | ⟨e, herror⟩ :=
        parse_cases extra input offset p
      · exact ⟨front, word ++ rest, hinput, hfront⟩
      · rw [herror] at h
        cases h
    rw [parse_append hread] at h
    cases hs : read s with
    | none => rw [hs] at h; cases h
    | some found =>
        obtain ⟨v', rest⟩ := found
        rw [hs] at h
        cases h
        obtain ⟨word, -, rfl⟩ := took_of_reader hread hs
        exact ⟨word, rest, hs, ⟨before, rfl, rfl⟩, by simp⟩
  · rintro ⟨word, rest, hs, ⟨before, rfl, rfl⟩, rfl⟩
    rw [parse_append hread, hs]
    simp

end Primitive

end EventLog
