import EventLog.Proofs.Primitive.Steps

/-!
# Numbers

A number is read from all the digits at the front of a text, however many of them are zeros that
stand before the others, and is refused if it is above the greatest number.

* `Primitive.readNumber_eq_some_iff`: what is read from the front of a text.
* `Primitive.reads_numbers`: the same at a position of an input, and numbers that were printed.
-/

namespace EventLog.Primitive

/-! ### Digits at the front -/

/-- Some digits, with no digit behind them, of a number that is not above the greatest one. -/
theorem readNumber_eq_some_iff {s rest : Text} {v : Value} :
    readNumber s = some (v, rest) ↔
      ∃ ds, ((ds ≠ [] ∧ ∀ c ∈ ds, c.isDigit) ∧ rest.EndsDigits ∧ Text.toNat ds ≤ maxNumber ∧
        v = .number (Text.toNat ds)) ∧ s = ds ++ rest := by
  constructor
  · intro h
    obtain ⟨⟨nonempty, small⟩, h⟩ := Option.ite_none_right_eq_some.mp h
    cases h
    exact ⟨_, ⟨⟨nonempty, List.all_eq_true.mp List.all_takeWhile⟩, Text.endsDigits_dropWhile s,
      small, rfl⟩, List.takeWhile_append_dropWhile.symm⟩
  · rintro ⟨ds, ⟨⟨nonempty, digits⟩, ends, small, rfl⟩, rfl⟩
    rw [readNumber, Text.takeWhile_isDigit_append digits ends,
      Text.dropWhile_isDigit_append digits ends]
    exact if_pos ⟨nonempty, small⟩

/-- What was printed is read back in front of anything but a digit. -/
theorem readNumber_text {n : Nat} (small : n ≤ maxNumber) {rest : Text} (ends : rest.EndsDigits) :
    readNumber ((Value.number n).text ++ rest) = some (.number n, rest) := by
  refine readNumber_eq_some_iff.mpr ⟨Text.ofNat n, ⟨⟨?_, ?_⟩, ends, ?_, ?_⟩, rfl⟩
  · exact List.length_pos_iff.mp Nat.length_toDigits_pos
  · exact fun c hc => Text.isDigit_of_mem_ofNat hc
  · rwa [Text.toNat_ofNat]
  · rw [Text.toNat_ofNat]

/-! ### Main statement -/

variable (extra : Option Text) (input : Text) (offset : Nat)

/-- **A number is read** exactly where a digit stands, from all digits that follow one another
there, if it is at most 2^63 - 1; otherwise the position does not fit and stays.  A number up to
that one is read back from its text in front of anything but a digit. -/
theorem reads_numbers :
    (∀ v next, number.parse extra input offset = (.ok v, next) ↔
      ∃ ds rest, input.StandsAt offset ds rest ∧ (ds ≠ [] ∧ ∀ c ∈ ds, c.isDigit) ∧
        rest.EndsDigits ∧ Text.toNat ds ≤ 2 ^ 63 - 1 ∧ v = .number (Text.toNat ds) ∧
        next = offset + ds.size) ∧
    ((∀ v next, number.parse extra input offset ≠ (.ok v, next)) →
      number.parse extra input offset = (.error .wrongParser, offset)) ∧
    ∀ (n : Nat) (rest : Text), n ≤ 2 ^ 63 - 1 → rest.EndsDigits →
      number.parse extra ((Value.number n).text ++ rest) 0 =
        (.ok (.number n), (Value.number n).text.size) := by
  refine ⟨fun v next => ?_, parse_eq_wrongParser (p := number) rfl, fun n rest small ends => ?_⟩
  · rw [parse_eq_ok_iff (p := number) rfl]
    simp only [readNumber_eq_some_iff]
    constructor
    · rintro ⟨word, rest, ⟨ds, ⟨digits, ends, small, rfl⟩, hword⟩, stands, rfl⟩
      obtain rfl : word = ds := List.append_cancel_right hword
      exact ⟨word, rest, stands, digits, ends, small, rfl, rfl⟩
    · rintro ⟨ds, rest, stands, digits, ends, small, rfl, rfl⟩
      exact ⟨ds, rest, ⟨ds, ⟨digits, ends, small, rfl⟩, rfl⟩, stands, rfl⟩
  · exact (parse_eq_ok_iff (p := number) rfl).mpr
      ⟨_, rest, readNumber_text small ends, ⟨[], rfl, rfl⟩, (Nat.zero_add _).symm⟩

/-- The greatest number, behind zeros and as it is printed. -/
theorem reads_numbers_greatest :
    let input : Text := "é 0009223372036854775807 x"
    number.parse none input 3 = (.ok (.number 9223372036854775807), 25) ∧
      number.parse none ((Value.number 9223372036854775807).text ++ ['é']) 0 =
        (.ok (.number 9223372036854775807), 19) := by
  intro input
  obtain ⟨read, -, printed⟩ := reads_numbers none input 3
  refine ⟨(read _ _).mpr ⟨"0009223372036854775807".toList, [' ', 'x'], ?_⟩, ?_⟩
  · exact ⟨⟨['é', ' '], by decide, by decide⟩, ⟨by decide, List.all_eq_true.mp (by decide)⟩,
      Text.endsDigits_cons rfl _, by decide, by decide, by decide⟩
  · exact printed 9223372036854775807 ['é'] (by decide) (Text.endsDigits_cons rfl _)

/-- One more than the greatest number is refused, and so is a position inside of a character. -/
example :
    number.parse none "9223372036854775808" 0 = (.error .wrongParser, 0) ∧
      number.parse none "é1" 1 = (.error .wrongParser, 1) := by
  decide

end EventLog.Primitive
