import EventLog.Proofs.Primitive.Number
import EventLog.Proofs.Time.Wall
import EventLog.Proofs.Time.Zoned

/-!
# What each kind takes

`Takes extra p w v next` is the grammar of primitive values, one kind after the other: `w` is what a
value `v` of the kind `p` is written as, where `next` stands behind it, a character or the end of
the input.  Nothing beyond `next` has a say.

* `reader_eq_some_iff`: a reader finds exactly what the grammar of its kind has.
-/

namespace EventLog

open Scan

namespace Primitive

/-! ### The grammar -/

/-- One number of an address. -/
def IsOctet (ds : Text) : Prop := Text.Numeral 1 3 ds ∧ Text.toNat ds ≤ 255

/-- Four texts with points between them. -/
def dotted (a b c d : Text) : Text := a ++ '.' :: (b ++ '.' :: (c ++ '.' :: d))

/-- Four numbers with points between them. -/
def IsAddress (word : Text) : Prop :=
  ∃ a b c d, (IsOctet a ∧ IsOctet b ∧ IsOctet c ∧ IsOctet d) ∧ word = dotted a b c d

/-- A real date of a year that four digits write. -/
def IsDate (word : Text) : Prop :=
  ∃ d : Date, (0 ≤ d.year ∧ d.year ≤ 9999) ∧ d.IsReal ∧ word = d.text

/-- A time of day with an hour between two bounds. -/
def IsClock (firstHour lastHour : Nat) (word : Text) : Prop :=
  ∃ c : Clock, (firstHour ≤ c.hour ∧ c.hour ≤ lastHour ∧ c.minute ≤ 59 ∧ c.second ≤ 59) ∧
    word = c.text

/-- What a value of a kind is written as, in front of a character or of the end. -/
def Takes (extra : Option Text) : Primitive → Text → Value → Option Char → Prop
  | number, w, v, next       =>
    (w ≠ [] ∧ ∀ c ∈ w, c.isDigit) ∧ next.all (fun c => !c.isDigit) ∧
      Text.toNat w ≤ maxNumber ∧ v = .number (Text.toNat w)
  | word, w, v, next         =>
    w ≠ [] ∧ ' ' ∉ w ∧ next.all (· = ' ') ∧ v = .string w
  | charTo, w, v, next       =>
    ∃ d, delimiter? extra = some d ∧ w ≠ [] ∧ d ∉ w ∧ next = some d ∧ v = .string w
  | quotedString, w, v, _    =>
    ∃ inner, '"' ∉ inner ∧ w = '"' :: (inner ++ ['"']) ∧ v = .string inner
  | ipv4, w, v, next         =>
    IsAddress w ∧ next.all (fun c => !c.isDigit) ∧ v = .string w
  | zonedTime, w, v, next    =>
    ∃ st : Stamp, st.IsValid ∧ next.all (· = ' ') ∧ w = st.text ∧
      v = .timestamp (.zoned st.moment)
  | wallTime, w, v, next     =>
    ∃ st : WallStamp, st.IsValid ∧ v = .timestamp st.time ∧
      (w = st.text ++ [':'] ∨ w = st.text ∧ next.all (fun c => !c.isDigit) ∧ next ≠ some ':')
  | isoDate, w, v, _         => IsDate w ∧ v = .string w
  | clock24, w, v, _         => IsClock 0 23 w ∧ v = .string w
  | clock12, w, v, _         => IsClock 1 12 w ∧ v = .string w

/-! ### Each reader -/

variable {extra : Option Text} {s rest : Text} {v : Value}

theorem readWord_takes :
    readWord s = some (v, rest) ↔ ∃ w, Takes extra word w v rest.head? ∧ s = w ++ rest := by
  constructor
  · intro h
    obtain ⟨w, r, rfl, noSpace, ends⟩ := Text.exists_upTo ' ' s
    rw [readWord, Text.takeWhile_ne_append noSpace ends, Text.dropWhile_ne_append noSpace ends] at h
    obtain ⟨nonempty, h⟩ := Option.ite_none_right_eq_some.mp h
    cases h
    exact ⟨w, ⟨nonempty, noSpace, ends, rfl⟩, rfl⟩
  · rintro ⟨w, ⟨nonempty, noSpace, ends, rfl⟩, rfl⟩
    rw [readWord, Text.takeWhile_ne_append noSpace ends, Text.dropWhile_ne_append noSpace ends]
    exact if_pos nonempty

theorem readTo_takes {d : Char} (hd : delimiter? extra = some d) :
    readTo d s = some (v, rest) ↔ ∃ w, Takes extra charTo w v rest.head? ∧ s = w ++ rest := by
  constructor
  · intro h
    obtain ⟨w, r, rfl, free, ends⟩ := Text.exists_upTo d s
    rw [readTo, Text.takeWhile_ne_append free ends, Text.dropWhile_ne_append free ends] at h
    obtain ⟨⟨nonempty, further⟩, h⟩ := Option.ite_none_right_eq_some.mp h
    cases h
    obtain ⟨c, r, rfl⟩ := List.exists_cons_of_ne_nil further
    obtain rfl : c = d := by simpa using ends
    exact ⟨w, ⟨c, hd, nonempty, free, rfl, rfl⟩, rfl⟩
  · rintro ⟨w, ⟨c, hc, nonempty, free, ends, rfl⟩, rfl⟩
    obtain rfl : c = d := Option.some.inj (hc.symm.trans hd)
    have follows : rest.head?.all (· = c) := by simp [ends]
    rw [readTo, Text.takeWhile_ne_append free follows, Text.dropWhile_ne_append free follows]
    exact if_pos ⟨nonempty, fun h => by simp [h] at ends⟩

theorem readQuoted_takes :
    readQuoted s = some (v, rest) ↔
      ∃ w, Takes extra quotedString w v rest.head? ∧ s = w ++ rest := by
  simp only [readQuoted, Option.bind_eq_bind, Option.bind_eq_some_iff, Option.pure_def,
    Option.some.injEq, Prod.mk.injEq, char?_eq_some_iff]
  constructor
  · rintro ⟨s, rfl, r, closed, rfl, rfl⟩
    obtain ⟨inner, behind, rfl, free, ends⟩ := Text.exists_upTo '"' s
    rw [Text.dropWhile_ne_append free ends] at closed
    subst closed
    rw [Text.takeWhile_ne_append free ends]
    exact ⟨_, ⟨inner, free, rfl, rfl⟩, by simp⟩
  · rintro ⟨w, ⟨inner, free, rfl, rfl⟩, rfl⟩
    have ends : ('"' :: rest).head?.all (· = '"') := rfl
    refine ⟨inner ++ '"' :: rest, by simp, rest, Text.dropWhile_ne_append free ends, ?_, rfl⟩
    rw [Text.takeWhile_ne_append free ends]

theorem octet?_eq_some_iff :
    octet? s = some rest ↔ ∃ ds, IsOctet ds ∧ rest.EndsDigits ∧ s = ds ++ rest := by
  simp only [octet?, Option.bind_eq_bind, Option.bind_eq_some_iff, Option.pure_def,
    Option.guard_eq_some', Option.some.injEq, Prod.exists, number?_eq_some_iff]
  constructor
  · rintro ⟨n, r, ⟨ds, numeral, ends, rfl, rfl⟩, -, small, rfl⟩
    exact ⟨ds, ⟨numeral, small⟩, ends, rfl⟩
  · rintro ⟨ds, ⟨numeral, small⟩, ends, rfl⟩
    exact ⟨_, rest, ⟨ds, numeral, ends, rfl, rfl⟩, (), small, rfl⟩

theorem dotted_append (a b c d r : Text) :
    dotted a b c d ++ r = a ++ '.' :: (b ++ '.' :: (c ++ '.' :: (d ++ r))) := by
  simp [dotted]

theorem readIpv4_takes :
    readIpv4 s = some (v, rest) ↔ ∃ w, Takes extra ipv4 w v rest.head? ∧ s = w ++ rest := by
  simp only [readIpv4, Option.bind_eq_bind, Option.bind_eq_some_iff, Option.pure_def,
    Option.some.injEq, Prod.mk.injEq, char?_eq_some_iff, octet?_eq_some_iff]
  constructor
  · rintro ⟨_, ⟨a, ha, -, rfl⟩, _, rfl, _, ⟨b, hb, -, rfl⟩, _, rfl, _, ⟨c, hc, -, rfl⟩, _, rfl, r,
      ⟨d, hd, ends, rfl⟩, rfl, rfl⟩
    rw [← dotted_append, taken_append]
    exact ⟨_, ⟨⟨a, b, c, d, ⟨ha, hb, hc, hd⟩, rfl⟩, ends, rfl⟩, rfl⟩
  · rintro ⟨_, ⟨⟨a, b, c, d, ⟨ha, hb, hc, hd⟩, rfl⟩, ends, rfl⟩, rfl⟩
    have point (r : Text) : Text.EndsDigits ('.' :: r) := Text.endsDigits_cons rfl r
    exact ⟨_, ⟨a, ha, point _, dotted_append a b c d rest⟩, _, rfl, _, ⟨b, hb, point _, rfl⟩, _,
      rfl, _, ⟨c, hc, point _, rfl⟩, _, rfl, rest, ⟨d, hd, ends, rfl⟩, by rw [taken_append], rfl⟩

theorem readZonedTime_takes :
    readZonedTime s = some (v, rest) ↔
      ∃ w, Takes extra zonedTime w v rest.head? ∧ s = w ++ rest := by
  rw [readZonedTime_eq_some_iff]
  constructor
  · rintro ⟨st, valid, ends, rfl, rfl⟩
    exact ⟨st.text, ⟨st, valid, ends, rfl, rfl⟩, rfl⟩
  · rintro ⟨_, ⟨st, valid, ends, rfl, rfl⟩, rfl⟩
    exact ⟨st, valid, ends, rfl, rfl⟩

/-- The colon behind a time is taken with it, so that it is no character behind it. -/
theorem readWallTime_takes :
    readWallTime s = some (v, rest) ↔ ∃ w, Takes extra wallTime w v rest.head? ∧ s = w ++ rest := by
  rw [readWallTime_eq_some_iff]
  constructor
  · rintro ⟨st, r, valid, ends, rfl, hrest, rfl⟩
    obtain rfl | ⟨rfl, other⟩ := skip_eq_iff.mp hrest.symm
    · exact ⟨_, ⟨st, valid, rfl, .inl rfl⟩, by simp⟩
    · exact ⟨_, ⟨st, valid, rfl, .inr ⟨rfl, ends, other⟩⟩, rfl⟩
  · rintro ⟨_, ⟨st, valid, rfl, rfl | ⟨rfl, ends, other⟩⟩, rfl⟩
    · exact ⟨st, ':' :: rest, valid, Text.endsDigits_cons rfl rest, by simp, rfl, rfl⟩
    · exact ⟨st, rest, valid, ends, rfl, (skip_eq_iff.mpr (.inr ⟨rfl, other⟩)).symm, rfl⟩

theorem readIsoDate_takes :
    readIsoDate s = some (v, rest) ↔ ∃ w, Takes extra isoDate w v rest.head? ∧ s = w ++ rest := by
  simp only [readIsoDate, Option.bind_eq_bind, Option.bind_eq_some_iff, Option.pure_def,
    Option.some.injEq, Prod.mk.injEq, Prod.exists, date?_eq_some_iff]
  constructor
  · rintro ⟨d, r, ⟨year, real, rfl⟩, rfl, rfl⟩
    exact ⟨d.text, ⟨⟨d, year, real, rfl⟩, by rw [taken_append]⟩, rfl⟩
  · rintro ⟨_, ⟨⟨d, year, real, rfl⟩, rfl⟩, rfl⟩
    exact ⟨d, rest, ⟨year, real, rfl⟩, by rw [taken_append], rfl⟩

theorem readClock_eq_some_iff {first last : Nat} (hlast : last < 100) :
    readClock first last s = some (v, rest) ↔
      ∃ w, (IsClock first last w ∧ v = .string w) ∧ s = w ++ rest := by
  simp only [readClock, Option.bind_eq_bind, Option.bind_eq_some_iff, Option.pure_def,
    Option.guard_eq_some', Option.some.injEq, Prod.mk.injEq, Prod.exists, clock?_eq_some_iff]
  constructor
  · rintro ⟨c, r, ⟨-, rfl⟩, -, bounds, rfl, rfl⟩
    exact ⟨c.text, ⟨⟨c, bounds, rfl⟩, by rw [taken_append]⟩, rfl⟩
  · rintro ⟨_, ⟨⟨c, bounds, rfl⟩, rfl⟩, rfl⟩
    -- A clock time is read as one of whole seconds; the fraction is not written.
    refine ⟨{ c with nanos := 0 }, rest, ⟨⟨?_, ?_, ?_, rfl⟩, rfl⟩, (), bounds, ?_, rfl⟩
    · exact Nat.lt_of_le_of_lt bounds.2.1 hlast
    · exact Nat.lt_of_le_of_lt bounds.2.2.1 (by decide)
    · exact Nat.lt_of_le_of_lt bounds.2.2.2 (by decide)
    · rw [taken_append]

/-! ### All readers -/

/-- **A reader finds exactly what the grammar of its kind has**, in front of what stands behind. -/
theorem reader_eq_some_iff {p : Primitive} {read : Reader} (hread : p.reader extra = .ok read) :
    read s = some (v, rest) ↔ ∃ w, p.Takes extra w v rest.head? ∧ s = w ++ rest := by
  cases p with
  | number => cases hread; exact readNumber_eq_some_iff
  | word => cases hread; exact readWord_takes
  | charTo =>
      rw [reader] at hread
      split at hread
      · next d hd =>
          cases hread
          exact readTo_takes hd
      · cases hread
  | quotedString => cases hread; exact readQuoted_takes
  | ipv4 => cases hread; exact readIpv4_takes
  | zonedTime => cases hread; exact readZonedTime_takes
  | wallTime => cases hread; exact readWallTime_takes
  | isoDate => cases hread; exact readIsoDate_takes
  | clock24 => cases hread; exact readClock_eq_some_iff (show 23 < 100 by decide)
  | clock12 => cases hread; exact readClock_eq_some_iff (show 12 < 100 by decide)

end Primitive

end EventLog
