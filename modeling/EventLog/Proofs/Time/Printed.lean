import EventLog.Proofs.Time.Zoned
import EventLog.Proofs.Time.Wall

/-!
# Timestamps that are printed

The text of a timestamp that was read is again the text of a valid stamp: of `Stamp.printed` and
`WallStamp.printed`, which have the numbers of the stamp that was read and write each in the one way
that the printer has.

* `Primitive.parse_text_of_parse`: reading the text gives the timestamp again.
-/

namespace EventLog

open Scan WallStamp

/-! ### With a zone -/

theorem fractionNanos_lt {fraction : Option Text} (h : ∀ ds ∈ fraction, Text.Numeral 1 9 ds) :
    fractionNanos fraction < 10 ^ 9 := by
  cases fraction with
  | none => decide
  | some ds =>
      have numeral := h ds rfl
      calc
        Text.toNat ds * 10 ^ (9 - ds.length) < 10 ^ ds.length * 10 ^ (9 - ds.length) :=
          Nat.mul_lt_mul_of_pos_right (Text.toNat_lt numeral.digits) (Nat.pow_pos (by decide))
        _ = 10 ^ 9 := by rw [← Nat.pow_add, Nat.add_sub_cancel' numeral.most]

/-- The fraction that is printed: of 3, 6 or 9 digits, whichever is the least that is exact. -/
def shortestFraction (nanos : Nat) : Option Text :=
  if nanos = 0 then none
  else if nanos % 1000000 = 0 then some (Text.zeroPadded 3 (nanos / 1000000))
  else if nanos % 1000 = 0 then some (Text.zeroPadded 6 (nanos / 1000))
  else some (Text.zeroPadded 9 nanos)

theorem fractionText_shortest (c : Clock) :
    fractionText (shortestFraction c.nanos) = c.fractionText := by
  rw [shortestFraction, Clock.fractionText]
  split_ifs <;> rfl

/-- A number of nanoseconds is a fraction of as many digits as leave no remainder. -/
theorem fraction_zeroPadded {n : Nat} (places : Nat) (pos : 0 < places) (most : places ≤ 9)
    (h : n < 10 ^ 9) (exact : n % 10 ^ (9 - places) = 0) :
    let ds := Text.zeroPadded places (n / 10 ^ (9 - places))
    Text.Numeral 1 9 ds ∧ fractionNanos (.some ds) = n := by
  have small : n / 10 ^ (9 - places) < 10 ^ places := by
    rwa [Nat.div_lt_iff_lt_mul (Nat.pow_pos (by decide)), ← Nat.pow_add, Nat.add_sub_cancel' most]
  have numeral := Text.numeral_zeroPadded pos small
  refine ⟨⟨numeral.digits, Nat.le_trans pos numeral.least, Nat.le_trans numeral.most most⟩, ?_⟩
  rw [fractionNanos, Text.toNat_zeroPadded, Text.length_zeroPadded pos small,
    Nat.div_mul_cancel (Nat.dvd_of_mod_eq_zero exact)]

theorem shortestFraction_spec {n : Nat} (h : n < 10 ^ 9) :
    (∀ ds ∈ shortestFraction n, Text.Numeral 1 9 ds) ∧ fractionNanos (shortestFraction n) = n := by
  rw [shortestFraction]
  split_ifs with zero millis micros
  · exact ⟨nofun, zero.symm⟩
  · obtain ⟨numeral, value⟩ := fraction_zeroPadded 3 (by decide) (by decide) h millis
    exact ⟨by rintro _ ⟨⟩; exact numeral, value⟩
  · obtain ⟨numeral, value⟩ := fraction_zeroPadded 6 (by decide) (by decide) h micros
    exact ⟨by rintro _ ⟨⟩; exact numeral, value⟩
  · obtain ⟨numeral, value⟩ := fraction_zeroPadded 9 (by decide) (by decide) h (Nat.mod_one n)
    rw [Nat.sub_self, Nat.pow_zero, Nat.div_one] at numeral value
    exact ⟨by rintro _ ⟨⟩; exact numeral, value⟩

namespace Zone

/-- The zone that is printed: UTC has no sign. -/
def printed (z : Zone) : Zone := if z.seconds = 0 then utc else z

theorem seconds_printed (z : Zone) : z.printed.seconds = z.seconds := by
  rw [printed]
  split_ifs with h
  · exact h.symm
  · rfl

theorem isValid_printed {z : Zone} (h : z.IsValid) : z.printed.IsValid := by
  rw [printed]
  split_ifs
  · trivial
  · exact h

/-- An offset is rounded to the nearest minute, which changes no whole one. -/
theorem offsetText_eq {hours minutes : Nat} (h : minutes ≤ 59) {offset : Int}
    (size : offset.natAbs = 3600 * hours + 60 * minutes) :
    Moment.offsetText offset = (if offset < 0 then '-' else '+') :: sizeText hours minutes := by
  have rounded : (offset.natAbs + 30) / 60 = 60 * hours + minutes := by omega
  have whole : (60 * hours + minutes) / 60 = hours := by omega
  have left : (60 * hours + minutes) % 60 = minutes := by omega
  simp [Moment.offsetText, sizeText, rounded, whole, left]

theorem offsetText_seconds {z : Zone} (h : z.IsValid) (away : z.seconds ≠ 0) :
    Moment.offsetText z.seconds = z.text := by
  cases z with
  | utc => exact absurd rfl away
  | ahead hours minutes =>
      have size : (ahead hours minutes).seconds.natAbs = 3600 * hours + 60 * minutes := by
        simp only [seconds]; omega
      have later : ¬ (ahead hours minutes).seconds < 0 := by simp only [seconds]; omega
      rw [offsetText_eq h.2 size, if_neg later, text]
  | behind hours minutes =>
      have size : (behind hours minutes).seconds.natAbs = 3600 * hours + 60 * minutes := by
        simp only [seconds]; omega
      have earlier : (behind hours minutes).seconds < 0 := by simp only [seconds] at away ⊢; omega
      rw [offsetText_eq h.2 size, if_pos earlier, text]

theorem text_printed {z : Zone} (h : z.IsValid) :
    (if z.seconds = 0 then ['Z'] else Moment.offsetText z.seconds) = z.printed.text := by
  rw [printed]
  by_cases utc : z.seconds = 0
  · rw [if_pos utc, if_pos utc]
    rfl
  · rw [if_neg utc, if_neg utc]
    exact offsetText_seconds h utc

end Zone

namespace Stamp

variable {st : Stamp}

/-- The stamp that is printed for a stamp that was read. -/
def printed (st : Stamp) : Stamp :=
  { st with fraction := shortestFraction (fractionNanos st.fraction), zone := st.zone.printed }

theorem isValid_printed (h : st.IsValid) : st.printed.IsValid where
  year := h.year
  date := h.date
  time := h.time
  fraction := (shortestFraction_spec (fractionNanos_lt h.fraction)).1
  zone := Zone.isValid_printed h.zone

theorem moment_printed (h : st.IsValid) : st.printed.moment = st.moment := by
  have nanos := (shortestFraction_spec (fractionNanos_lt h.fraction)).2
  simp only [moment, printed, nanos, Zone.seconds_printed]

theorem text_moment (h : st.IsValid) : st.moment.text = st.printed.text := by
  have year : Moment.yearText st.date.year = Text.zeroPadded 4 st.date.year.toNat := if_pos h.year
  have fraction : fractionText (shortestFraction (fractionNanos st.fraction)) =
      Clock.fractionText ⟨st.hour, st.minute, st.second, fractionNanos st.fraction⟩ :=
    fractionText_shortest ⟨st.hour, st.minute, st.second, fractionNanos st.fraction⟩
  have front : st.moment.clockText = st.date.text ++ 'T' ::
      Clock.text ⟨st.hour, st.minute, st.second, 0⟩ ++
      fractionText (shortestFraction (fractionNanos st.fraction)) := by
    simp [Moment.clockText, moment, year, fraction, Date.text, Clock.text]
  rw [Moment.text, front]
  exact congrArg _ (Zone.text_printed h.zone)

end Stamp

/-! ### Without a zone -/

namespace WallStamp

variable {st : WallStamp}

/-- The stamp that is printed for a stamp that was read. -/
def printed (st : WallStamp) : WallStamp where
  month := st.month
  name := Timestamp.monthName st.month
  padded := (Text.ofNat (Text.toNat st.day)).length < 2
  day := Text.ofNat (Text.toNat st.day)
  year := st.year.map fun ds => Text.ofNat (Text.toNat ds)
  hour := Text.zeroPadded 2 (Text.toNat st.hour)
  minute := Text.zeroPadded 2 (Text.toNat st.minute)
  second := Text.zeroPadded 2 (Text.toNat st.second)

/-- Two digits write every number that a time of day has. -/
theorem numeral_twoDigits {n most : Nat} (h : n ≤ 60) (two : 2 ≤ most) :
    Text.Numeral 1 most (Text.zeroPadded 2 n) := by
  have numeral := Text.numeral_zeroPadded (n := 2) (by decide) (Nat.lt_of_le_of_lt h (by decide))
  exact ⟨numeral.digits, Nat.le_trans (by decide) numeral.least, Nat.le_trans numeral.most two⟩

theorem isValid_printed (h : st.IsValid) : st.printed.IsValid where
  month := h.month
  name := rfl
  day := by
    have small : Text.toNat st.day < 10 ^ 2 := Nat.lt_of_le_of_lt h.day.2.2 (by decide)
    rw [printed, Text.toNat_ofNat]
    exact ⟨Text.numeral_ofNat (by decide) small, h.day.2⟩
  year := by
    intro ds hds
    obtain ⟨year, hyear, rfl⟩ := Option.map_eq_some_iff.mp hds
    obtain ⟨-, range⟩ := h.year year hyear
    rw [Primitive.isYear_iff, Text.toNat_ofNat]
    exact ⟨Text.numeral_ofNat (by decide) (Nat.lt_of_le_of_lt range.2 (by decide)), range⟩
  hour := by
    have width : 2 ≤ hourWidth st.printed.year := by cases st.printed.year <;> simp [hourWidth]
    rw [printed, Text.toNat_zeroPadded]
    exact ⟨numeral_twoDigits (Nat.le_trans h.hour.2 (by decide)) width, h.hour.2⟩
  minute := by
    rw [printed, Text.toNat_zeroPadded]
    exact ⟨numeral_twoDigits (Nat.le_trans h.minute.2 (by decide)) (Nat.le_refl 2), h.minute.2⟩
  second := by
    rw [printed, Text.toNat_zeroPadded]
    exact ⟨numeral_twoDigits h.second.2 (Nat.le_refl 2), h.second.2⟩

theorem time_printed (st : WallStamp) : st.printed.time = st.time := by
  cases hyear : st.year <;> simp [time, printed, hyear, yearNumber]

theorem text_time (h : st.IsValid) : st.time.text = st.printed.text := by
  have days : Text.Numeral 1 2 (Text.ofNat (Text.toNat st.day)) :=
    Text.numeral_ofNat (by decide) (Nat.lt_of_le_of_lt h.day.2.2 (by decide))
  have blank : List.replicate (2 - (Text.ofNat (Text.toNat st.day)).length) ' ' =
      padding ((Text.ofNat (Text.toNat st.day)).length < 2) := by
    obtain one | two : (Text.ofNat (Text.toNat st.day)).length = 1 ∨
        (Text.ofNat (Text.toNat st.day)).length = 2 := by
      have := days.least
      have := days.most
      omega
    · rw [one]; rfl
    · rw [two]; rfl
  cases hyear : st.year with
  | none =>
      simp [Timestamp.text, time, text, printed, blank, hyear, yearNumber, yearText, Clock.text]
  | some ds =>
      simp [Timestamp.text, time, text, printed, blank, hyear, yearNumber, yearText, Clock.text,
        Text.ofInt]

end WallStamp

/-! ### Main statement -/

namespace Primitive

/-- **Timestamps survive being printed.**  The text of a timestamp that was read is read as a whole,
and gives the timestamp again. -/
theorem parse_text_of_parse {p : Primitive} (timestamps : p = zonedTime ∨ p = wallTime)
    {extra : Option Text} {input : Text} {offset next : Nat} {v : Value}
    (h : p.parse extra input offset = (.ok v, next)) (extra' : Option Text) :
    p.parse extra' v.text 0 = (.ok v, v.text.size) := by
  obtain rfl | rfl := timestamps
  · obtain ⟨st, -, valid, -, -, rfl, -⟩ := (parse_zonedTime_eq_ok_iff extra input offset).mp h
    have printed : (Value.timestamp (.zoned st.moment)).text = st.printed.text :=
      Stamp.text_moment valid
    rw [printed, parse_zonedTime_eq_ok_iff]
    exact ⟨st.printed, [], Stamp.isValid_printed valid, Text.standsAt_zero _, rfl,
      by rw [Stamp.moment_printed valid], (Nat.zero_add _).symm⟩
  · obtain ⟨st, valid, rfl⟩ := exists_wallStamp h
    have printed : (Value.timestamp st.time).text = st.printed.text := WallStamp.text_time valid
    rw [printed, parse_eq_ok_iff (p := wallTime) rfl]
    refine ⟨st.printed.text, [], ?_, Text.standsAt_zero _, (Nat.zero_add _).symm⟩
    exact readWallTime_eq_some_iff.mpr ⟨st.printed, [], WallStamp.isValid_printed valid, rfl, rfl,
      rfl, by rw [WallStamp.time_printed]⟩

/-- Two digits of a fraction become three and the zone loses its sign; numbers of one digit are
filled with zeros, but the day with a space. -/
theorem parse_text_of_parse_leap :
    let zoned : Value := .timestamp (.zoned ⟨⟨2003, 2, 28⟩, ⟨22, 14, 60, 120000000⟩, 0⟩)
    let wall : Value := .timestamp (.wall (some 2010) 1 5 ⟨1, 2, 60, 0⟩)
    zonedTime.parse none "2003-02-28T22:14:60.12-00:00 x" 0 = (.ok zoned, 28) ∧
      wallTime.parse none "at jAN 05 2010 1:2:60: x" 3 = (.ok wall, 22) ∧
      zoned.text = "2003-02-28T22:14:60.120Z".toList ∧ wall.text = "Jan  5 2010 01:02:60".toList ∧
      zonedTime.parse none zoned.text 0 = (.ok zoned, zoned.text.size) ∧
      wallTime.parse none wall.text 0 = (.ok wall, wall.text.size) := by
  intro zoned wall
  have first : zonedTime.parse none "2003-02-28T22:14:60.12-00:00 x" 0 = (.ok zoned, 28) := by
    decide
  have second : wallTime.parse none "at jAN 05 2010 1:2:60: x" 3 = (.ok wall, 22) := by decide
  exact ⟨first, second, by decide, by decide, parse_text_of_parse (.inl rfl) first none,
    parse_text_of_parse (.inr rfl) second none⟩

end Primitive

end EventLog
