import EventLog.Proofs.Primitive.Steps
import EventLog.Proofs.Time.Days

/-!
# Dates and times with a zone

A `Stamp` has the parts of a date and time with a zone as they are written, its text puts them one
behind the other, and it is valid if the calendar has the date and the clock the time.

* `Primitive.readZonedTime_eq_some_iff`: what is read from the front of a text is a valid stamp, a
  space or the end behind it.
* `Primitive.reads_stamps`: the same at a position of an input, and the instant that a stamp is.
-/

namespace EventLog

open Scan

/-! ### The parts and their text -/

/-- `YYYY-MM-DD`. -/
def Date.text (d : Date) : Text :=
  Text.zeroPadded 4 d.year.toNat ++ '-' :: Text.zeroPadded 2 d.month ++
    '-' :: Text.zeroPadded 2 d.day

/-- A zone as it is written: for UTC alone, or how far its clock is ahead of UTC or behind it. -/
inductive Zone where
  | utc
  | ahead (hours minutes : Nat)
  | behind (hours minutes : Nat)
deriving Repr, DecidableEq

namespace Zone

/-- `hh:mm`. -/
def sizeText (hours minutes : Nat) : Text :=
  Text.zeroPadded 2 hours ++ ':' :: Text.zeroPadded 2 minutes

/-- `Z`, or a sign and `hh:mm`. -/
def text : Zone → Text
  | utc                  => ['Z']
  | ahead hours minutes  => '+' :: sizeText hours minutes
  | behind hours minutes => '-' :: sizeText hours minutes

/-- The seconds by which a clock in the zone is ahead of UTC. -/
def seconds : Zone → Int
  | utc                  => 0
  | ahead hours minutes  => 3600 * hours + 60 * minutes
  | behind hours minutes => -(3600 * hours + 60 * minutes)

/-- Less than a day, and no more minutes than an hour has. -/
def IsValid : Zone → Prop
  | utc => True
  | ahead hours minutes | behind hours minutes => hours ≤ 23 ∧ minutes ≤ 59

instance (z : Zone) : Decidable z.IsValid := by cases z <;> unfold IsValid <;> infer_instance

end Zone

/-- The digits behind a point, or nothing. -/
def fractionText : Option Text → Text
  | none    => []
  | some ds => '.' :: ds

/-- The nanoseconds of a fraction of up to nine digits. -/
def fractionNanos : Option Text → Nat
  | none    => 0
  | some ds => Text.toNat ds * 10 ^ (9 - ds.length)

/-- A date and time with a zone as it is written. -/
structure Stamp where
  date : Date
  hour : Nat
  minute : Nat
  second : Nat
  /-- The digits behind the point, if there is a point. -/
  fraction : Option Text
  zone : Zone
deriving Repr, DecidableEq

namespace Stamp

/-- `YYYY-MM-DDThh:mm:ss`, the fraction and the zone. -/
def text (st : Stamp) : Text :=
  st.date.text ++ 'T' :: Clock.text ⟨st.hour, st.minute, st.second, 0⟩ ++
    fractionText st.fraction ++ st.zone.text

/-- A real date of a year that four digits write, a time of day that may be a leap second, and at
most nine digits of a fraction. -/
structure IsValid (st : Stamp) : Prop where
  year : 0 ≤ st.date.year ∧ st.date.year ≤ 9999
  date : st.date.IsReal
  time : st.hour ≤ 23 ∧ st.minute ≤ 59 ∧ st.second ≤ 60
  fraction : ∀ ds ∈ st.fraction, Text.Numeral 1 9 ds
  zone : st.zone.IsValid

/-- The moment that a stamp denotes. -/
def moment (st : Stamp) : Moment :=
  ⟨st.date, ⟨st.hour, st.minute, st.second, fractionNanos st.fraction⟩, st.zone.seconds⟩

end Stamp

namespace Primitive

variable {s rest : Text}

/-! ### Reading the parts -/

theorem date?_eq_some_iff {d : Date} :
    date? s = some (d, rest) ↔
      (0 ≤ d.year ∧ d.year ≤ 9999) ∧ d.IsReal ∧ s = d.text ++ rest := by
  simp only [date?, Option.bind_eq_bind, Option.bind_eq_some_iff, Prod.exists, Option.pure_def,
    Option.guard_eq_some', Option.some.injEq, Prod.mk.injEq, char?_eq_some_iff,
    fixed?_eq_some_iff (show 0 < 4 by decide), fixed?_eq_some_iff (show 0 < 2 by decide)]
  constructor
  · rintro ⟨year, _, ⟨hyear, rfl⟩, _, rfl, month, _, ⟨hmonth, rfl⟩, _, rfl, day, _, ⟨hday, rfl⟩, -,
      real, rfl, rfl⟩
    exact ⟨⟨Int.natCast_nonneg year, Int.ofNat_le.mpr (Nat.le_of_lt_succ hyear)⟩, real,
      by simp [Date.text]⟩
  · rintro ⟨⟨hyear, hlast⟩, real, rfl⟩
    obtain ⟨year, hy⟩ := Int.eq_ofNat_of_zero_le hyear
    have month : d.month ≤ 12 := real.2.1
    have day : d.day ≤ 31 := Nat.le_trans real.2.2.2 (Date.daysInMonth_bounds real.1 month).2
    refine ⟨year, _, ⟨by omega, ?_⟩, _, rfl, d.month, _, ⟨by omega, rfl⟩, _, rfl, d.day, rest,
      ⟨by omega, rfl⟩, (), hy ▸ real, ?_, rfl⟩
    · simp [Date.text, hy]
    · rw [← hy]

theorem clock?_eq_some_iff {c : Clock} :
    clock? s = some (c, rest) ↔
      (c.hour < 100 ∧ c.minute < 100 ∧ c.second < 100 ∧ c.nanos = 0) ∧ s = c.text ++ rest := by
  simp only [clock?, Option.bind_eq_bind, Option.bind_eq_some_iff, Prod.exists, Option.pure_def,
    Option.some.injEq, Prod.mk.injEq, char?_eq_some_iff, fixed?_eq_some_iff (show 0 < 2 by decide)]
  constructor
  · rintro ⟨hour, _, ⟨hhour, rfl⟩, _, rfl, minute, _, ⟨hminute, rfl⟩, _, rfl, second, _,
      ⟨hsecond, rfl⟩, rfl, rfl⟩
    exact ⟨⟨hhour, hminute, hsecond, rfl⟩, by simp [Clock.text]⟩
  · rintro ⟨⟨hhour, hminute, hsecond, hnanos⟩, rfl⟩
    refine ⟨c.hour, _, ⟨hhour, ?_⟩, _, rfl, c.minute, _, ⟨hminute, rfl⟩, _, rfl, c.second, rest,
      ⟨hsecond, rfl⟩, ?_, rfl⟩
    · simp [Clock.text]
    · rw [← hnanos]

theorem exists_fraction {n : Nat} (h : fraction? s = some (n, rest)) :
    ∃ fraction, (∀ ds ∈ fraction, Text.Numeral 1 9 ds) ∧ s = fractionText fraction ++ rest ∧
      n = fractionNanos fraction := by
  rw [fraction?] at h
  split at h
  · cases h
    exact ⟨none, by simp, rfl, rfl⟩
  · next r point =>
      obtain ⟨⟨ds, r'⟩, hrun, h⟩ := Option.bind_eq_some_iff.mp h
      cases h
      obtain ⟨numeral, -, rfl⟩ := run?_eq_some_iff.mp hrun
      exact ⟨some ds, by simpa using numeral, char?_eq_some_iff.mp point, rfl⟩

/-- A fraction is read as a whole if no digit follows, and a missing one if no point does. -/
theorem fraction?_append {fraction : Option Text} (h : ∀ ds ∈ fraction, Text.Numeral 1 9 ds)
    (digit : Text.EndsDigits rest) (point : rest.head? ≠ some '.') :
    fraction? (fractionText fraction ++ rest) = some (fractionNanos fraction, rest) := by
  cases fraction with
  | none =>
      have nothing : char? '.' rest = none := by
        refine Option.eq_none_iff_forall_ne_some.mpr fun r hr => point ?_
        rw [char?_eq_some_iff.mp hr]
        rfl
      rw [fractionText, List.nil_append, fraction?, nothing]
      rfl
  | some ds =>
      have run : run? 9 (ds ++ rest) = some (ds, rest) :=
        run?_eq_some_iff.mpr ⟨h ds rfl, digit, rfl⟩
      have begun : char? '.' ('.' :: (ds ++ rest)) = some (ds ++ rest) := char?_eq_some_iff.mpr rfl
      rw [fractionText, List.cons_append, fraction?, begun]
      simp [run, fractionNanos]

theorem zoneSize?_eq_some_iff {n : Nat} :
    zoneSize? s = some (n, rest) ↔
      ∃ hours minutes, (hours ≤ 23 ∧ minutes ≤ 59) ∧ s = Zone.sizeText hours minutes ++ rest ∧
        n = 3600 * hours + 60 * minutes := by
  simp only [zoneSize?, Option.bind_eq_bind, Option.bind_eq_some_iff, Prod.exists, Option.pure_def,
    Option.guard_eq_some', Option.some.injEq, Prod.mk.injEq, char?_eq_some_iff,
    fixed?_eq_some_iff (show 0 < 2 by decide)]
  constructor
  · rintro ⟨hours, _, ⟨-, rfl⟩, _, rfl, minutes, _, ⟨-, rfl⟩, -, bounds, rfl, rfl⟩
    exact ⟨hours, minutes, bounds, by simp [Zone.sizeText], by omega⟩
  · rintro ⟨hours, minutes, bounds, rfl, rfl⟩
    refine ⟨hours, _, ⟨by omega, ?_⟩, _, rfl, minutes, rest, ⟨by omega, rfl⟩, (), bounds, by omega,
      rfl⟩
    simp [Zone.sizeText]

theorem zone?_eq_some_iff {offset : Int} :
    zone? s = some (offset, rest) ↔
      ∃ z : Zone, z.IsValid ∧ s = z.text ++ rest ∧ offset = z.seconds := by
  constructor
  · intro h
    rw [zone?.eq_def] at h
    split at h
    · cases h
      exact ⟨.utc, trivial, rfl, rfl⟩
    · obtain ⟨⟨n, r⟩, hn, h⟩ := Option.map_eq_some_iff.mp h
      cases h
      obtain ⟨hours, minutes, bounds, rfl, rfl⟩ := zoneSize?_eq_some_iff.mp hn
      exact ⟨.ahead hours minutes, bounds, rfl, by simp [Zone.seconds]⟩
    · obtain ⟨⟨n, r⟩, hn, h⟩ := Option.map_eq_some_iff.mp h
      cases h
      obtain ⟨hours, minutes, bounds, rfl, rfl⟩ := zoneSize?_eq_some_iff.mp hn
      exact ⟨.behind hours minutes, bounds, rfl, by simp [Zone.seconds]⟩
    · cases h
  · rintro ⟨z, valid, rfl, rfl⟩
    cases z with
    | utc => rfl
    | ahead hours minutes | behind hours minutes =>
        have size : zoneSize? (Zone.sizeText hours minutes ++ rest) = _ :=
          zoneSize?_eq_some_iff.mpr ⟨hours, minutes, valid, rfl, rfl⟩
        rw [Zone.text, List.cons_append, zone?, size]
        simp [Zone.seconds]

/-! ### Reading a stamp -/

theorem readZonedTime_eq_some_iff {v : Value} :
    readZonedTime s = some (v, rest) ↔
      ∃ st : Stamp, st.IsValid ∧ rest.head?.all (· = ' ') ∧ s = st.text ++ rest ∧
        v = .timestamp (.zoned st.moment) := by
  simp only [readZonedTime, Option.bind_eq_bind, Option.bind_eq_some_iff, Prod.exists,
    Option.pure_def, Option.guard_eq_some', Option.some.injEq, Prod.mk.injEq, char?_eq_some_iff,
    date?_eq_some_iff, clock?_eq_some_iff, zone?_eq_some_iff]
  constructor
  · rintro ⟨date, _, ⟨year, real, rfl⟩, _, rfl, ⟨hour, minute, second, nanos⟩, _,
      ⟨⟨-, -, -, hnanos⟩, rfl⟩, n, _, hfraction, offset, _, ⟨zone, hzone, rfl, rfl⟩, -, ends, -,
      time, rfl, rfl⟩
    obtain ⟨fraction, digits, rfl, rfl⟩ := exists_fraction hfraction
    obtain rfl : nanos = 0 := hnanos
    refine ⟨⟨date, hour, minute, second, fraction, zone⟩, ⟨year, real, time, digits, hzone⟩, ends,
      ?_, rfl⟩
    simp [Stamp.text]
  · rintro ⟨st, valid, ends, rfl, rfl⟩
    obtain ⟨hour, minute, second⟩ := valid.time
    have fraction : fraction? (fractionText st.fraction ++ (st.zone.text ++ rest)) =
        some (fractionNanos st.fraction, st.zone.text ++ rest) := by
      refine fraction?_append valid.fraction ?_ ?_
      · cases st.zone <;> exact Text.endsDigits_cons rfl _
      · cases st.zone <;> exact fun h => absurd (Option.some.inj h) (by decide)
    refine ⟨st.date, _, ⟨valid.year, valid.date, ?_⟩, _, rfl, ⟨st.hour, st.minute, st.second, 0⟩, _,
      ⟨⟨Nat.lt_of_le_of_lt hour (by decide), Nat.lt_of_le_of_lt minute (by decide),
        Nat.lt_of_le_of_lt second (by decide), rfl⟩, rfl⟩, _, _, fraction, st.zone.seconds, rest,
      ⟨st.zone, valid.zone, rfl, rfl⟩, (), ends, (), ⟨hour, minute, second⟩, rfl, rfl⟩
    simp [Stamp.text]

/-! ### Main statement -/

variable (extra : Option Text) (input : Text) (offset : Nat)

theorem parse_zonedTime_eq_ok_iff {v : Value} {next : Nat} :
    zonedTime.parse extra input offset = (.ok v, next) ↔
      ∃ (st : Stamp) (rest : Text), st.IsValid ∧ input.StandsAt offset st.text rest ∧
        rest.head?.all (· = ' ') ∧ v = .timestamp (.zoned st.moment) ∧
        next = offset + st.text.size := by
  rw [parse_eq_ok_iff (p := zonedTime) rfl]
  simp only [readZonedTime_eq_some_iff]
  constructor
  · rintro ⟨word, rest, ⟨st, valid, ends, hword, rfl⟩, stands, rfl⟩
    obtain rfl : word = st.text := List.append_cancel_right hword
    exact ⟨st, rest, valid, stands, ends, rfl, rfl⟩
  · rintro ⟨st, rest, valid, stands, ends, rfl, rfl⟩
    exact ⟨st.text, rest, ⟨st, valid, ends, rfl, rfl⟩, stands, rfl⟩

/-- A fraction is the number of its digits, of as many decimal places as there are digits. -/
theorem fractionNanos_mul {fraction : Option Text} (h : ∀ ds ∈ fraction, Text.Numeral 1 9 ds) :
    fractionNanos fraction * 10 ^ (fraction.getD []).length =
      Text.toNat (fraction.getD []) * 10 ^ 9 := by
  cases fraction with
  | none => rfl
  | some ds =>
      have places : 9 - ds.length + ds.length = 9 := Nat.sub_add_cancel (h ds rfl).most
      rw [fractionNanos, Option.getD_some, Nat.mul_assoc, ← Nat.pow_add, places]

/-- **A date and time with a zone is read** exactly where a valid stamp stands, with a space or the
end of the input behind it.  The moment that it denotes has as many seconds since 1970-01-01 as the
days in between and the time of day make, less the offset of the zone.  A leap second counts as the
one before it, with 10^9 nanoseconds more. -/
theorem reads_stamps :
    (∀ v next, zonedTime.parse extra input offset = (.ok v, next) ↔
      ∃ (st : Stamp) (rest : Text), st.IsValid ∧ input.StandsAt offset st.text rest ∧
        rest.head?.all (· = ' ') ∧ v = .timestamp (.zoned st.moment) ∧
        next = offset + st.text.size) ∧
    ∀ st : Stamp, st.IsValid → ∃ (days : Int) (nanos : Nat),
      st.date.DayCount days ∧
      nanos * 10 ^ (st.fraction.getD []).length = Text.toNat (st.fraction.getD []) * 10 ^ 9 ∧
      st.moment.instant =
        (86400 * days + 3600 * st.hour + 60 * st.minute + min st.second 59 - st.zone.seconds,
          nanos + if st.second = 60 then 10 ^ 9 else 0) := by
  refine ⟨fun v next => parse_zonedTime_eq_ok_iff extra input offset, fun st valid => ?_⟩
  refine ⟨st.date.dayNumber, fractionNanos st.fraction, (Date.dayCount_iff valid.date _).mpr rfl,
    fractionNanos_mul valid.fraction, Prod.ext ?_ rfl⟩
  simp only [Moment.instant, Moment.unix, Stamp.moment, Clock.secondOfDay]
  omega

/-- A leap second in the last minute of a year, in a zone where UTC is in the next year. -/
theorem reads_stamps_leap :
    let input : Text := "on 1999-12-31T23:59:60.5-00:30 x"
    let st : Stamp := ⟨⟨1999, 12, 31⟩, 23, 59, 60, some ['5'], .behind 0 30⟩
    st.IsValid ∧ zonedTime.parse none input 3 = (.ok (.timestamp (.zoned st.moment)), 30) ∧
      ∃ (days : Int) (nanos : Nat), st.date.DayCount days ∧ nanos * 10 ^ 1 = 5 * 10 ^ 9 ∧
        st.moment.instant =
          (86400 * days + 3600 * 23 + 60 * 59 + 59 - -1800, nanos + 10 ^ 9) := by
  intro input st
  have fraction : Text.Numeral 1 9 ['5'] := by decide
  have valid : st.IsValid :=
    ⟨by decide, by decide, by decide, by rintro _ ⟨⟩; exact fraction, by decide⟩
  have stands : input.StandsAt 3 st.text [' ', 'x'] := ⟨['o', 'n', ' '], by decide, by decide⟩
  obtain ⟨read, counted⟩ := reads_stamps none input 3
  exact ⟨valid, (read _ _).mpr ⟨st, [' ', 'x'], valid, stands, rfl, rfl, by decide⟩,
    counted st valid⟩

end Primitive

end EventLog
