import EventLog.Proofs.Time.Zoned
import EventLog.Proofs.Time.Wall

/-!
# The moment of a date and time without a zone

A date and time of an older log becomes a moment when a year and a zone are supplied
(`Timestamp.resolve?`), or it may be written as a date and time that has them, and be read.  The
reader of older logs takes every day up to the 31st, so both depend on whether the month has the
day.

* `Primitive.parse_resolved`: both ways come to the same, and to nothing exactly where the month
  lacks the day.
-/

namespace EventLog

open Scan WallStamp

/-- The zone whose clock is ahead of UTC by some minutes, or behind it. -/
def Zone.ofMinutes (minutes : Int) : Zone :=
  if minutes < 0 then behind (minutes.natAbs / 60) (minutes.natAbs % 60)
  else ahead (minutes.natAbs / 60) (minutes.natAbs % 60)

theorem Zone.seconds_ofMinutes (minutes : Int) : (ofMinutes minutes).seconds = 60 * minutes := by
  rw [ofMinutes]
  split_ifs <;> simp only [seconds] <;> omega

theorem Zone.isValid_ofMinutes {minutes : Int} (h : minutes.natAbs < 1440) :
    (ofMinutes minutes).IsValid := by
  have bounds : minutes.natAbs / 60 ≤ 23 ∧ minutes.natAbs % 60 ≤ 59 := by omega
  rw [ofMinutes]
  split_ifs <;> exact bounds

/-- Real dates of years that four digits write lie far within the supported days. -/
theorem Moment.isSupported_iff {m : Moment} (year : 0 ≤ m.date.year ∧ m.date.year ≤ 9999)
    (time : m.clock.hour ≤ 23 ∧ m.clock.minute ≤ 59) (offset : m.offset.natAbs < 86400) :
    m.IsSupported ↔ m.date.IsReal := by
  refine ⟨fun h => h.1.1, fun real => ?_⟩
  have first : Date.first.dayNumber < m.date.dayNumber :=
    Date.dayNumber_lt_of_year (by decide) real (Int.lt_of_lt_of_le (by decide) year.1)
  have last : m.date.dayNumber < Date.last.dayNumber :=
    Date.dayNumber_lt_of_year real (by decide) (Int.lt_of_le_of_lt year.2 (by decide))
  have second : m.clock.secondOfDay < 86400 := by
    simp only [Clock.secondOfDay]
    omega
  refine ⟨⟨real, Int.le_trans (by decide) year.1, Int.le_trans year.2 (by decide)⟩, ?_, ?_⟩
  · simp only [Moment.unix]
    omega
  · simp only [Moment.unix]
    omega

namespace Primitive

/-- A date that is written but that the calendar does not have is not read. -/
theorem date?_eq_none {d : Date} (year : 0 ≤ d.year ∧ d.year ≤ 9999) (month : d.month < 100)
    (day : d.day < 100) (h : ¬ d.IsReal) (rest : Text) : date? (d.text ++ rest) = none := by
  obtain ⟨y, m, n⟩ := d
  obtain ⟨y, rfl⟩ := Int.eq_ofNat_of_zero_le year.1
  have four (t : Text) : fixed? 4 (Text.zeroPadded 4 y ++ t) = some (y, t) :=
    (fixed?_eq_some_iff (by decide)).mpr ⟨Nat.lt_succ_of_le (Int.ofNat_le.mp year.2), rfl⟩
  have two {n : Nat} (h : n < 100) (t : Text) : fixed? 2 (Text.zeroPadded 2 n ++ t) = some (n, t) :=
    (fixed?_eq_some_iff (by decide)).mpr ⟨h, rfl⟩
  have dash (t : Text) : char? '-' ('-' :: t) = some t := char?_eq_some_iff.mpr rfl
  simp [date?, Date.text, four, two month, two day, dash, guard, h]

/-- A stamp whose date may be none of the calendar is read exactly if it is one. -/
theorem parse_stamp (st : Stamp) (year : 0 ≤ st.date.year ∧ st.date.year ≤ 9999)
    (month : st.date.month < 100) (day : st.date.day < 100)
    (time : st.hour ≤ 23 ∧ st.minute ≤ 59 ∧ st.second ≤ 60)
    (fraction : ∀ ds ∈ st.fraction, Text.Numeral 1 9 ds) (zone : st.zone.IsValid)
    (extra : Option Text) :
    zonedTime.parse extra st.text 0 =
      if st.date.IsReal then (.ok (.timestamp (.zoned st.moment)), st.text.size)
      else (.error .wrongParser, 0) := by
  split_ifs with real
  · exact (parse_zonedTime_eq_ok_iff extra st.text 0).mpr
      ⟨st, [], ⟨year, real, time, fraction, zone⟩, Text.standsAt_zero _, rfl, rfl,
        (Nat.zero_add _).symm⟩
  · have unread : readZonedTime st.text = none := by
      rw [Stamp.text, List.append_assoc, List.append_assoc, readZonedTime,
        date?_eq_none year month day real]
      rfl
    have reader : zonedTime.reader extra = .ok readZonedTime := rfl
    have answer := parse_append reader [] st.text
    rw [unread] at answer
    exact answer

/-! ### Main statement -/

/-- **Both ways to a moment agree.**  Let a date and time be read without a zone, and let it be
given a year that four digits write and a zone of whole minutes.  The moment they come to is the one
that is read from the text that has them all; they come to none, and the text is not read, exactly
if the month lacks the day in that year. -/
theorem parse_resolved {extra : Option Text} {input : Text} {offset next : Nat} {v : Value}
    (h : wallTime.parse extra input offset = (.ok v, next)) :
    ∃ (year : Option Int) (month day : Nat) (clock : Clock),
      v = .timestamp (.wall year month day clock) ∧
      ∀ (extra' : Option Text) (defaultYear minutes : Int),
        0 ≤ year.getD defaultYear ∧ year.getD defaultYear ≤ 9999 → minutes.natAbs < 1440 →
        let resolved := (Timestamp.wall year month day clock).resolve? defaultYear (60 * minutes)
        let st : Stamp := ⟨⟨year.getD defaultYear, month, day⟩,
          clock.hour, clock.minute, clock.second, none, .ofMinutes minutes⟩
        zonedTime.parse extra' st.text 0 =
            (match resolved with
            | some m => (.ok (.timestamp (.zoned m)), st.text.size)
            | none   => (.error .wrongParser, 0)) ∧
          (resolved = none ↔ Date.daysInMonth (year.getD defaultYear) month < day) := by
  obtain ⟨ws, valid, rfl⟩ := exists_wallStamp h
  refine ⟨_, _, _, _, rfl, fun extra' defaultYear minutes year below => ?_⟩
  intro resolved st
  have moment : st.moment = ⟨st.date,
      ⟨Text.toNat ws.hour, Text.toNat ws.minute, Text.toNat ws.second, 0⟩, 60 * minutes⟩ := by
    rw [Stamp.moment, Zone.seconds_ofMinutes]
    rfl
  have known : resolved = if st.moment.IsSupported then some st.moment else none := by
    rw [moment]
    rfl
  have supported : st.moment.IsSupported ↔ st.date.IsReal := by
    refine Moment.isSupported_iff (m := st.moment) year ⟨valid.hour.2, valid.minute.2⟩ ?_
    rw [moment]
    dsimp only
    omega
  have real : st.date.IsReal ↔ ¬ Date.daysInMonth st.date.year st.date.month < st.date.day := by
    rw [Nat.not_lt]
    exact ⟨fun h => h.2.2.2, fun h => ⟨valid.month.1, valid.month.2, valid.day.2.1, h⟩⟩
  have answer := parse_stamp st year (Nat.lt_of_le_of_lt valid.month.2 (by decide))
    (Nat.lt_of_le_of_lt valid.day.2.2 (by decide)) ⟨valid.hour.2, valid.minute.2, valid.second.2⟩
    (by simp [st]) (Zone.isValid_ofMinutes below) extra'
  by_cases hreal : st.date.IsReal
  · rw [known, if_pos (supported.mpr hreal), answer, if_pos hreal]
    exact ⟨rfl, fun h => absurd h (Option.some_ne_none _),
      fun lacks => absurd lacks (real.mp hreal)⟩
  · rw [known, if_neg fun h => hreal (supported.mp h), answer, if_neg hreal]
    exact ⟨rfl, fun _ => not_not.mp fun has => hreal (real.mpr has), fun _ => rfl⟩

/-- A leap second on 29 February, in a year that has this day and in one that lacks it. -/
theorem parse_resolved_leap :
    let time : Timestamp := .wall none 2 29 ⟨23, 59, 60, 0⟩
    let m : Moment := ⟨⟨2000, 2, 29⟩, ⟨23, 59, 60, 0⟩, -1800⟩
    wallTime.parse none "Feb 29 23:59:60" 0 = (.ok (.timestamp time), 15) ∧
      time.resolve? 2000 (60 * -30) = some m ∧
      zonedTime.parse none "2000-02-29T23:59:60-00:30" 0 = (.ok (.timestamp (.zoned m)), 25) ∧
      time.resolve? 1900 (60 * -30) = none ∧
      zonedTime.parse none "1900-02-29T23:59:60-00:30" 0 = (.error .wrongParser, 0) := by
  intro time m
  have read : wallTime.parse none "Feb 29 23:59:60" 0 = (.ok (.timestamp time), 15) := by decide
  obtain ⟨year, month, day, clock, same, agree⟩ := parse_resolved read
  obtain ⟨rfl, rfl, rfl, rfl⟩ : none = year ∧ 2 = month ∧ 29 = day ∧ ⟨23, 59, 60, 0⟩ = clock := by
    simpa [time] using same
  have has : time.resolve? 2000 (60 * -30) = some m := by decide
  obtain ⟨leapYear, -⟩ := agree none 2000 (-30) (by decide) (by decide)
  obtain ⟨commonYear, lacks⟩ := agree none 1900 (-30) (by decide) (by decide)
  have lacks := lacks.mpr (by decide)
  rw [has] at leapYear
  rw [lacks] at commonYear
  exact ⟨read, has, leapYear, lacks, commonYear⟩

end Primitive

end EventLog
