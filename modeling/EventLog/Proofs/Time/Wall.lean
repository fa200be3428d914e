import EventLog.Proofs.Primitive.Steps
import Mathlib.Data.List.GetD

/-!
# Dates and times of older system logs

A `WallStamp` has the parts of a date and time without a zone as they are written: the digits
themselves, since it is free how many zeros stand in front of a number.

* `Primitive.readWallTime_eq_some_iff`: what is read from the front of a text is a valid stamp with
  no digit behind it, and one colon if it stands there.
* `Primitive.reads_wallStamps`: the same at a position of an input.
* `Primitive.wide_hour_read`: without a year the hour may have up to four digits.
-/

namespace EventLog

open Scan

/-! ### The parts and their text -/

/-- A date and time without a zone as it is written. -/
structure WallStamp where
  month : Nat
  /-- The name of the month, with its letters as they are written. -/
  name : Text
  /-- One more space stands in front of the day. -/
  padded : Bool
  day : Text
  year : Option Text
  hour : Text
  minute : Text
  second : Text
deriving Repr, DecidableEq

namespace WallStamp

/-- A space, or nothing. -/
def padding (padded : Bool) : Text := if padded then [' '] else []

/-- A year and a space, or nothing. -/
def yearText : Option Text → Text
  | none    => []
  | some ds => ds ++ [' ']

/-- Month, day, perhaps a year, and time. -/
def text (st : WallStamp) : Text :=
  st.name ++ ' ' :: padding st.padded ++ st.day ++ ' ' :: yearText st.year ++ st.hour ++
    ':' :: st.minute ++ ':' :: st.second

/-- The most digits that an hour has: behind a year two, and where a year might stand as many as the
year has. -/
def hourWidth : Option Text → Nat
  | none   => 4
  | some _ => 2

/-- A year that is told from an hour. -/
def IsYear (ds : Text) : Prop := Text.Numeral 4 4 ds ∧ 1971 ≤ Text.toNat ds ∧ Text.toNat ds ≤ 2099

/-- The name of a month in any case, a day that some month has, and a time of day that may be a leap
second. -/
structure IsValid (st : WallStamp) : Prop where
  month : 1 ≤ st.month ∧ st.month ≤ 12
  name : st.name.map Char.toLower = (Timestamp.monthName st.month).map Char.toLower
  day : Text.Numeral 1 2 st.day ∧ 1 ≤ Text.toNat st.day ∧ Text.toNat st.day ≤ 31
  year : ∀ ds ∈ st.year, IsYear ds
  hour : Text.Numeral 1 (hourWidth st.year) st.hour ∧ Text.toNat st.hour ≤ 23
  minute : Text.Numeral 1 2 st.minute ∧ Text.toNat st.minute ≤ 59
  second : Text.Numeral 1 2 st.second ∧ Text.toNat st.second ≤ 60

/-- The number of a year, if there is one. -/
def yearNumber : Option Text → Option Int
  | none    => none
  | some ds => some (Text.toNat ds)

/-- The numbers of the parts. -/
def time (st : WallStamp) : Timestamp :=
  .wall (yearNumber st.year) st.month (Text.toNat st.day)
    ⟨Text.toNat st.hour, Text.toNat st.minute, Text.toNat st.second, 0⟩

end WallStamp

open WallStamp

namespace Primitive

variable {s rest : Text}

/-! ### Reading the parts -/

theorem monthOfName?_eq_some_iff {name : Text} {month : Nat} :
    monthOfName? name = some month ↔
      (1 ≤ month ∧ month ≤ 12) ∧
        name.map Char.toLower = (Timestamp.monthName month).map Char.toLower := by
  constructor
  · intro h
    obtain ⟨i, hi, rfl⟩ := Option.map_eq_some_iff.mp h
    obtain ⟨inside, same, -⟩ := List.findIdx?_eq_some_iff_getElem.mp hi
    have named : Timestamp.monthName (i + 1) = Timestamp.monthNames[i] :=
      List.getD_eq_getElem _ _ inside
    exact ⟨⟨Nat.le_add_left 1 i, inside⟩, by rw [named]; exact (of_decide_eq_true same).symm⟩
  · rintro ⟨⟨first, last⟩, same⟩
    obtain ⟨i, rfl⟩ := Nat.exists_eq_add_of_le' first
    have places : ∀ i < 12, (Timestamp.monthNames.findIdx? fun m =>
        m.map Char.toLower = (Timestamp.monthName (i + 1)).map Char.toLower) = some i := by decide
    simp only [monthOfName?, same, places i last, Option.map_some]

theorem length_of_month {name : Text} {month : Nat} (h : 1 ≤ month ∧ month ≤ 12)
    (same : name.map Char.toLower = (Timestamp.monthName month).map Char.toLower) :
    name.length = 3 := by
  obtain ⟨i, rfl⟩ := Nat.exists_eq_add_of_le' h.1
  have lengths : ∀ i < 12, (Timestamp.monthName (i + 1)).length = 3 := by decide
  have length := congrArg List.length same
  rw [List.length_map, List.length_map, lengths i h.2] at length
  exact length

/-- A padding in front of digits is skipped. -/
theorem skip_padding (padded : Bool) {ds : Text} (h : Text.Numeral 1 2 ds) (rest : Text) :
    skip ' ' (padding padded ++ (ds ++ rest)) = ds ++ rest := by
  cases padded with
  | true => rfl
  | false =>
      obtain ⟨d, ds, rfl⟩ := List.exists_cons_of_length_pos h.least
      refine skip_eq_iff.mpr (.inr ⟨rfl, fun hd => ?_⟩)
      have digit : d.isDigit := h.digits d (List.mem_cons_self ..)
      obtain rfl : d = ' ' := Option.some.inj hd
      exact absurd digit (by decide)

theorem exists_padding (s : Text) : ∃ padded, s = padding padded ++ skip ' ' s := by
  obtain h | ⟨h, -⟩ := skip_eq_iff.mp (rfl : skip ' ' s = skip ' ' s)
  · exact ⟨true, h⟩
  · exact ⟨false, h⟩

/-- A number among the years has four digits, since it is not below 1000. -/
theorem isYear_iff {ds : Text} :
    IsYear ds ↔ Text.Numeral 1 4 ds ∧ 1971 ≤ Text.toNat ds ∧ Text.toNat ds ≤ 2099 := by
  constructor
  · rintro ⟨numeral, range⟩
    exact ⟨⟨numeral.digits, Nat.le_trans (by decide) numeral.least, numeral.most⟩, range⟩
  · rintro ⟨numeral, first, last⟩
    refine ⟨⟨numeral.digits, ?_, numeral.most⟩, first, last⟩
    by_contra short
    have small : Text.toNat ds < 10 ^ 3 :=
      Nat.lt_of_lt_of_le (Text.toNat_lt numeral.digits)
        (Nat.pow_le_pow_right (by decide) (Nat.le_of_lt_succ (Nat.lt_of_not_le short)))
    omega

theorem yearAndHour?_eq_some_iff {year : Option Int} {hour : Nat} (h : hour ≤ 23) :
    yearAndHour? s = some (year, hour, rest) ↔
      ∃ (yds : Option Text) (hds : Text), (∀ ds ∈ yds, IsYear ds) ∧
        Text.Numeral 1 (hourWidth yds) hds ∧ Text.EndsDigits rest ∧
        s = yearText yds ++ (hds ++ rest) ∧ year = yearNumber yds ∧
        Text.toNat hds = hour := by
  simp only [yearAndHour?, Option.bind_eq_bind, Option.bind_eq_some_iff, Prod.exists,
    number?_eq_some_iff]
  constructor
  · rintro ⟨n, r, ⟨ds, numeral, ends, rfl, rfl⟩, found⟩
    split at found
    · next range =>
        simp only [Option.bind_eq_some_iff, char?_eq_some_iff, Prod.exists, number?_eq_some_iff,
          Option.pure_def, Option.some.injEq, Prod.mk.injEq] at found
        obtain ⟨r, rfl, _, _, ⟨hds, hnumeral, hends, rfl, rfl⟩, rfl, rfl, rfl⟩ := found
        refine ⟨some ds, hds, ?_, hnumeral, hends, by simp [yearText], rfl, rfl⟩
        rintro _ ⟨⟩
        exact isYear_iff.mpr ⟨numeral, range⟩
    · cases found
      exact ⟨none, ds, nofun, numeral, ends, rfl, rfl, rfl⟩
  · rintro ⟨yds, hds, isYear, numeral, ends, rfl, rfl, rfl⟩
    cases yds with
    | none =>
        refine ⟨_, rest, ⟨hds, numeral, ends, rfl, rfl⟩, ?_⟩
        rw [if_neg (by omega)]
        rfl
    | some ds =>
        obtain ⟨yearNumeral, range⟩ := isYear_iff.mp (isYear ds rfl)
        refine ⟨_, ' ' :: (hds ++ rest),
          ⟨ds, yearNumeral, Text.endsDigits_cons rfl _, by simp [yearText], rfl⟩, ?_⟩
        have further : number? 2 (hds ++ rest) = some (Text.toNat hds, rest) :=
          number?_eq_some_iff.mpr ⟨hds, numeral, ends, rfl, rfl⟩
        rw [if_pos range, char?_eq_some_iff.mpr rfl]
        simp [further, yearNumber]

/-! ### Reading a stamp -/

theorem text_append (st : WallStamp) (r : Text) :
    st.text ++ r = st.name ++ ' ' :: (padding st.padded ++ (st.day ++ ' ' ::
      (yearText st.year ++ (st.hour ++ ':' :: (st.minute ++ ':' :: (st.second ++ r)))))) := by
  simp [text]

theorem readWallTime_eq_some_iff {v : Value} :
    readWallTime s = some (v, rest) ↔
      ∃ (st : WallStamp) (r : Text), st.IsValid ∧ Text.EndsDigits r ∧ s = st.text ++ r ∧
        rest = skip ':' r ∧ v = .timestamp st.time := by
  simp only [readWallTime, Option.bind_eq_bind, Option.bind_eq_some_iff, Prod.exists,
    Option.pure_def, Option.guard_eq_some', Option.some.injEq, Prod.mk.injEq, char?_eq_some_iff,
    number?_eq_some_iff, monthOfName?_eq_some_iff]
  constructor
  · rintro ⟨month, ⟨hmonth, hname⟩, s₁, h₁, _, _, ⟨day, hday, -, h₂, rfl⟩, -, dayRange, s₃, rfl,
      year, hour, _, h₃, s₅, rfl, _, _, ⟨minute, hminute, -, rfl, rfl⟩, s₇, rfl, _, r,
      ⟨second, hsecond, ends, rfl, rfl⟩, -, ⟨hhour, minuteRange, secondRange⟩, rfl, rfl⟩
    obtain ⟨yds, hds, hyear, hourNumeral, -, rfl, rfl, rfl⟩ :=
      (yearAndHour?_eq_some_iff hhour).mp h₃
    obtain ⟨padded, hpadded⟩ := exists_padding s₁
    refine ⟨⟨month, s.take 3, padded, day, yds, hds, minute, second⟩, r,
      ⟨hmonth, hname, ⟨hday, dayRange⟩, hyear, ⟨hourNumeral, hhour⟩, ⟨hminute, minuteRange⟩,
        ⟨hsecond, secondRange⟩⟩, ends, ?_, rfl, rfl⟩
    rw [text_append, ← h₂, ← hpadded, ← h₁, List.take_append_drop]
  · rintro ⟨st, r, valid, ends, rfl, rfl, rfl⟩
    have named : st.name.length = 3 := length_of_month valid.month valid.name
    have clock (t : Text) : yearAndHour? (yearText st.year ++ (st.hour ++ ':' :: t)) =
        some (yearNumber st.year, Text.toNat st.hour, ':' :: t) :=
      (yearAndHour?_eq_some_iff valid.hour.2).mpr
        ⟨st.year, st.hour, valid.year, valid.hour.1, Text.endsDigits_cons rfl t, rfl, rfl, rfl⟩
    rw [text_append, List.take_left' named, List.drop_left' named]
    exact ⟨st.month, ⟨valid.month, valid.name⟩, _, rfl, _, _,
      ⟨st.day, valid.day.1, Text.endsDigits_cons rfl _, skip_padding st.padded valid.day.1 _, rfl⟩,
      (), valid.day.2, _, rfl, _, _, _, clock _, _, rfl, _, _,
      ⟨st.minute, valid.minute.1, Text.endsDigits_cons rfl _, rfl, rfl⟩, _, rfl, _, r,
      ⟨st.second, valid.second.1, ends, rfl, rfl⟩, (),
      ⟨valid.hour.2, valid.minute.2, valid.second.2⟩, rfl, rfl⟩

/-- A timestamp that was read is that of a valid stamp. -/
theorem exists_wallStamp {extra : Option Text} {input : Text} {offset next : Nat} {v : Value}
    (h : wallTime.parse extra input offset = (.ok v, next)) :
    ∃ st : WallStamp, st.IsValid ∧ v = .timestamp st.time := by
  obtain ⟨word, rest, hread, -⟩ := (parse_eq_ok_iff (p := wallTime) rfl).mp h
  obtain ⟨st, r, valid, -, -, -, rfl⟩ := readWallTime_eq_some_iff.mp hread
  exact ⟨st, valid, rfl⟩

/-! ### Main statement -/

theorem size_skip_colon (rest : Text) :
    rest.size = (if rest.head? = some ':' then 1 else 0) + (skip ':' rest).size := by
  obtain h | ⟨h, other⟩ := skip_eq_iff.mp (rfl : skip ':' rest = skip ':' rest)
  · rw [h]
    rfl
  · rw [if_neg other, Nat.zero_add, ← h]

variable (extra : Option Text) (input : Text) (offset : Nat)

/-- **A date and time without a zone is read** exactly where a valid stamp stands with no digit
behind it.  A colon behind it is taken with it. -/
theorem reads_wallStamps (v : Value) (next : Nat) :
    wallTime.parse extra input offset = (.ok v, next) ↔
      ∃ (st : WallStamp) (rest : Text), st.IsValid ∧ input.StandsAt offset st.text rest ∧
        rest.EndsDigits ∧ v = .timestamp st.time ∧
        next = offset + st.text.size + if rest.head? = some ':' then 1 else 0 := by
  rw [parse_eq_ok_iff (p := wallTime) rfl]
  simp only [readWallTime_eq_some_iff]
  constructor
  · rintro ⟨word, rest, ⟨st, r, valid, ends, hword, hrest, rfl⟩, ⟨before, hinput, hoffset⟩, rfl⟩
    refine ⟨st, r, valid, ⟨before, by rw [hinput, hword], hoffset⟩, ends, rfl, ?_⟩
    have sizes := congrArg Text.size hword
    have colon := size_skip_colon r
    rw [Text.size_append, Text.size_append, hrest] at sizes
    omega
  · rintro ⟨st, r, valid, ⟨before, hinput, hoffset⟩, ends, rfl, rfl⟩
    obtain ⟨colon, hcolon⟩ := skip_suffix ':' r
    have taken := congrArg Text.size hcolon
    rw [Text.size_append, size_skip_colon r] at taken
    refine ⟨st.text ++ colon, skip ':' r, ⟨st, r, valid, ends, ?_, rfl, rfl⟩,
      ⟨before, ?_, hoffset⟩, ?_⟩
    · rw [List.append_assoc, hcolon]
    · rw [hinput, List.append_assoc, hcolon]
    · rw [Text.size_append]
      omega

/-- Where a year might stand, zeros make an hour of four digits. -/
theorem wide_hour_read :
    let input : Text := "Oct 11 0022:14:15"
    wallTime.parse none input 0 = (.ok (.timestamp (.wall none 10 11 ⟨22, 14, 15, 0⟩)), 17) ∧
      ¬ ∃ (st : WallStamp) (rest : Text), st.IsValid ∧ st.hour.length ≤ 2 ∧
        input.StandsAt 0 st.text rest := by
  intro input
  have letters : input = ['O', 'c', 't'] ++ ' ' :: (['1', '1'] ++ ' ' ::
      (['0', '0', '2', '2'] ++ ':' :: "14:15".toList)) := by decide
  have dayDigits : Text.Numeral 1 2 ['1', '1'] := by decide
  have hourDigits : Text.Numeral 1 4 ['0', '0', '2', '2'] := by decide
  refine ⟨by decide, ?_⟩
  rintro ⟨st, rest, valid, narrow, before, hinput, hbefore⟩
  obtain rfl : before = [] := by
    by_contra h
    exact absurd hbefore (Nat.ne_of_gt (Text.size_pos h))
  have named : st.name.length = 3 := length_of_month valid.month valid.name
  rw [letters, List.nil_append, text_append] at hinput
  -- What stands where is settled piece by piece, up to the digits of the hour.
  have date := List.tail_eq_of_cons_eq (List.append_inj hinput named.symm).2
  have day := congrArg (skip ' ') date
  rw [skip_padding st.padded valid.day.1, skip_eq_iff.mpr (.inr ⟨rfl, by decide⟩)] at day
  have clock := List.tail_eq_of_cons_eq (Text.digits_append_inj dayDigits.digits valid.day.1.digits
    (Text.endsDigits_cons rfl _) (Text.endsDigits_cons rfl _) day).2
  cases hyear : st.year with
  | none =>
      rw [hyear, yearText, List.nil_append] at clock
      have hour := (Text.digits_append_inj hourDigits.digits valid.hour.1.digits
        (Text.endsDigits_cons rfl _) (Text.endsDigits_cons rfl _) clock).1
      rw [← hour] at narrow
      exact absurd narrow (by decide)
  | some ds =>
      rw [hyear, yearText, List.append_assoc] at clock
      have behind := (Text.digits_append_inj hourDigits.digits (valid.year ds hyear).1.digits
        (Text.endsDigits_cons rfl _) (Text.endsDigits_cons rfl _) clock).2
      exact absurd (List.head_eq_of_cons_eq behind) (by decide)

end Primitive

end EventLog
