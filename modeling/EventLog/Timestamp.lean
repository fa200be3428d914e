import EventLog.Calendar
import EventLog.Text

/-!
# Timestamps

A timestamp is of one of two forms.  A *zoned* one has a date, a time of day and the offset of its
clock from UTC, and so denotes a moment (`Moment`), an instant as one clock shows it.  A *wall* one
is what older system logs carry: month, day and time of day, the year often missing and the zone
always; it denotes a moment once a year and a zone are supplied (`Timestamp.resolve?`).

A minute may have a second 60.  It counts as second 59 in every count of seconds, and carries
10^9 nanoseconds more.
-/

namespace EventLog

/-- A time of day. -/
structure Clock where
  hour : Nat
  minute : Nat
  /-- At most 60. -/
  second : Nat
  /-- The fraction of the second. -/
  nanos : Nat
deriving Repr, DecidableEq

namespace Clock

/-- The seconds since midnight, a leap second counting as the one before it. -/
def secondOfDay (c : Clock) : Nat := c.hour * 3600 + c.minute * 60 + min c.second 59

/-- The nanoseconds since the second that `secondOfDay` counts. -/
def countedNanos (c : Clock) : Nat := c.nanos + if c.second = 60 then 1000000000 else 0

/-- `HH:MM:SS`. -/
def text (c : Clock) : Text :=
  Text.zeroPadded 2 c.hour ++ ":" ++ Text.zeroPadded 2 c.minute ++ ":" ++
    Text.zeroPadded 2 c.second

/-- The fraction of the second behind a point, with 3, 6 or 9 digits, whichever is the least that is
exact; nothing for a whole second. -/
def fractionText (c : Clock) : Text :=
  if c.nanos = 0 then []
  else if c.nanos % 1000000 = 0 then '.' :: Text.zeroPadded 3 (c.nanos / 1000000)
  else if c.nanos % 1000 = 0 then '.' :: Text.zeroPadded 6 (c.nanos / 1000)
  else '.' :: Text.zeroPadded 9 c.nanos

end Clock

/-- A date and time of day on a clock with a known offset from UTC. -/
structure Moment where
  date : Date
  clock : Clock
  /-- Seconds by which the clock is ahead of UTC. -/
  offset : Int
deriving Repr, DecidableEq

namespace Moment

/-- Seconds since 1970-01-01T00:00:00Z. -/
def unix (m : Moment) : Int := 86400 * m.date.dayNumber + m.clock.secondOfDay - m.offset

/-- What a moment is on every clock: the seconds and nanoseconds that have passed by then. -/
def instant (m : Moment) : Int × Nat := (m.unix, m.clock.countedNanos)

/-- A year has four digits, or a sign and at least four digits when it needs one. -/
def yearText (year : Int) : Text :=
  if 0 ≤ year ∧ year ≤ 9999 then Text.zeroPadded 4 year.toNat
  else (if year < 0 then '-' else '+') :: Text.zeroPadded 4 year.natAbs

/-- `±hh:mm`, rounded to the nearest minute. -/
def offsetText (offset : Int) : Text :=
  let minutes := (offset.natAbs + 30) / 60
  (if offset < 0 then '-' else '+') ::
    (Text.zeroPadded 2 (minutes / 60) ++ ":" ++ Text.zeroPadded 2 (minutes % 60))

/-- The form of RFC 3339 without the zone. -/
def clockText (m : Moment) : Text :=
  yearText m.date.year ++ "-" ++ Text.zeroPadded 2 m.date.month ++ "-" ++
    Text.zeroPadded 2 m.date.day ++ "T" ++ m.clock.text ++ m.clock.fractionText

/-- The form of RFC 3339, the offset always written as a number. -/
def numericText (m : Moment) : Text := m.clockText ++ offsetText m.offset

/-- The form of RFC 3339, with `Z` for UTC. -/
def text (m : Moment) : Text :=
  m.clockText ++ if m.offset = 0 then ['Z'] else offsetText m.offset

/-- The moment lies within the supported days, both on its own clock and in UTC. -/
def IsSupported (m : Moment) : Prop :=
  m.date.IsSupported ∧ 86400 * Date.first.dayNumber ≤ m.unix ∧
    m.unix < 86400 * (Date.last.dayNumber + 1)

instance (m : Moment) : Decidable m.IsSupported := by unfold IsSupported; infer_instance

end Moment

/-- A point in time as a log states it. -/
inductive Timestamp where
  /-- With year and zone. -/
  | zoned (moment : Moment)
  /-- Without zone, and perhaps without year. -/
  | wall (year : Option Int) (month day : Nat) (clock : Clock)
deriving Repr, DecidableEq

namespace Timestamp

/-- The English names of the months. -/
def monthNames : List Text :=
  ["Jan".toList, "Feb".toList, "Mar".toList, "Apr".toList, "May".toList, "Jun".toList,
    "Jul".toList, "Aug".toList, "Sep".toList, "Oct".toList, "Nov".toList, "Dec".toList]

/-- The name of a month, counted from 1. -/
def monthName : Nat → Text
  | 0     => "???"
  | m + 1 => monthNames.getD m "???"

/-- The text of a timestamp, as logs of its form write it. -/
def text : Timestamp → Text
  | zoned moment              => moment.text
  | wall year month day clock =>
    monthName month ++ " " ++ List.replicate (2 - (Text.ofNat day).length) ' ' ++ Text.ofNat day ++
      " " ++ (match year with
        | some y => Text.ofInt y ++ " "
        | none   => []) ++ clock.text

/-- Whether two timestamps say the same.  With a zone it is the instant that counts, whichever clock
shows it; without one all parts do. -/
def same : Timestamp → Timestamp → Bool
  | zoned a, zoned b => a.instant = b.instant
  | a, b             => a = b

/-- The moment a timestamp denotes, given the year and the zone to use where it has none. -/
def resolve? (defaultYear offset : Int) : Timestamp → Option Moment
  | zoned moment              => some moment
  | wall year month day clock =>
    let moment : Moment := ⟨⟨year.getD defaultYear, month, day⟩, clock, offset⟩
    if moment.IsSupported then some moment else none

end Timestamp

end EventLog
