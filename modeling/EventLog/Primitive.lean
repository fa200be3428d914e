import EventLog.Primitive.Scan
import EventLog.Value

/-!
# Primitive values in text

A reader of a primitive takes one value from the front of a text, and gives it with the remainder;
it never looks at what stands before.  `Primitive.parse` runs one at a position of an input, and
`Primitive.firstMatch` tries several in turn.  Positions are counted in bytes.

| Primitive | Takes |
|---|---|
| number | the longest run of digits, at most 2^63 - 1 |
| word | everything up to a space or the end, at least one character |
| char-to | everything up to a delimiter, which must follow, at least one character |
| quoted-string | everything between two double quotes |
| ipv4 | four numbers up to 255 with points between them |
| date-rfc5424 | date, time and zone, followed by a space or the end |
| date-rfc3164 | month, day, perhaps a year, and time, with one colon behind it if there is one |
| date-iso | `YYYY-MM-DD` |
| time-24hr, time-12hr | `HH:MM:SS` |
-/

namespace EventLog

/-- The kinds of values that can be read from text. -/
inductive Primitive where
  | number
  | word
  | charTo
  | quotedString
  | ipv4
  | zonedTime
  | wallTime
  | isoDate
  | clock24
  | clock12
deriving Repr, DecidableEq

namespace Primitive

/-- All kinds. -/
def all : List Primitive :=
  [number, word, charTo, quotedString, ipv4, zonedTime, wallTime, isoDate, clock24, clock12]

/-- The name of a kind. -/
def name : Primitive → Text
  | number       => "number"
  | word         => "word"
  | charTo       => "char-to"
  | quotedString => "quoted-string"
  | ipv4         => "ipv4"
  | zonedTime    => "date-rfc5424"
  | wallTime     => "date-rfc3164"
  | isoDate      => "date-iso"
  | clock24      => "time-24hr"
  | clock12      => "time-12hr"

/-- The kind of a name. -/
def ofName? (name : Text) : Option Primitive := all.find? fun p => p.name = name

/-! ### Readers -/

/-- Takes one value from the front of a text. -/
abbrev Reader := Text → Option (Value × Text)

/-- The greatest number that can be read. -/
def maxNumber : Nat := 0x7FFFFFFFFFFFFFFF

/-- The longest run of digits. -/
def readNumber : Reader := fun s =>
  let digits := s.takeWhile Char.isDigit
  if digits ≠ [] ∧ Text.toNat digits ≤ maxNumber then
    some (.number (Text.toNat digits), s.dropWhile Char.isDigit)
  else none

/-- Everything up to a space. -/
def readWord : Reader := fun s =>
  let word := s.takeWhile (· ≠ ' ')
  if word ≠ [] then some (.string word, s.dropWhile (· ≠ ' ')) else none

/-- Everything up to a delimiter. -/
def readTo (delimiter : Char) : Reader := fun s =>
  let run := s.takeWhile (· ≠ delimiter)
  let rest := s.dropWhile (· ≠ delimiter)
  if run ≠ [] ∧ rest ≠ [] then some (.string run, rest) else none

/-- Everything between two double quotes. -/
def readQuoted : Reader := fun s => do
  let s ← Scan.char? '"' s
  let rest ← Scan.char? '"' (s.dropWhile (· ≠ '"'))
  return (.string (s.takeWhile (· ≠ '"')), rest)

/-- One number of an address. -/
def octet? (s : Text) : Option Text := do
  let (n, s) ← Scan.number? 3 s
  guard (n ≤ 255)
  return s

/-- Four numbers with points between them. -/
def readIpv4 : Reader := fun s => do
  let rest ← octet? s
  let rest ← octet? (← Scan.char? '.' rest)
  let rest ← octet? (← Scan.char? '.' rest)
  let rest ← octet? (← Scan.char? '.' rest)
  return (.string (Scan.taken s rest), rest)

/-- `YYYY-MM-DD`, a real date. -/
def date? (s : Text) : Option (Date × Text) := do
  let (year, s) ← Scan.fixed? 4 s
  let s ← Scan.char? '-' s
  let (month, s) ← Scan.fixed? 2 s
  let s ← Scan.char? '-' s
  let (day, s) ← Scan.fixed? 2 s
  let date : Date := ⟨year, month, day⟩
  guard date.IsReal
  return (date, s)

/-- `HH:MM:SS`, without any bounds. -/
def clock? (s : Text) : Option (Clock × Text) := do
  let (hour, s) ← Scan.fixed? 2 s
  let s ← Scan.char? ':' s
  let (minute, s) ← Scan.fixed? 2 s
  let s ← Scan.char? ':' s
  let (second, s) ← Scan.fixed? 2 s
  return (⟨hour, minute, second, 0⟩, s)

/-- The nanoseconds of a fraction, if a point begins one. -/
def fraction? (s : Text) : Option (Nat × Text) :=
  match Scan.char? '.' s with
  | none   => some (0, s)
  | some s => do
    let (digits, s) ← Scan.run? 9 s
    return (Text.toNat digits * Nat.pow 10 (9 - digits.length), s)

/-- `hh:mm` of a zone, in seconds. -/
def zoneSize? (s : Text) : Option (Nat × Text) := do
  let (hours, s) ← Scan.fixed? 2 s
  let s ← Scan.char? ':' s
  let (minutes, s) ← Scan.fixed? 2 s
  guard (hours ≤ 23 ∧ minutes ≤ 59)
  return (hours * 3600 + minutes * 60, s)

/-- `Z`, or a sign and `hh:mm`. -/
def zone? : Text → Option (Int × Text)
  | 'Z' :: s => some (0, s)
  | '+' :: s => (zoneSize? s).map fun (n, s) => ((n : Int), s)
  | '-' :: s => (zoneSize? s).map fun (n, s) => (-(n : Int), s)
  | _        => none

/-- `YYYY-MM-DDThh:mm:ss`, a fraction perhaps, and a zone, followed by a space or the end. -/
def readZonedTime : Reader := fun s => do
  let (date, s) ← date? s
  let s ← Scan.char? 'T' s
  let (clock, s) ← clock? s
  let (nanos, s) ← fraction? s
  let (offset, s) ← zone? s
  guard (s.head?.all (· = ' '))
  guard (clock.hour ≤ 23 ∧ clock.minute ≤ 59 ∧ clock.second ≤ 60)
  return (.timestamp (.zoned ⟨date, { clock with nanos := nanos }, offset⟩), s)

/-- The month of an English three-letter name, in any case. -/
def monthOfName? (name : Text) : Option Nat :=
  let lower := name.map Char.toLower
  (Timestamp.monthNames.findIdx? fun m => m.map Char.toLower = lower).map (· + 1)

/-- A number that stands where the year or the hour does: a year with the hour behind it, or the
hour. -/
def yearAndHour? (s : Text) : Option (Option Int × Nat × Text) := do
  let (n, s) ← Scan.number? 4 s
  if 1971 ≤ n ∧ n ≤ 2099 then
    let s ← Scan.char? ' ' s
    let (hour, s) ← Scan.number? 2 s
    return (some (n : Int), hour, s)
  else return (none, n, s)

/-- Month, day, perhaps a year, and time. -/
def readWallTime : Reader := fun s => do
  let month ← monthOfName? (s.take 3)
  let s ← Scan.char? ' ' (s.drop 3)
  let (day, s) ← Scan.number? 2 (Scan.skip ' ' s)
  guard (1 ≤ day ∧ day ≤ 31)
  let s ← Scan.char? ' ' s
  let (year, hour, s) ← yearAndHour? s
  let s ← Scan.char? ':' s
  let (minute, s) ← Scan.number? 2 s
  let s ← Scan.char? ':' s
  let (second, s) ← Scan.number? 2 s
  guard (hour ≤ 23 ∧ minute ≤ 59 ∧ second ≤ 60)
  return (.timestamp (.wall year month day ⟨hour, minute, second, 0⟩), Scan.skip ':' s)

/-- A real date. -/
def readIsoDate : Reader := fun s => do
  let (_, rest) ← date? s
  return (.string (Scan.taken s rest), rest)

/-- A time of day with an hour between two bounds. -/
def readClock (firstHour lastHour : Nat) : Reader := fun s => do
  let (clock, rest) ← clock? s
  guard (firstHour ≤ clock.hour ∧ clock.hour ≤ lastHour ∧ clock.minute ≤ 59 ∧ clock.second ≤ 59)
  return (.string (Scan.taken s rest), rest)

/-- The delimiter that an extra text gives: its first character, of ASCII. -/
def delimiter? (extra : Option Text) : Option Char :=
  (extra.bind List.head?).filter fun c => c.toNat < 0x80

/-- The reader of a kind; only `char-to` needs an extra text, and only it can be refused. -/
def reader (extra : Option Text) : Primitive → Except EventError Reader
  | number       => .ok readNumber
  | word         => .ok readWord
  | charTo       =>
    match delimiter? extra with
    | some d => .ok (readTo d)
    | none   => .error (.invalidArgument .noDelimiter)
  | quotedString => .ok readQuoted
  | ipv4         => .ok readIpv4
  | zonedTime    => .ok readZonedTime
  | wallTime     => .ok readWallTime
  | isoDate      => .ok readIsoDate
  | clock24      => .ok (readClock 0 23)
  | clock12      => .ok (readClock 1 12)

/-! ### Reading at a position -/

/-- Runs a reader at a position of an input; gives the value and the position behind it. -/
def readAt (read : Reader) (input : Text) (offset : Nat) : Option (Value × Nat) := do
  let s ← Text.dropBytes? offset input
  let (v, rest) ← read s
  return (v, offset + (s.size - rest.size))

/-- Reads a value of a kind at a position of an input and moves the position behind it.  What cannot
be read leaves the position where it is. -/
def parse (p : Primitive) (extra : Option Text) (input : Text) (offset : Nat) :
    Except EventError Value × Nat :=
  match p.reader extra with
  | .error e => (.error e, offset)
  | .ok read =>
    match readAt read input offset with
    | some (v, next) => (.ok v, next)
    | none           => (.error .wrongParser, offset)

/-- Reads a value of the first of some kinds that fits.  Each kind is tried where the one before it
left the position; an error other than that a kind does not fit ends the search. -/
def firstMatch (extra : Option Text) (input : Text) :
    List Primitive → Nat → Except EventError (Option (Primitive × Value)) × Nat
  | [], offset      => (.ok none, offset)
  | p :: ps, offset =>
    match p.parse extra input offset with
    | (.ok v, next)               => (.ok (some (p, v)), next)
    | (.error .wrongParser, next) => firstMatch extra input ps next
    | (.error e, next)            => (.error e, next)

end Primitive

end EventLog
