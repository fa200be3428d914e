import EventLog.Text.Utf8

/-!
# Backslash escapes in input lines

A line is cut from left to right into parts (`Backslash.Part`): a plain character, or a backslash
with what belongs to it, always the longest that does.  Every part stands for some bytes
(`Part.bytes`), and the line stands for the text of all these bytes, read as UTF-8
(`Backslash.unescape`).  An escape that is unknown or cut short stands for itself.

| Written | Stands for |
|---|---|
| `\a \b \f \n \r \t \v` | the control character |
| `\\ \' \" \?` | the character behind the backslash |
| `\` and 1 to 3 octal digits | the byte, the value taken modulo 256 |
| `\x` and 4 hexadecimal digits | the code point, or itself if that is a surrogate |
| `\x` and 2 hexadecimal digits | the byte |

`Part.written` is the text a part was cut from, so that the parts of a line concatenate to it.
-/

namespace EventLog.Backslash

/-- A part of a line. -/
inductive Part where
  /-- A character other than a backslash. -/
  | plain (c : Char)
  /-- A backslash and a character that names the byte. -/
  | named (c : Char) (byte : UInt8)
  /-- A backslash and up to three octal digits. -/
  | octal (digits : Text)
  /-- A backslash, an `x` and four hexadecimal digits. -/
  | codePoint (digits : Text)
  /-- A backslash, an `x` and two hexadecimal digits. -/
  | byte (digits : Text)
  /-- A backslash and any other character. -/
  | unknown (c : Char)
  /-- A backslash that ends the line. -/
  | lone
deriving Repr, DecidableEq

/-- The byte that a character names behind a backslash. -/
def named? (c : Char) : Option UInt8 :=
  match c with
  | 'a'  => some 0x07
  | 'b'  => some 0x08
  | 'f'  => some 0x0C
  | 'n'  => some 0x0A
  | 'r'  => some 0x0D
  | 't'  => some 0x09
  | 'v'  => some 0x0B
  | '\'' => some 0x27
  | '"'  => some 0x22
  | '?'  => some 0x3F
  | '\\' => some 0x5C
  | _    => none

/-- Whether a character is an octal digit. -/
def isOctalDigit (c : Char) : Bool := '0' ≤ c && c ≤ '7'

/-- The number that a run of octal digits denotes. -/
def ofOctal (digits : Text) : Nat := Nat.ofDigitChars 8 digits 0

/-- The part that `\x` begins, from what follows it. -/
def hexPart (t : Text) : Part :=
  let digits := (t.take 4).takeWhile Text.isHexDigit
  if digits.length = 4 then .codePoint digits
  else if 2 ≤ digits.length then .byte (digits.take 2)
  else .unknown 'x'

/-- The part that a backslash begins, from what follows it. -/
def escapePart : Text → Part
  | []     => .lone
  | c :: t =>
    match named? c with
    | some b => .named c b
    | none   =>
      if isOctalDigit c then .octal (((c :: t).take 3).takeWhile isOctalDigit)
      else if c = 'x' then hexPart t
      else .unknown c

/-- The part at the front of a line. -/
def firstPart (c : Char) (t : Text) : Part :=
  if c = '\\' then escapePart t else .plain c

namespace Part

/-- The text a part was cut from. -/
def written : Part → Text
  | plain c          => [c]
  | named c _        => ['\\', c]
  | octal digits     => '\\' :: digits
  | codePoint digits => '\\' :: 'x' :: digits
  | byte digits      => '\\' :: 'x' :: digits
  | unknown c        => ['\\', c]
  | lone             => ['\\']

/-- The bytes a part stands for. -/
def bytes : Part → Bytes
  | named _ b        => [b]
  | octal digits     => [UInt8.ofNat (ofOctal digits)]
  | codePoint digits =>
    if (Text.ofHex digits).isValidChar then Utf8.encode [Char.ofNat (Text.ofHex digits)]
    else Utf8.encode (written (codePoint digits))
  | byte digits      => [UInt8.ofNat (Text.ofHex digits)]
  | p                => Utf8.encode p.written

end Part

/-- The parts of a line, its first `skip` characters being left out. -/
def partsFrom : Nat → Text → List Part
  | _, []            => []
  | skip + 1, _ :: t => partsFrom skip t
  | 0, c :: t        =>
    let part := firstPart c t
    part :: partsFrom (part.written.length - 1) t

/-- The parts of a line. -/
def parts (line : Text) : List Part := partsFrom 0 line

/-- The text that a line with backslash escapes stands for. -/
def unescape (line : Text) : Text := Utf8.decode ((parts line).flatMap Part.bytes)

end EventLog.Backslash
