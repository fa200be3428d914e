import EventLog.Json.Number

/-!
# JSON tokens

The lexer is a machine that takes one character at a time (`Lexer.step`).  Its state says what the
characters since the last finished token belong to.  A number or a word ends at the first character
that cannot continue it, and that character is then taken as the first of what follows
(`Lexer.begin`).  A token is given out as soon as it is finished; a character that fits nowhere
ends the reading.
-/

namespace EventLog

/-- A token of JSON. -/
inductive JsonToken where
  | openObject
  | closeObject
  | openArray
  | closeArray
  | colon
  | comma
  /-- A string, its escapes resolved. -/
  | text (t : Text)
  /-- A number or one of the three words. -/
  | scalar (v : Json)
deriving Repr

namespace JsonToken

/-- What the characters since the last token belong to; characters gathered so far stand in
reverse. -/
inductive State where
  /-- Nothing is under way. -/
  | between
  /-- A number. -/
  | number (gathered : Text)
  /-- A word. -/
  | word (gathered : Text)
  /-- A string. -/
  | string (gathered : Text)
  /-- A string behind a backslash. -/
  | escape (gathered : Text)
  /-- A string inside `\uXXXX`: the digits so far, and the high surrogate before, if there is one. -/
  | unicode (gathered : Text) (high : Option Nat) (digits : Text)
  /-- A string behind a high surrogate, where a backslash must follow. -/
  | high (gathered : Text) (unit : Nat)
  /-- A string behind a high surrogate and a backslash, where a `u` must follow. -/
  | highEscape (gathered : Text) (unit : Nat)
deriving Repr, DecidableEq

/-- Whether a character may stand in a number. -/
def inNumber (c : Char) : Bool :=
  c.isDigit || c == '-' || c == '+' || c == '.' || c == 'e' || c == 'E'

/-- Whether a character may stand in a word. -/
def inWord (c : Char) : Bool := 'a' ≤ c && c ≤ 'z'

/-- The first character of a token, or a blank. -/
def begin (c : Char) : Option (List JsonToken × State) :=
  match c with
  | '\x7b' => some ([openObject], .between)
  | '\x7d' => some ([closeObject], .between)
  | '['    => some ([openArray], .between)
  | ']'    => some ([closeArray], .between)
  | ':'    => some ([colon], .between)
  | ','    => some ([comma], .between)
  | '"'    => some ([], .string [])
  | ' ' | '\t' | '\n' | '\r' => some ([], .between)
  | c      =>
    if c.isDigit || c == '-' then some ([], .number [c])
    else if inWord c then some ([], .word [c])
    else none

/-- The value of a word. -/
def ofWord? (t : Text) : Option Json :=
  if t = "true" then some (.bool true)
  else if t = "false" then some (.bool false)
  else if t = "null" then some .null
  else none

/-- The character that stands for one behind a backslash. -/
def escaped? (c : Char) : Option Char :=
  match c with
  | '"'  => some '"'
  | '\\' => some '\\'
  | '/'  => some '/'
  | 'b'  => some '\x08'
  | 'f'  => some '\x0c'
  | 'n'  => some '\n'
  | 'r'  => some '\r'
  | 't'  => some '\t'
  | _    => none

/-- The state behind the four digits of `\uXXXX`.  A high surrogate needs a low one behind it, and
a low one needs a high one before it. -/
def codeUnit (gathered : Text) (high : Option Nat) (unit : Nat) : Option State :=
  let low := 0xDC00 ≤ unit && unit < 0xE000
  match high with
  | none   =>
    if 0xD800 ≤ unit && unit < 0xDC00 then some (.high gathered unit)
    else if low then none
    else some (.string (Char.ofNat unit :: gathered))
  | some h =>
    if low then
      some (.string (Char.ofNat (0x10000 + (h - 0xD800) * 0x400 + (unit - 0xDC00)) :: gathered))
    else none

/-- One character further inside a string. -/
def stringStep : State → Char → Option (List JsonToken × State)
  | .string g, c          =>
    if c = '"' then some ([text g.reverse], .between)
    else if c = '\\' then some ([], .escape g)
    else if c.toNat < 0x20 then none
    else some ([], .string (c :: g))
  | .escape g, c          =>
    if c = 'u' then some ([], .unicode g none [])
    else (escaped? c).map fun d => ([], .string (d :: g))
  | .unicode g high ds, c =>
    if Text.isHexDigit c then
      if ds.length = 3 then (codeUnit g high (Text.ofHex (ds ++ [c]))).map fun s => ([], s)
      else some ([], .unicode g high (ds ++ [c]))
    else none
  | .high g unit, c       => if c = '\\' then some ([], .highEscape g unit) else none
  | .highEscape g unit, c => if c = 'u' then some ([], .unicode g (some unit) []) else none
  | _, _                  => none

/-- The token that is finished where a number or a word ends. -/
def close : State → Option (List JsonToken)
  | .between  => some []
  | .number g => (JsonNumber.read? g.reverse).map fun n => [scalar (.number n)]
  | .word g   => (ofWord? g.reverse).map fun v => [scalar v]
  | _         => none

/-- One character further: the tokens it finishes, and the state behind it. -/
def step : State → Char → Option (List JsonToken × State)
  | .between, c  => begin c
  | .number g, c =>
    if inNumber c then some ([], .number (c :: g))
    else do
      let done ← close (.number g)
      let (more, s) ← begin c
      return (done ++ more, s)
  | .word g, c   =>
    if inWord c then some ([], .word (c :: g))
    else do
      let done ← close (.word g)
      let (more, s) ← begin c
      return (done ++ more, s)
  | s, c         => stringStep s c

/-- The tokens of the characters that follow a state. -/
def readFrom (s : State) : Text → Option (List JsonToken)
  | []     => close s
  | c :: t => do
    let (done, s) ← step s c
    return done ++ (← readFrom s t)

/-- The tokens of a text. -/
def read (t : Text) : Option (List JsonToken) := readFrom .between t

end JsonToken

end EventLog
