import EventLog.Toml

/-!
# TOML strings

A string is written in one of four ways: with or without escapes, on one line or on several.
Without escapes it ends at the first closing quote.  With escapes it is read by a machine that takes
one character at a time (`Toml.Quoted.State`).  On several lines a string ends at three quotes in a
row; of up to five in a row the ones in front belong to it.
-/

namespace EventLog.Toml.Quoted

/-- Whether a character may stand in a string or comment as it is. -/
def isPlain (c : Char) : Bool := c == '\t' || (0x20 ≤ c.toNat && c.toNat != 0x7F)

/-- What the characters just read belong to. -/
inductive State where
  /-- The text itself. -/
  | plain
  /-- A backslash has been read. -/
  | escape
  /-- An escape by number lacks this many digits. -/
  | hex (missing value : Nat)
  /-- A backslash has been read and blanks behind it, perhaps a line feed among them. -/
  | trim (ended : Bool)
  /-- This many quotes of several lines' text have been read in a row. -/
  | quotes (count : Nat)
deriving Repr, DecidableEq

/-- The character of a backslash and this one. -/
def escaped? (c : Char) : Option Char :=
  match c with
  | 'b'  => some '\x08'
  | 't'  => some '\t'
  | 'n'  => some '\n'
  | 'f'  => some '\x0c'
  | 'r'  => some '\r'
  | 'e'  => some '\x1b'
  | '"'  => some '"'
  | '\\' => some '\\'
  | _    => none

/-- The number of digits of an escape by number. -/
def hexDigits? (c : Char) : Option Nat :=
  match c with
  | 'x' => some 2
  | 'u' => some 4
  | 'U' => some 8
  | _   => none

/-- A blank or a line feed, or a carriage return in front of one. -/
def isSpace (c : Char) (t : Text) : Bool :=
  c == ' ' || c == '\t' || c == '\n' || (c == '\r' && t.head? == some '\n')

/-- What the next character does. -/
inductive Move where
  /-- The text goes on with these characters added, in reverse. -/
  | go (added : Text) (s : State)
  /-- The text ends behind this character, with these characters added, in reverse. -/
  | stop (added : Text)
  /-- The text has ended in front of this character, with these characters added, in reverse. -/
  | stopBefore (added : Text)
  /-- The character cannot stand here. -/
  | fail
deriving Repr, DecidableEq

/-- The next character of the text itself. -/
def plainMove (multiline : Bool) (c : Char) (t : Text) : Move :=
  if c = '"' then if multiline then .go [] (.quotes 1) else .stop []
  else if c = '\\' then .go [] .escape
  else if isPlain c then .go [c] .plain
  else if multiline && isSpace c t then .go [c] .plain
  else .fail

/-- The next character in a state, `t` being what follows it. -/
def move (multiline : Bool) (s : State) (c : Char) (t : Text) : Move :=
  match s with
  | .plain           => plainMove multiline c t
  | .escape          =>
    if multiline && isSpace c t then .go [] (.trim (c == '\n'))
    else match escaped? c, hexDigits? c with
      | some d, _    => .go [d] .plain
      | none, some n => .go [] (.hex n 0)
      | none, none   => .fail
  | .hex missing value =>
    match Text.hexValue? c with
    | none   => .fail
    | some d =>
      let value := value * 16 + d
      if 1 < missing then .go [] (.hex (missing - 1) value)
      else if value.isValidChar then .go [Char.ofNat value] .plain
      else .fail
  | .trim ended      =>
    if isSpace c t then .go [] (.trim (ended || c == '\n'))
    else if ended then plainMove multiline c t
    else .fail
  | .quotes n        =>
    if c = '"' then if n = 4 then .stop ['"', '"'] else .go [] (.quotes (n + 1))
    else if 3 ≤ n then .stopBefore (List.replicate (n - 3) '"')
    else match plainMove multiline c t with
      | .go added s => .go (added ++ List.replicate n '"') s
      | other       => other

/-- The rest of a string with escapes, behind the characters read so far (in reverse). -/
def readFrom (multiline : Bool) (s : State) (read : Text) : Reader Text
  | []     =>
    match s with
    | .quotes n => if 3 ≤ n then some ((List.replicate (n - 3) '"' ++ read).reverse, []) else none
    | _         => none
  | c :: t =>
    match move multiline s c t with
    | .go added s       => readFrom multiline s (added ++ read) t
    | .stop added       => some ((added ++ read).reverse, t)
    | .stopBefore added => some ((added ++ read).reverse, c :: t)
    | .fail             => none

/-- The rest of a string without escapes on one line. -/
def literal (t : Text) : Option (Text × Text) :=
  let body := t.takeWhile (· ≠ '\'')
  match t.dropWhile (· ≠ '\'') with
  | []        => none
  | _ :: rest => if body.all isPlain then some (body, rest) else none

/-- The rest of a string without escapes on several lines, `count` quotes having been read in a row
and other characters before them (in reverse). -/
def literalLines (count : Nat) (read : Text) : Reader Text
  | []     =>
    if 3 ≤ count then some ((List.replicate (count - 3) '\'' ++ read).reverse, []) else none
  | c :: t =>
    if c = '\'' then
      if count = 4 then some (('\'' :: '\'' :: read).reverse, t) else literalLines (count + 1) read t
    else if 3 ≤ count then some ((List.replicate (count - 3) '\'' ++ read).reverse, c :: t)
    else if isPlain c || isSpace c t then
      literalLines 0 (c :: (List.replicate count '\'' ++ read)) t
    else none

/-- A text without one line feed at its front. -/
def dropLineFeed : Text → Text
  | '\n' :: t         => t
  | '\r' :: '\n' :: t => t
  | t                 => t

/-- A string on one line, as a name or a value is written. -/
def line : Reader Text
  | '"' :: t  => readFrom false .plain [] t
  | '\'' :: t => literal t
  | _         => none

/-- A string in any of the four ways. -/
def any : Reader Text
  | '"' :: '"' :: '"' :: t    => readFrom true .plain [] (dropLineFeed t)
  | '\'' :: '\'' :: '\'' :: t => literalLines 0 [] (dropLineFeed t)
  | t                         => line t

end EventLog.Toml.Quoted
