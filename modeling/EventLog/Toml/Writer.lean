import EventLog.Toml

/-!
# Writing TOML strings

A text is written in the plainest of four ways that can hold it: between double quotes, between
single quotes, and the same with three quotes each.  Only when none can, escapes are used.  Behind
three quotes a text with line feeds begins on a line of its own.
-/

namespace EventLog.Toml.Writer

/-- The length of the longest run of a character, `run` of them standing in front. -/
def longestRun (c : Char) (run : Nat) : Text → Nat
  | []     => run
  | d :: t => if d = c then longestRun c (run + 1) t else max run (longestRun c 0 t)

/-- Whether a character is a control character that cannot stand in a string as it is. -/
def isControl (c : Char) : Bool :=
  (c.toNat < 0x20 && c != '\t' && c != '\n') || c.toNat == 0x7F

/-- Four hexadecimal digits. -/
def hex4 (n : Nat) : Text := ((Text.hexByte (n / 256)) ++ Text.hexByte n).map Char.toUpper

/-- A text with escapes; `multiline` leaves line feeds and up to two double quotes in a row as they
are, `run` of which stand in front. -/
def escaped (multiline : Bool) (run : Nat) : Text → Text
  | []     => []
  | c :: t =>
    if c = '"' then
      if multiline && run < 2 then c :: escaped multiline (run + 1) t
      else '\\' :: '"' :: escaped multiline 0 t
    else
      (match c with
        | '\x08' => ['\\', 'b']
        | '\t'   => ['\\', 't']
        | '\n'   => if multiline then ['\n'] else ['\\', 'n']
        | '\x0c' => ['\\', 'f']
        | '\r'   => ['\\', 'r']
        | '\\'   => ['\\', '\\']
        | c      => if isControl c then '\\' :: 'u' :: hex4 c.toNat else [c]) ++
      escaped multiline 0 t

/-- A text as a TOML string. -/
def stringText (t : Text) : Text :=
  let controls := t.any isControl
  let backslash := t.contains '\\'
  let lines := t.contains '\n'
  let doubles := longestRun '"' 0 t
  let singles := longestRun '\'' 0 t
  let lead : Text := if lines then ['\n'] else []
  if !controls && !backslash && doubles = 0 && !lines then "\"" ++ escaped false 0 t ++ "\""
  else if !controls && singles = 0 && !lines then "'" ++ t ++ "'"
  else if !controls && !backslash && doubles ≤ 2 then
    "\"\"\"" ++ lead ++ escaped true 0 t ++ "\"\"\""
  else if !controls && singles ≤ 2 then "'''" ++ lead ++ t ++ "'''"
  else if lines then "\"\"\"" ++ lead ++ escaped true 0 t ++ "\"\"\""
  else "\"" ++ escaped false 0 t ++ "\""

/-- A line that gives a name a value. -/
def line (name value : Text) : Text := name ++ " = " ++ value ++ "\n"

/-- A truth value. -/
def boolText (b : Bool) : Text := if b then "true" else "false"

end EventLog.Toml.Writer
