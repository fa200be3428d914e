import EventLog.Text

/-!
# Escaping in output formats

Each output format writes some characters as a short sequence and all others as they are.  The
sequences are tables from one character to its written form; text is escaped character by
character.  U+007F and everything beyond ASCII is never touched.

| Table | Escaped characters |
|---|---|
| `Escape.structured` | NUL, line feed, comma, backslash, `]`, `"`, each behind a backslash |
| `Escape.quoted` | `"`, `/`, backslash, and the controls below U+0020 |
| `Escape.markup` | NUL, `<`, `&` |
-/

namespace EventLog.Escape

/-- A character inside a structured-data value. -/
def structuredChar (c : Char) : Text :=
  match c with
  | '\x00' => ['\\', '0']
  | '\n'   => ['\\', 'n']
  | ','    => ['\\', ',']
  | '\\'   => ['\\', '\\']
  | ']'    => ['\\', ']']
  | '"'    => ['\\', '"']
  | _      => [c]

/-- A character between double quotes. -/
def quotedChar (c : Char) : Text :=
  match c with
  | '"'    => ['\\', '"']
  | '/'    => ['\\', '/']
  | '\\'   => ['\\', '\\']
  | '\x08' => ['\\', 'b']
  | '\x0c' => ['\\', 'f']
  | '\n'   => ['\\', 'n']
  | '\r'   => ['\\', 'r']
  | '\t'   => ['\\', 't']
  | _      =>
    if c.toNat < 0x20 then ['\\', 'u', '0', '0'] ++ (Text.hexByte c.toNat).map Char.toUpper else [c]

/-- A character of element text. -/
def markupChar (c : Char) : Text :=
  match c with
  | '\x00' => ['&', '#', '0', '0', ';']
  | '<'    => ['&', 'l', 't', ';']
  | '&'    => ['&', 'a', 'm', 'p', ';']
  | _      => [c]

/-- Text inside a structured-data value. -/
def structured (t : Text) : Text := t.flatMap structuredChar

/-- Text between double quotes, in JSON and in table cells. -/
def quoted (t : Text) : Text := t.flatMap quotedChar

/-- Element text. -/
def markup (t : Text) : Text := t.flatMap markupChar

end EventLog.Escape
