import EventLog.Error
import EventLog.Pieces

/-!
# Lists of field names

The columns of an access log or of a table are given as a list of names with single commas or
spaces between them.  One separator behind the last name is allowed; any other two separators
side by side leave an empty name, which is refused with its position.
-/

namespace EventLog

/-- The names of columns, in order. -/
structure NameList where
  names : List Text
deriving Repr, DecidableEq

namespace NameList

/-- Whether a character stands between names. -/
def separates (c : Char) : Bool := c == ',' || c == ' '

/-- What stands between separators, leaving out an empty piece at the end. -/
def candidates (list : Text) : List Text :=
  let ps := pieces separates list
  if ps.getLast? = some [] then ps.dropLast else ps

/-- The position of the first empty piece, the first piece standing at `offset`. -/
def firstEmpty? (offset : Nat) : List Text → Option Nat
  | []      => none
  | p :: ps => if p = [] then some offset else firstEmpty? (offset + p.size + 1) ps

/-- The list of names that a text gives. -/
def parse (list : Text) : Except CodecError NameList :=
  match firstEmpty? 0 (candidates list) with
  | some offset => .error (.nameList list (.emptyName offset))
  | none        => .ok ⟨candidates list⟩

/-- The names with commas between them. -/
def text (l : NameList) : Text := Text.commaList l.names

end NameList

end EventLog
