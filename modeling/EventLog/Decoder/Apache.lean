import EventLog.Event
import EventLog.NameList

/-!
# Access log lines

A line is a row of tokens with blanks between them.  A token stands between double quotes, between
square brackets, or bare; the blanks in front of it are skipped, and the character that ends it is
taken with it.  A token that is a single dash is empty.  Tokens are given the names of a list in
turn, as far as both reach.
-/

namespace EventLog.Apache

/-- What ends a token that begins with this character, and whether the character belongs to it. -/
def closer (c : Char) : Char × Bool :=
  match c with
  | '"' => ('"', false)
  | '[' => (']', false)
  | _   => (' ', true)

/-- A token that is a single dash is empty. -/
def blankDash (token : Text) : Text := if token = "-" then [] else token

/-- The token at the front and what follows it; none where only blanks are left. -/
def nextToken (line : Text) : Option (Text × Text) :=
  match line.dropSpaces with
  | []     => none
  | c :: t =>
    let (close, inside) := closer c
    let body := if inside then c :: t else t
    some (blankDash (body.takeWhile (· ≠ close)), (body.dropWhile (· ≠ close)).drop 1)

/-- The fields of a line, one for each name that a token is left for. -/
def fields : List Text → Text → List Field
  | [], _            => []
  | name :: names, t =>
    match nextToken t with
    | none           => []
    | some (tok, t') => .single name (.string tok) :: fields names t'

/-- The event of a line. -/
def event (names : NameList) (line : Text) : Event := ⟨none, fields names.names line⟩

end EventLog.Apache
