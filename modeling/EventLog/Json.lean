import EventLog.Decimal.Shortest

/-!
# JSON values

A JSON value with the members of an object in the order they are written, repeated ones included.
`Json.distinct` leaves one member of each name everywhere: it stands where the first one stood and
has the value of the last one.  `Json.compact` writes a value without blanks.
-/

namespace EventLog

/-- A JSON number. -/
inductive JsonNumber where
  /-- A whole number of at most 64 bits. -/
  | integer (n : Int)
  /-- Any other number. -/
  | double (d : Double)
deriving Repr, DecidableEq

/-- The text of a number. -/
def JsonNumber.text : JsonNumber → Text
  | integer n => Text.ofInt n
  | double d  => d.text

/-- A JSON value. -/
inductive Json where
  | null
  | bool (b : Bool)
  | number (n : JsonNumber)
  | string (text : Text)
  | array (items : List Json)
  | object (members : List (Text × Json))
deriving Repr

namespace Json

/-! ### Repeated members -/

/-- Gives the member of a name a value, where it stands or at the end. -/
def put (name : Text) (v : Json) : List (Text × Json) → List (Text × Json)
  | []           => [(name, v)]
  | (k, w) :: ms => if k = name then (k, v) :: ms else (k, w) :: put name v ms

/-- One member of each name, from the front on. -/
def merge (members : List (Text × Json)) : List (Text × Json) :=
  members.foldl (fun ms (k, v) => put k v ms) []

mutual

/-- The value with one member of each name in every object. -/
def distinct : Json → Json
  | array items    => array (distinctItems items)
  | object members => object (merge (distinctMembers members))
  | v              => v

/-- `distinct` of every item. -/
def distinctItems : List Json → List Json
  | []      => []
  | v :: vs => v.distinct :: distinctItems vs

/-- `distinct` of the value of every member. -/
def distinctMembers : List (Text × Json) → List (Text × Json)
  | []           => []
  | (k, v) :: ms => (k, v.distinct) :: distinctMembers ms

end

/-! ### Compact text -/

/-- A character inside a string. -/
def stringChar (c : Char) : Text :=
  match c with
  | '"'    => ['\\', '"']
  | '\\'   => ['\\', '\\']
  | '\x08' => ['\\', 'b']
  | '\x0c' => ['\\', 'f']
  | '\n'   => ['\\', 'n']
  | '\r'   => ['\\', 'r']
  | '\t'   => ['\\', 't']
  | _      => if c.toNat < 0x20 then ['\\', 'u', '0', '0'] ++ Text.hexByte c.toNat else [c]

/-- A string with its quotes. -/
def stringText (t : Text) : Text := ['"'] ++ t.flatMap stringChar ++ ['"']

mutual

/-- The value without blanks. -/
def compact : Json → Text
  | null           => "null"
  | bool b         => if b then "true" else "false"
  | number n       => n.text
  | string t       => stringText t
  | array items    => ['['] ++ compactItems items ++ [']']
  | object members => ['\x7b'] ++ compactMembers members ++ ['\x7d']

/-- The items with commas between them. -/
def compactItems : List Json → Text
  | []           => []
  | [v]          => v.compact
  | v :: w :: vs => v.compact ++ "," ++ compactItems (w :: vs)

/-- The members with commas between them. -/
def compactMembers : List (Text × Json) → Text
  | []                => []
  | [(k, v)]          => stringText k ++ ":" ++ v.compact
  | (k, v) :: m :: ms => stringText k ++ ":" ++ v.compact ++ "," ++ compactMembers (m :: ms)

end

end Json

end EventLog
