import EventLog.Text

/-!
# TOML documents

A document is a table of values.  A table remembers how it came about (`Origin`), because that
decides what later lines may still add to it: a table written out as a value is closed; one that a
header named takes keys only under that header; one that headers only passed through on the way to
another may still be named by one; one that dotted keys passed through takes further dotted keys,
and no header names it any more.  Members stand in the order of their first mention.

A number that is too large to be read is part of a document all the same (`outOfRange`): whether it
does harm is for those to say who read the document (`Toml.inRange`).
-/

namespace EventLog

/-- A name or value of TOML can be read off the front of a text. -/
abbrev Toml.Reader (α : Type) := Text → Option (α × Text)

/-- How a table came about. -/
inductive Toml.Origin where
  /-- It was written out as a value. -/
  | closed
  /-- A header named it. -/
  | header
  /-- A header passed through it. -/
  | implied
  /-- Dotted keys passed through it. -/
  | dotted
deriving Repr, DecidableEq

/-- A TOML value. -/
inductive Toml where
  | string (t : Text)
  | integer (n : Int)
  /-- A floating-point number, as written. -/
  | float (written : Text)
  /-- A number that its kind cannot hold, as written. -/
  | outOfRange (written : Text)
  | boolean (b : Bool)
  /-- A date, a time or both, as written. -/
  | datetime (written : Text)
  /-- An array; headers may add tables to one that headers made. -/
  | array (byHeaders : Bool) (items : List Toml)
  | table (origin : Toml.Origin) (members : List (Text × Toml))
deriving Repr

namespace Toml

/-- The members of a table. -/
abbrev Members := List (Text × Toml)

mutual

/-- Whether all numbers in a value can be read. -/
def inRange : Toml → Bool
  | outOfRange _ => false
  | array _ vs   => itemsInRange vs
  | table _ ms   => membersInRange ms
  | _            => true

/-- Whether all numbers in some values can be read. -/
def itemsInRange : List Toml → Bool
  | []      => true
  | v :: vs => v.inRange && itemsInRange vs

/-- Whether all numbers in some members can be read. -/
def membersInRange : List (Text × Toml) → Bool
  | []           => true
  | (_, v) :: ms => v.inRange && membersInRange ms

end

/-- The value of a name. -/
def find? (name : Text) (ms : Members) : Option Toml := (ms.find? fun m => m.1 = name).map Prod.snd

/-- Replaces the value of a name, or puts one at the end where there is none, as `f` says. -/
def update (name : Text) (f : Option Toml → Option Toml) : Members → Option Members
  | []           => (f none).map fun v => [(name, v)]
  | (k, v) :: ms =>
    if k = name then (f (some v)).map fun w => (k, w) :: ms
    else (update name f ms).map ((k, v) :: ·)

/-- Changes the last of some tables. -/
def updateLast (f : Members → Option Members) (items : List Toml) : Option (List Toml) :=
  match items.getLast? with
  | some (table origin ms) => (f ms).map fun ms => items.dropLast ++ [table origin ms]
  | _                      => none

/-- Changes the table that a header may pass through: a table, or the last one of an array that
headers made. -/
def passThrough (f : Members → Option Members) : Option Toml → Option Toml
  | none                    => (f []).map (table .implied)
  | some (table .closed _)  => none
  | some (table origin ms)  => (f ms).map (table origin)
  | some (array true items) => (updateLast f items).map (array true)
  | some _                  => none

/-- Opens the table that a header names. -/
def openTable : List Text → Members → Option Members
  | []      => fun _ => none
  | [k]     => update k fun
    | none                     => some (table .header [])
    | some (table .implied ms) => some (table .header ms)
    | some _                   => none
  | k :: ks => update k (passThrough (openTable ks))

/-- Adds a table to the array that a header names. -/
def appendTable : List Text → Members → Option Members
  | []      => fun _ => none
  | [k]     => update k fun
    | none                    => some (array true [table .header []])
    | some (array true items) => some (array true (items ++ [table .header []]))
    | some _                  => none
  | k :: ks => update k (passThrough (appendTable ks))

/-- Gives a new name a value. -/
def define (name : Text) (v : Toml) : Members → Option Members :=
  update name fun
    | none   => some v
    | some _ => none

/-- Changes the table that a dotted key may pass through: one that no header named and that is no
value, or the last one of an array that headers made.  The last name before the point (`last`) must
not lead to an array. -/
def passDotted (last : Bool) (f : Members → Option Members) : Option Toml → Option Toml
  | none                     => (f []).map (table .dotted)
  | some (table .dotted ms)  => (f ms).map (table .dotted)
  | some (table .implied ms) => (f ms).map (table .dotted)
  | some (array true items)  => if last then none else (updateLast f items).map (array true)
  | some _                   => none

/-- Gives the value that a key names to a table. -/
def assign (v : Toml) : List Text → Members → Option Members
  | []      => fun _ => none
  | [k]     => define k v
  | k :: ks => update k (passDotted (ks.length = 1) (assign v ks))

/-- Changes the table that the latest header with these names opened. -/
def within (f : Members → Option Members) : List Text → Members → Option Members
  | []      => f
  | k :: ks => update k (passThrough (within f ks))

/-! ### Statements -/

/-- A line of a document. -/
inductive Statement where
  /-- `[names]` -/
  | header (names : List Text)
  /-- `[[names]]` -/
  | arrayHeader (names : List Text)
  /-- `names = value` -/
  | assignment (names : List Text) (v : Toml)
deriving Repr

/-- A document under way: its members, and the names of the last header. -/
structure Document where
  members : Members
  current : List Text

/-- The document with one statement more. -/
def Document.add (d : Document) : Statement → Option Document
  | .header names       => (openTable names d.members).map fun ms => ⟨ms, names⟩
  | .arrayHeader names  => (appendTable names d.members).map fun ms => ⟨ms, names⟩
  | .assignment names v => (within (assign v names) d.current d.members).map fun ms =>
    { d with members := ms }

/-- The members that statements define. -/
def ofStatements? (ss : List Statement) : Option Members :=
  (ss.foldlM Document.add ⟨[], []⟩).map Document.members

end Toml

end EventLog
