import EventLog.Json.Token

/-!
# Reading JSON

The reader is a machine that takes one token at a time.  It keeps the arrays and objects that are
open, the innermost first, and what may come next (`Expected`).  At most 127 may be open at once.
Items and members gathered so far stand in reverse.
-/

namespace EventLog.Json

/-- An array or object that is open. -/
inductive Frame where
  | array (items : List Json)
  /-- The members so far, and the name of the one whose value is being read. -/
  | object (members : List (Text × Json)) (name : Text)
deriving Repr

/-- What may come next. -/
inductive Expected where
  /-- A value. -/
  | value
  /-- A value, or the end of an array without items. -/
  | firstItem
  /-- A name, or the end of an object without members. -/
  | firstName
  /-- A name behind a comma, for an object with these members. -/
  | nextName (members : List (Text × Json))
  /-- A colon behind a name, for an object with these members. -/
  | colon (members : List (Text × Json)) (name : Text)
  /-- A comma or a closing bracket behind this value, or the end. -/
  | continuation (v : Json)
deriving Repr

/-- The open arrays and objects, and what may come next. -/
structure State where
  frames : List Frame
  expected : Expected
deriving Repr

/-- The greatest number of arrays and objects that are open at once. -/
def maxDepth : Nat := 127

/-- The state in front of the first item or member of a new array or object. -/
def enter (frames : List Frame) (expected : Expected) (frame : Frame) : Option State :=
  if frames.length < maxDepth then some ⟨frame :: frames, expected⟩ else none

/-- A token where a value must begin. -/
def beginValue (frames : List Frame) : JsonToken → Option State
  | .openArray  => enter frames .firstItem (.array [])
  | .openObject => enter frames .firstName (.object [] [])
  | .text t     => some ⟨frames, .continuation (.string t)⟩
  | .scalar v   => some ⟨frames, .continuation v⟩
  | _           => none

/-- A token behind a value. -/
def continueValue (v : Json) : List Frame → JsonToken → Option State
  | .array items :: frames, .comma        => some ⟨.array (v :: items) :: frames, .value⟩
  | .array items :: frames, .closeArray   =>
    some ⟨frames, .continuation (.array (v :: items).reverse)⟩
  | .object ms name :: frames, .comma     => some ⟨frames, .nextName ((name, v) :: ms)⟩
  | .object ms name :: frames, .closeObject =>
    some ⟨frames, .continuation (.object ((name, v) :: ms).reverse)⟩
  | _, _                                  => none

/-- One token further. -/
def step (s : State) (token : JsonToken) : Option State :=
  match s.expected, s.frames, token with
  | .value, frames, token               => beginValue frames token
  | .firstItem, _ :: frames, .closeArray => some ⟨frames, .continuation (.array [])⟩
  | .firstItem, frames, token           => beginValue frames token
  | .firstName, _ :: frames, .closeObject => some ⟨frames, .continuation (.object [])⟩
  | .firstName, _ :: frames, .text name => some ⟨frames, .colon [] name⟩
  | .nextName ms, frames, .text name    => some ⟨frames, .colon ms name⟩
  | .colon ms name, frames, .colon      => some ⟨.object ms name :: frames, .value⟩
  | .continuation v, frames, token      => continueValue v frames token
  | _, _, _                             => none

/-- The state behind some tokens. -/
def run (s : State) : List JsonToken → Option State
  | []      => some s
  | t :: ts => do run (← step s t) ts

/-- The value that has been read when nothing is open and nothing more is needed. -/
def State.result? : State → Option Json
  | ⟨[], .continuation v⟩ => some v
  | _                     => none

/-- The value that tokens write. -/
def ofTokens? (tokens : List JsonToken) : Option Json := do
  (← run ⟨[], .value⟩ tokens).result?

/-- The value that a text writes, with all its members. -/
def read (t : Text) : Option Json := do ofTokens? (← JsonToken.read t)

end EventLog.Json
