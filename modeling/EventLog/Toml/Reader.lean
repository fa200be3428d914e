import EventLog.Toml.Quoted
import EventLog.Toml.Scalar

/-!
# Reading TOML

A document is a sequence of statements, each on a line of its own; a value in brackets may go on
over several lines.  The statements are read first (`Toml.statements?`) and then put together
(`Toml.ofStatements?`).  Arrays and tables as values may be nested 80 deep, and a key may have 80
names.

The readers that go on for as long as there is something to read are given a number of steps that
the length of the text bounds.
-/

namespace EventLog.Toml

/-! ### Blanks -/

/-- Whether a character is a blank within a line. -/
def isBlank (c : Char) : Bool := c == ' ' || c == '\t'

/-- The text without the blanks at its front. -/
def dropBlanks (t : Text) : Text := t.dropWhile isBlank

/-- The text without blanks, line ends and comments at its front. -/
def gap? (inComment : Bool) : Text → Option Text
  | []     => some []
  | c :: t =>
    if c = '\n' then gap? false t
    else if c = '\r' then if t.head? = some '\n' then gap? inComment t else none
    else if inComment then if Quoted.isPlain c then gap? true t else none
    else if isBlank c then gap? false t
    else if c = '#' then gap? true t
    else some (c :: t)

/-- The text behind a comment, up to the end of its line. -/
def dropComment? : Text → Option Text
  | '#' :: t =>
    let rest := t.dropWhile Quoted.isPlain
    match rest with
    | []                => some rest
    | '\n' :: _         => some rest
    | '\r' :: '\n' :: _ => some rest
    | _                 => none
  | t        => some t

/-- The text behind the end of a line, blanks and a comment in front of it left out. -/
def lineEnd? (t : Text) : Option Text := do
  match ← dropComment? (dropBlanks t) with
  | []                => return []
  | '\n' :: t         => return t
  | '\r' :: '\n' :: t => return t
  | _                 => none

/-! ### Keys -/

/-- Whether a character may stand in a name without quotes. -/
def isNameChar (c : Char) : Bool := c.isAlphanum || c == '_' || c == '-'

/-- Takes one name. -/
def name : Reader Text := fun t =>
  match t with
  | '"' :: _  => Quoted.line t
  | '\'' :: _ => Quoted.line t
  | _         =>
    if (t.takeWhile isNameChar) = [] then none
    else some (t.takeWhile isNameChar, t.dropWhile isNameChar)

/-- Takes at most so many names with points between them, and the blanks around each. -/
def names : Nat → Reader (List Text)
  | 0        => fun _ => none
  | most + 1 => fun t => do
    let (k, t) ← name (dropBlanks t)
    match dropBlanks t with
    | '.' :: t =>
      let (ks, t) ← names most t
      return (k :: ks, t)
    | t        => return ([k], t)

/-- The greatest number of arrays and tables inside each other, and of names in a key. -/
def maxDepth : Nat := 80

/-- Takes a key. -/
def key : Reader (List Text) := names maxDepth

/-- Takes an equals sign. -/
def equals? : Text → Option Text
  | '=' :: t => some t
  | _        => none

/-! ### Values -/

mutual

/-- Takes a value. -/
def value (depth : Nat) : Nat → Reader Toml
  | 0         => fun _ => none
  | steps + 1 => fun t =>
    match t with
    | '"' :: _   => (Quoted.any t).map fun (s, t) => (.string s, t)
    | '\'' :: _  => (Quoted.any t).map fun (s, t) => (.string s, t)
    | '[' :: t   =>
      if maxDepth ≤ depth then none
      else (items (depth + 1) steps t).map fun (vs, t) => (.array false vs, t)
    | '\x7b' :: t =>
      if maxDepth ≤ depth then none
      else (members (depth + 1) steps [] t).map fun (ms, t) => (.table .closed ms, t)
    | _          => Scalar.any t

/-- Takes the items of an array and its closing bracket. -/
def items (depth : Nat) : Nat → Reader (List Toml)
  | 0         => fun _ => none
  | steps + 1 => fun t => do
    match ← gap? false t with
    | ']' :: t => return ([], t)
    | t        =>
      let (v, t) ← value depth steps t
      match ← gap? false t with
      | ',' :: t =>
        let (vs, t) ← items depth steps t
        return (v :: vs, t)
      | ']' :: t => return ([v], t)
      | _        => none

/-- Takes the members of a table written as a value and its closing brace, behind some members. -/
def members (depth : Nat) : Nat → Members → Reader Members
  | 0, _          => fun _ => none
  | steps + 1, ms => fun t => do
    match ← gap? false t with
    | '\x7d' :: t => return (ms, t)
    | t          =>
      let (ks, t) ← key t
      let t ← equals? (← gap? false t)
      let (v, t) ← value depth steps (← gap? false t)
      let ms ← assign v ks ms
      match ← gap? false t with
      | ',' :: t  => members depth steps ms t
      | '\x7d' :: t => return (ms, t)
      | _         => none

end

/-! ### Statements -/

/-- Takes a statement, from its first character on. -/
def statement : Reader Statement := fun t =>
  match t with
  | '[' :: '[' :: t => do
    match ← key t with
    | (ks, ']' :: ']' :: t) => return (.arrayHeader ks, t)
    | _                     => none
  | '[' :: t        => do
    match ← key t with
    | (ks, ']' :: t) => return (.header ks, t)
    | _              => none
  | t               => do
    let (ks, t) ← key t
    let t ← equals? t
    let (v, t) ← value 0 (t.length + 1) (dropBlanks t)
    return (.assignment ks v, t)

/-- The statements of a text. -/
def statementsIn : Nat → Text → Option (List Statement)
  | 0, _         => none
  | steps + 1, t => do
    match ← gap? false t with
    | [] => return []
    | t  =>
      let (s, t) ← statement t
      let t ← lineEnd? t
      return s :: (← statementsIn steps t)

/-- A text without a byte order mark at its front. -/
def dropMark : Text → Text
  | '\uFEFF' :: t => t
  | t             => t

/-- The statements of a document. -/
def statements? (t : Text) : Option (List Statement) := statementsIn (t.length + 1) (dropMark t)

/-- The members of a document. -/
def read (t : Text) : Option Members := do ofStatements? (← statements? t)

end EventLog.Toml
