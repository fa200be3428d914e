import EventLog.Json

/-!
# Indented JSON

A value over several lines: each item and member stands on a line of its own, two blanks further in
than the bracket around it.  Without items or members the two brackets stand together.
-/

namespace EventLog.Json

/-- A line feed and the blanks of a depth. -/
def newline (depth : Nat) : Text := '\n' :: List.replicate (2 * depth) ' '

mutual

/-- The value, its brackets standing at a depth. -/
def pretty (depth : Nat) : Json → Text
  | array []            => "[]"
  | array (v :: vs)     =>
    ['['] ++ newline (depth + 1) ++ v.pretty (depth + 1) ++ prettyItems (depth + 1) vs ++
      newline depth ++ [']']
  | object []           => ['\x7b', '\x7d']
  | object ((k, v) :: ms) =>
    ['\x7b'] ++ newline (depth + 1) ++ stringText k ++ ": " ++ v.pretty (depth + 1) ++
      prettyMembers (depth + 1) ms ++ newline depth ++ ['\x7d']
  | v                   => v.compact

/-- Further items behind the first one. -/
def prettyItems (depth : Nat) : List Json → Text
  | []      => []
  | v :: vs => [','] ++ newline depth ++ v.pretty depth ++ prettyItems depth vs

/-- Further members behind the first one. -/
def prettyMembers (depth : Nat) : List (Text × Json) → Text
  | []           => []
  | (k, v) :: ms =>
    [','] ++ newline depth ++ stringText k ++ ": " ++ v.pretty depth ++ prettyMembers depth ms

end

end EventLog.Json
