import EventLog.Text.Utf8

/-!
# Outputs

An output takes bytes until it has no room left; without a bound it takes all.  A write that does
not fit fails, and what does fit of it has been taken all the same.

Each write leaves what was taken of it as a piece of its own; what the output has taken is all
pieces together (`Output.taken`, `Output.taken_write`).
-/

namespace EventLog

/-- The pieces an output has taken, and how many bytes it will still take if there is a bound. -/
structure Output where
  written : Array Bytes
  room : Option Nat
deriving Repr, DecidableEq

namespace Output

/-- An output that has taken nothing. -/
def new (room : Option Nat) : Output := ⟨#[], room⟩

/-- The bytes an output has taken. -/
def taken (o : Output) : Bytes := o.written.toList.flatten

/-- What is said of a write that does not fit. -/
def fullReason : Text := "write failed"

/-- What fits of a write. -/
def fitting (o : Output) (bytes : Bytes) : Bytes :=
  match o.room with
  | none      => bytes
  | some room => bytes.take room

/-- Writes bytes; tells whether all of them were taken. -/
def write (bytes : Bytes) (o : Output) : Bool × Output :=
  (o.room.all fun room => bytes.length ≤ room,
    ⟨o.written.push (o.fitting bytes), o.room.map fun room => room - bytes.length⟩)

/-- Writes a text. -/
def writeText (t : Text) (o : Output) : Bool × Output := o.write (Utf8.encode t)

@[simp] theorem taken_new (room : Option Nat) : (new room).taken = [] := rfl

@[simp] theorem taken_write (bytes : Bytes) (o : Output) :
    (o.write bytes).2.taken = o.taken ++ o.fitting bytes := by
  simp [write, taken]

end Output

end EventLog
