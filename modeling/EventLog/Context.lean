import EventLog.Text

/-!
# Contexts

The settings that events are made and written under.  Two flags change how events are written;
the compliance level and the two bucket sizes are carried along and change nothing.
-/

namespace EventLog

/-- How closely events are to follow their schema. -/
inductive Compliance where
  | none
  | full
deriving Repr, DecidableEq

/-- The name of a compliance level. -/
def Compliance.name : Compliance → Text
  | none => "none"
  | full => "full"

/-- The compliance level of a name. -/
def Compliance.ofName? (name : Text) : Option Compliance :=
  [none, full].find? fun c => c.name = name

/-- What changes how events are written. -/
structure Flags where
  /-- Leave out optional blanks and fields without values. -/
  ultraCompact : Bool
  /-- Write tags as an entry of their own where the format would leave them out. -/
  includeFlatTags : Bool
deriving Repr, DecidableEq

namespace Flags

/-- No flag is set. -/
def none : Flags := ⟨false, false⟩

/-- The flags of a bit set; bits that are no flag are dropped. -/
def ofBits (bits : Nat) : Flags := ⟨bits.testBit 0, bits.testBit 1⟩

/-- The flags as a bit set. -/
def toBits (f : Flags) : Nat := f.ultraCompact.toNat + 2 * f.includeFlatTags.toNat

end Flags

/-- The settings of a context. -/
structure Context where
  compliance : Compliance
  flags : Flags
  fieldBucketSize : Nat
  tagBucketSize : Nat
deriving Repr, DecidableEq

namespace Context

/-- A field bucket has room for eleven fields unless told otherwise. -/
def defaultFieldBucketSize : Nat := 11

/-- A tag bucket has room for five tags unless told otherwise. -/
def defaultTagBucketSize : Nat := 5

/-- A context without special settings. -/
def standard : Context := ⟨.none, .none, defaultFieldBucketSize, defaultTagBucketSize⟩

end Context

end EventLog
