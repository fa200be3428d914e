import EventLog.Text

/-!
# Errors

An error is a value that names its cause, and its wording is a function of the cause.  `EventError`
is the error of events and of everything that reads or writes them; each kind has a fixed number
(`EventError.code`), and an error inside a decoder carries the line it arose at and keeps the number
of its cause.  `CodecError` is what can go wrong when a codec is chosen, `SettingsError` what can be
wrong with a configuration.
-/

namespace EventLog

/-- What is wrong with a configuration. -/
inductive SettingsError where
  /-- There is no file of this name. -/
  | fileNotFound (path : Text)
  /-- The file is not a configuration. -/
  | malformed (reason : Text)
  /-- A field has a value that it cannot have. -/
  | invalidValue (field reason : Text)
deriving Repr, DecidableEq

/-- The text of a configuration error. -/
def SettingsError.message : SettingsError → Text
  | fileNotFound path         => "config file not found: " ++ path
  | malformed reason          => "failed to parse config: " ++ reason
  | invalidValue field reason => "invalid config value for '" ++ field ++ "': " ++ reason

/-- What is wrong with a list of names. -/
inductive NameListFault where
  /-- There is no name at this position. -/
  | emptyName (offset : Nat)
  /-- Any other fault. -/
  | other (reason : Text)
deriving Repr, DecidableEq

/-- The text of a fault in a list of names. -/
def NameListFault.message : NameListFault → Text
  | emptyName offset => "empty name at offset " ++ Text.ofNat offset
  | other reason     => reason

/-- Why there is no codec to work with. -/
inductive CodecError where
  /-- The list of field names is faulty. -/
  | nameList (list : Text) (fault : NameListFault)
  /-- No codec of this kind has this name. -/
  | unsupported (kind name : Text)
  /-- A codec needs something that was not given. -/
  | missingOption (codec what : Text)
  /-- An input or output failed. -/
  | io (reason : Text)
deriving Repr, DecidableEq

/-- The text of a codec error. -/
def CodecError.message : CodecError → Text
  | nameList list fault      => "invalid name list '" ++ list ++ "': " ++ fault.message
  | unsupported kind name    => "unsupported " ++ kind ++ ": " ++ name
  | missingOption codec what => codec ++ " requires " ++ what
  | io reason                => "io error: " ++ reason

/-- Why a line does not have the form its decoder expects. -/
inductive FormatFault where
  /-- The line has fewer than two bytes. -/
  | lineTooShort (size : Nat)
  /-- The first byte names no kind of line. -/
  | unknownLineKind (byte : UInt8)
  /-- The kind of line is not followed by a colon. -/
  | noColon
  /-- A field begins before any event has. -/
  | fieldOutsideEvent
  /-- A value stands where no field is open. -/
  | valueOutsideField
  /-- The line is not JSON. -/
  | malformedJson (reason : Text)
  /-- The line is JSON but not an object. -/
  | notObject
  /-- The tags of an event are not an array. -/
  | tagsNotArray
  /-- Any other fault. -/
  | other (reason : Text)
deriving Repr, DecidableEq

/-- A byte inside a message: as it is if it prints, else escaped. -/
def escapeByte (b : UInt8) : Text :=
  match Char.ofNat b.toNat with
  | '\t' => "\\t"
  | '\n' => "\\n"
  | '\r' => "\\r"
  | '\'' => "\\'"
  | '"'  => "\\\""
  | '\\' => "\\\\"
  | c    => if 0x20 ≤ b ∧ b < 0x7F then [c] else "\\x" ++ Text.hexByte b.toNat

/-- The text of a format fault. -/
def FormatFault.message : FormatFault → Text
  | lineTooShort size    => "line too short (" ++ Text.ofNat size ++ " bytes)"
  | unknownLineKind byte => "unknown line type '" ++ escapeByte byte ++ "'"
  | noColon              => "expected ':' after line type"
  | fieldOutsideEvent    => "field outside of an event"
  | valueOutsideField    => "value outside of a field"
  | malformedJson reason => reason
  | notObject            => "expected JSON object at top level"
  | tagsNotArray         => "'event.tags' must be an array"
  | other reason         => reason

/-- Why an operation refuses what it was given. -/
inductive ArgumentFault where
  /-- A reader that stops at a delimiter was given none, or one beyond ASCII. -/
  | noDelimiter
  /-- A value that has a type was to be set again. -/
  | alreadyTyped (type : Text)
  /-- A tag was to be added to a bucket while one of its tags is being looked at. -/
  | bucketBorrowed
  /-- A tag bucket and an event belong to different contexts. -/
  | foreignBucket
  /-- A codec could not be chosen. -/
  | codec (error : CodecError)
  /-- Any other fault. -/
  | other (reason : Text)
deriving Repr, DecidableEq

/-- The text of an argument fault. -/
def ArgumentFault.message : ArgumentFault → Text
  | noDelimiter       => "char-to parser needs an ASCII delimiter"
  | alreadyTyped type => "value already has type '" ++ type ++ "'"
  | bucketBorrowed    => "tag bucket is borrowed by an iterator"
  | foreignBucket     => "tag bucket belongs to a different context"
  | codec error       => error.message
  | other reason      => reason

/-- What was looked for in vain. -/
inductive Missing where
  /-- A field of this name. -/
  | field (name : Text)
  /-- Anything else. -/
  | other (what : Text)
deriving Repr, DecidableEq

/-- The text that names what is missing. -/
def Missing.message : Missing → Text
  | field name => "field '" ++ name ++ "'"
  | other what => what

/-- An error of the event model or of a codec at work. -/
inductive EventError where
  /-- An error of no particular kind. -/
  | generic (what : Text)
  /-- There is no memory left. -/
  | outOfMemory
  /-- There is no input left. -/
  | endOfInput
  /-- Text does not have the expected form. -/
  | invalidFormat (fault : FormatFault)
  /-- A field that has a name was to be named. -/
  | fieldAlreadyNamed (name : Text)
  /-- A field that is full was given another value. -/
  | tooManyValues (field : Text) (max : Nat)
  /-- The input does not hold what the reader reads. -/
  | wrongParser
  /-- An operation refuses its argument. -/
  | invalidArgument (fault : ArgumentFault)
  /-- Something was looked for in vain. -/
  | notFound (what : Missing)
  /-- A decoder stopped at a line. -/
  | decode (format : Text) (line : Nat) (source : EventError)
  /-- A configuration is faulty. -/
  | settings (error : SettingsError)
  /-- An input or output failed. -/
  | io (reason : Text)
deriving Repr, DecidableEq

namespace EventError

/-- The text of an error. -/
def message : EventError → Text
  | generic what              => "generic error: " ++ what
  | outOfMemory               => "out of memory"
  | endOfInput                => "end of input"
  | invalidFormat fault       => "invalid format: " ++ fault.message
  | fieldAlreadyNamed name    => "field already named: '" ++ name ++ "'"
  | tooManyValues field max   =>
    "too many values for field '" ++ field ++ "' (max: " ++ Text.ofNat max ++ ")"
  | wrongParser               => "wrong parser"
  | invalidArgument fault     => "invalid argument: " ++ fault.message
  | notFound what             => "not found: " ++ what.message
  | decode format line source =>
    format ++ " decoder: error processing line " ++ Text.ofNat line ++ ": " ++ source.message
  | settings error            => "config error: " ++ error.message
  | io reason                 => "io error: " ++ reason

/-- The number of an error's kind; a decoder's error has the number of its cause. -/
def code : EventError → Int
  | generic _ | settings _ | io _ => -1
  | outOfMemory                   => -2
  | endOfInput                    => -3
  | invalidFormat _               => -4
  | fieldAlreadyNamed _           => -5
  | tooManyValues _ _             => -6
  | wrongParser                   => -7
  | invalidArgument _             => -8
  | notFound _                    => -9
  | decode _ _ source             => source.code

end EventError

/-- A codec error as an error of the event model: a failed input or output stays one, anything else
is a refused argument. -/
def CodecError.toEventError : CodecError → EventError
  | io reason => .io reason
  | e         => .invalidArgument (.codec e)

/-! ### Computations that may fail -/

section

variable {ε α β : Type}

/-- A computation in two steps succeeds if both do. -/
theorem bind_eq_ok_iff {x : Except ε α} {f : α → Except ε β} {b : β} :
    x >>= f = .ok b ↔ ∃ a, x = .ok a ∧ f a = .ok b := by
  cases x with
  | error e => simp [bind, Except.bind]
  | ok a => simp [bind, Except.bind]

theorem toOption_eq_some_iff {x : Except ε α} {a : α} : x.toOption = some a ↔ x = .ok a := by
  cases x with
  | error e => simp [Except.toOption]
  | ok a' => simp [Except.toOption]

@[simp] theorem mapError_error {ε' : Type} (f : ε → ε') (e : ε) :
    (Except.error e : Except ε α).mapError f = .error (f e) := rfl

@[simp] theorem mapError_ok {ε' : Type} (f : ε → ε') (a : α) :
    (Except.ok a : Except ε α).mapError f = .ok a := rfl

theorem mapError_eq_ok_iff {ε' : Type} {f : ε → ε'} {x : Except ε α} {a : α} :
    x.mapError f = .ok a ↔ x = .ok a := by
  cases x <;> simp

end

end EventLog
