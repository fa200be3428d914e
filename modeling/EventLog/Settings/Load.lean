import EventLog.CommandError
import EventLog.Settings.Document
import EventLog.Text.Utf8

/-!
# Loading settings

Settings come from a file, over which the environment is laid.  A file must be valid by itself
before the environment is looked at, and the result must be valid again.  Without a file given, one
of a fixed name is taken if it is there, and the standard settings otherwise.
-/

namespace EventLog

/-- What a path leads to. -/
inductive Entry where
  | file (bytes : Bytes)
  | directory
  /-- Nothing. -/
  | missing
  /-- Something that cannot be opened. -/
  | unreadable (reason : Text)

/-- What a program sees of the machine it runs on. -/
structure Surroundings where
  entry : Text → Entry
  environment : Settings.Environment

/-- What is said of a directory where a file was to be read. -/
def directoryReason : Text := "Is a directory (os error 21)"

/-- What is said of a file that is not there. -/
def missingReason : Text := "No such file or directory (os error 2)"

namespace Settings

/-- The text of a file. -/
def fileText (w : Surroundings) (path : Text) : Except EventError Text :=
  match w.entry path with
  | .missing           => .error (.settings (.fileNotFound path))
  | .directory         => .error (.io directoryReason)
  | .unreadable reason => .error (.io reason)
  | .file bytes        =>
    if Utf8.encode (Utf8.decode bytes) = bytes then .ok (Utf8.decode bytes)
    else .error (.io "stream did not contain valid UTF-8")

/-- The settings, if they can be used. -/
def validated (s : Settings) : Except EventError Settings :=
  match s.validate with
  | .ok _        => .ok s
  | .error fault => .error (.settings fault)

/-- The settings of a file. -/
def fromFile (w : Surroundings) (path : Text) : Except EventError Settings := do
  match parse (← fileText w path) with
  | .ok s        => validated s
  | .error fault => .error (.settings fault)

/-- The settings of a file with the environment laid over them. -/
def load (w : Surroundings) (path : Text) : Except EventError Settings := do
  validated ((← fromFile w path).withEnvironment w.environment)

/-- Where settings came from. -/
inductive Origin where
  | file (path : Text)
  | defaults
deriving Repr, DecidableEq

/-- The name of an origin. -/
def Origin.name : Origin → Text
  | file path => path
  | defaults  => "(defaults)"

/-- The file that is taken if none is given. -/
def standardPath : Text := "ceelog.toml"

/-- Whether a path leads anywhere. -/
def exists? (w : Surroundings) (path : Text) : Bool :=
  match w.entry path with
  | .file _ | .directory    => true
  | .missing | .unreadable _ => false

/-- The file to load, if there is one. -/
def pathToLoad (w : Surroundings) (given : Option Text) : Option Text :=
  match given with
  | some path => some path
  | none      => if exists? w standardPath then some standardPath else none

/-- The settings to run with, and where they came from. -/
def effective (w : Surroundings) (given : Option Text) : Except CommandError (Settings × Origin) :=
  let (loaded, origin) := match pathToLoad w given with
    | some path => (load w path, Origin.file path)
    | none      => (validated (standard.withEnvironment w.environment), .defaults)
  match loaded with
  | .ok s    => .ok (s, origin)
  | .error e => .error (.settings e.message)

end Settings

end EventLog
