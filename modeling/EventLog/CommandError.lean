import EventLog.Error

/-!
# Errors of commands

What makes a command of the program end without success.  Each kind has an exit status of its own.
-/

namespace EventLog

/-- Why a command failed. -/
inductive CommandError where
  /-- The settings cannot be loaded or used. -/
  | settings (reason : Text)
  /-- The command itself refuses to go on. -/
  | command (reason : Text)
  /-- The input cannot be opened. -/
  | input (path reason : Text)
  /-- Decoding stopped. -/
  | decode (error : EventError)
  /-- There is no codec to work with. -/
  | codec (error : CodecError)
  /-- A report could not be written as JSON. -/
  | json (reason : Text)
  /-- An output failed. -/
  | io (reason : Text)
  /-- Any other error of the event model. -/
  | core (error : EventError)
deriving Repr, DecidableEq

namespace CommandError

/-- The text of an error. -/
def message : CommandError → Text
  | settings reason   => "configuration error: " ++ reason
  | command reason    => reason
  | input path reason => path ++ ": " ++ reason
  | decode error      =>
    "error " ++ Text.ofInt error.code ++ " in decoding stage: " ++ error.message
  | codec error       => "codec error: " ++ error.message
  | json reason       => "json output error: " ++ reason
  | io reason         => "io error: " ++ reason
  | core error        => error.message

/-- The exit status of an error. -/
def exitCode : CommandError → Nat
  | settings _ | codec _  => 2
  | core (.settings _)    => 2
  | decode _              => 3
  | input _ _ | io _      => 10
  | json _ | command _    => 1
  | core _                => 1

end CommandError

end EventLog
