import EventLog.CommandLine.Program
import EventLog.Table

/-!
# The outermost layer

Looks at the machine for the program: everything a run may need is read before it, and what it
wrote is passed on behind it.
-/

namespace EventLog.Machine

/-- The number that the system gives a failure; some calls give it negated. -/
def failureNumber (code : UInt32) : Nat :=
  if code.toNat < 0x80000000 then code.toNat else 0x100000000 - code.toNat

/-- The text of a failure with a number. -/
def numberedFailure (code : UInt32) (details : String) : Text :=
  details.capitalize.toList ++ " (os error " ++ Text.ofNat (failureNumber code) ++ ")"

/-- The text of a failure. -/
def failureText : IO.Error → Text
  | .inappropriateType _ code details => numberedFailure code details
  | .permissionDenied _ code details  => numberedFailure code details
  | .resourceExhausted _ code details => numberedFailure code details
  | .invalidArgument _ code details   => numberedFailure code details
  | .resourceVanished code details    => numberedFailure code details
  | e                                 => e.toString.toList

/-- What a path leads to. -/
def entry (path : Text) : IO Entry := do
  try
    return .file (← IO.FS.readBinFile (String.ofList path)).toList
  catch
    | .noFileOrDirectory _ _ _ => return .missing
    | e                        =>
      let reason := failureText e
      return if reason = directoryReason then .directory else .unreadable reason

/-- What a run with these arguments sees. -/
def surroundings (paths : List Text) : IO Surroundings := do
  let entries ← paths.mapM fun path => return (path, ← entry path)
  let values ← CommandLine.variableNames.mapM fun name =>
    return (name, (← IO.getEnv (String.ofList name)).map String.toList)
  return ⟨fun path => (Table.get? path entries).getD .missing,
    fun name => (Table.get? name values).bind fun v => v⟩

/-- The lines of the input. -/
def input : IO Source := do
  try
    return .ofBytes (← (← IO.getStdin).readBinToEnd).toList none
  catch e =>
    return .ofBytes [] (some (.io (failureText e)))

end EventLog.Machine

open EventLog

/-- Runs the program. -/
def main (args : List String) : IO UInt32 := do
  let args := args.map String.toList
  let parsed := CommandLine.read args
  let paths := (parsed.toOption.map CommandLine.Arguments.paths).getD []
  let reads := (parsed.toOption.map CommandLine.Arguments.readsInput).getD false
  let stdout ← IO.getStdout
  let run : CommandLine.Run :=
    { surroundings := ← Machine.surroundings paths
      arguments := args
      input := ← if reads then Machine.input else pure []
      terminal := ← stdout.isTty }
  let (failure, output) := CommandLine.run run (.new none)
  stdout.write ⟨output.taken.toArray⟩
  stdout.flush
  let stderr ← IO.getStderr
  let colour := Style.wantedInHelp run.surroundings.environment (← stderr.isTty)
  stderr.putStr (String.ofList ((failure.map (CommandLine.Failure.text colour)).getD []))
  return .ofNat (CommandLine.exitCode failure)
