import EventLog.CommandLine.Help

/-!
# The program

What the program does with its arguments, in given surroundings: what it writes, what error it ends
with, and its exit status.
-/

namespace EventLog.CommandLine

namespace Refusal

/-- Whether the program was asked for what it then says. -/
def isAnswer : Refusal → Bool
  | help _ _ | helpOnHelp _ | version => true
  | _                                 => false

/-- What the program says in place of doing something. -/
def text (colour : Bool) : Refusal → Text
  | help l full     => Help.text colour l full
  | helpOnHelp l    => Help.onHelp colour l
  | version         => Help.versionText
  | nothingGiven l  => Help.text colour l false
  | missingCommand  => "error: a subcommand is required\n"
  | unknownCommand  => "error: unrecognized subcommand\n"
  | unknownArgument => "error: unexpected argument\n"
  | invalidValue    => "error: invalid value for an option\n"
  | needlessValue   => "error: unexpected value for a flag\n"
  | repeated        => "error: an option cannot be used multiple times\n"

/-- The exit status. -/
def exitCode (r : Refusal) : Nat := if r.isAnswer then 0 else 2

end Refusal

/-- How the program ends without success. -/
inductive Failure where
  /-- The arguments were not understood, or asked for an answer only. -/
  | refused (r : Refusal)
  /-- The command failed. -/
  | failed (e : CommandError)
deriving Repr, DecidableEq

/-- The exit status. -/
def Failure.exitCode : Failure → Nat
  | refused r => r.exitCode
  | failed e  => e.exitCode

/-- What the program says on its error output. -/
def Failure.text (colour : Bool) : Failure → Text
  | refused r => if r.isAnswer then [] else r.text colour
  | failed e  => "ceelog: " ++ e.message ++ "\n"

/-! ### What a run needs -/

/-- The paths that a run may look at. -/
def Arguments.paths (a : Arguments) : List Text :=
  a.config.getD Settings.standardPath ::
    match a.command with
    | .convert o => o.input.toList
    | _          => []

/-- Whether a run reads its input. -/
def Arguments.readsInput (a : Arguments) : Bool :=
  match a.command with
  | .convert o => o.input.isNone
  | _          => false

/-- The variables that a run may look at. -/
def variableNames : List Text := Settings.variableNames ++ Style.variableNames

/-- What the program runs with. -/
structure Run where
  surroundings : Surroundings
  arguments : List Text
  /-- The lines of its input. -/
  input : Source
  /-- Whether its output is a terminal. -/
  terminal : Bool

/-! ### Commands -/

/-- The lines of a file. -/
def openInput (w : Surroundings) (path : Text) : Except CommandError Source :=
  match w.entry path with
  | .file bytes        => .ok (.ofBytes bytes none)
  | .directory         => .ok [.error (.io directoryReason)]
  | .missing           => .error (.input path missingReason)
  | .unreadable reason => .error (.input path reason)

/-- The command `convert`. -/
def convert (r : Run) (a : Arguments) (o : ConvertOptions) (out : Output) :
    Except CommandError Unit × Output :=
  let prepared : Except CommandError (Settings × Source) := do
    let (s, _) ← Settings.effective r.surroundings a.config
    let s ← o.apply a.logLevel s
    let source ← match o.input with
      | some path => openInput r.surroundings path
      | none      => .ok r.input
    return (s, source)
  match prepared with
  | .error e        => (.error e, out)
  | .ok (s, source) =>
    let done := Convert.run s source out
    (done.result.map fun _ => (), done.written.output)

/-- The settings that a report is made under; only the log level can be wrong. -/
def quietSettings (a : Arguments) : Settings :=
  { Settings.standard with
    general := { Settings.standard.general with logLevel := a.logLevel.getD "warn" } }

/-- Whether the log level of a report is one. -/
def checkLogLevel (a : Arguments) : Except CommandError Unit :=
  match (quietSettings a).validate with
  | .ok _        => .ok ()
  | .error fault => .error (.settings (EventError.settings fault).message)

/-- The command `config validate`. -/
def validate (r : Run) (a : Arguments) (out : Output) : Except CommandError Unit × Output :=
  let colour := Style.wanted r.surroundings.environment r.terminal
  let report := ValidationReport.make r.surroundings a.config
  match Report.write a.output (report.text colour) report.json out with
  | (.ok _, out)    =>
    (if report.valid then .ok () else .error (.settings "configuration is invalid"), out)
  | (.error e, out) => (.error e, out)

/-- The command `config show`. -/
def display (r : Run) (a : Arguments) (part? : Option Text) (out : Output) :
    Except CommandError Unit × Output :=
  let colour := Style.wanted r.surroundings.environment r.terminal
  let report? : Except CommandError SettingsReport := do
    let (s, origin) ← Settings.effective r.surroundings a.config
    SettingsReport.make s origin part?
  match report? with
  | .ok report => Report.write a.output (report.text colour) report.json out
  | .error e   => (.error e, out)

/-- A command whose log level is checked first. -/
def quietly (a : Arguments) (command : Output → Except CommandError Unit × Output) (out : Output) :
    Except CommandError Unit × Output :=
  match checkLogLevel a with
  | .ok _    => command out
  | .error e => (.error e, out)

/-- What arguments ask for. -/
def perform (r : Run) (a : Arguments) : Output → Except CommandError Unit × Output :=
  match a.command with
  | .convert o     => convert r a o
  | .validate      => quietly a (validate r a)
  | .display part? => quietly a (display r a part?)

/-- The whole run of the program. -/
def run (r : Run) (out : Output) : Option Failure × Output :=
  match read r.arguments with
  | .error refusal =>
    let colour := Style.wantedInHelp r.surroundings.environment r.terminal
    (some (.refused refusal),
      if refusal.isAnswer then (out.writeText (refusal.text colour)).2 else out)
  | .ok a          =>
    match perform r a out with
    | (.ok _, out)    => (none, out)
    | (.error e, out) => (some (.failed e), out)

/-- The exit status of a run. -/
def exitCode (f : Option Failure) : Nat := (f.map Failure.exitCode).getD 0

end EventLog.CommandLine
