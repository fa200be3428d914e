import EventLog.CommandLine.Option
import EventLog.Convert
import EventLog.Report

/-!
# Reading arguments

Arguments are read from left to right, at one level after another.  An option that takes a value may
have it attached, or take the next argument that does not begin with a dash; while it waits for
one, names of commands are values too.  An option is *settled*, that is, checked and noted, when the
next option that is known arrives or the level is complete; the level is complete when those below
it are.  Behind two dashes nothing is an option any more.

When arguments cannot be understood the first fault in this order is what is said (`Refusal`).
Asking for help or for the version is also answered in this way.
-/

namespace EventLog.CommandLine

/-- Why arguments do not lead to a command. -/
inductive Refusal where
  /-- Help was asked for, in full or in short. -/
  | help (l : Level) (full : Bool)
  /-- Help on the help command was asked for. -/
  | helpOnHelp (l : Level)
  /-- The version was asked for. -/
  | version
  /-- Nothing was given where a command is needed. -/
  | nothingGiven (l : Level)
  /-- Options but no command were given. -/
  | missingCommand
  /-- There is no such command. -/
  | unknownCommand
  /-- There is no such option, or no argument is expected. -/
  | unknownArgument
  /-- An option lacks its value or has one it cannot have. -/
  | invalidValue
  /-- An option that takes no value was given one. -/
  | needlessValue
  /-- An option was given twice. -/
  | repeated
deriving Repr, DecidableEq

/-- What has been read at a level. -/
structure Frame where
  level : Level
  /-- The options that have been settled, with their values. -/
  given : List (Opt × Text)
  /-- The option that has not been settled, with its value if it has one. -/
  pending : Option (Opt × Option Text)
deriving Repr, DecidableEq

namespace Frame

/-- Nothing has been read. -/
def start (l : Level) : Frame := ⟨l, [], none⟩

/-- Whether an option waits for its value. -/
def waits (f : Frame) : Bool :=
  match f.pending with
  | some (_, none) => true
  | _              => false

/-- Notes an option with its value; the third argument asks for help in full. -/
def note (f : Frame) (o : Opt) (value : Option Text) (full : Bool) : Except Refusal Frame :=
  match o, value, o.takes with
  | .help, none, _    => .error (.help f.level full)
  | .version, none, _ => .error .version
  | _, none, .nothing =>
    if f.given.any fun g => g.1 = o then .error .repeated
    else .ok { f with given := f.given ++ [(o, [])] }
  | _, none, _        => .error .invalidValue
  | _, some v, takes  =>
    if f.given.any fun g => g.1 = o then .error .repeated
    else if takes.accepts v then .ok { f with given := f.given ++ [(o, v)] }
    else .error .invalidValue

/-- Settles the option that has not been settled. -/
def settle (f : Frame) : Except Refusal Frame :=
  match f.pending with
  | none        => .ok f
  | some (o, v) => note { f with pending := none } o v false

/-- An option, perhaps with a value attached. -/
def take (f : Frame) (o : Opt) (attached : Option Text) (full : Bool) : Except Refusal Frame := do
  match o.takes, attached with
  | .nothing, none   => (← f.settle).note o none full
  | .nothing, some _ => .error .needlessValue
  | _, some v        => (← f.settle).note o (some v) full
  | _, none          => return { ← f.settle with pending := some (o, none) }

/-- An option by its name, perhaps with a value behind an equals sign. -/
def takeLong (f : Frame) (t : Text) : Except Refusal Frame :=
  let name := t.takeWhile (· ≠ '=')
  let attached := match t.dropWhile (· ≠ '=') with
    | []     => none
    | _ :: v => some v
  match f.level.long? name with
  | some o => f.take o attached true
  | none   => .error .unknownArgument

/-- Options by their letters; the rest behind one that takes a value is its value. -/
def takeShort (f : Frame) : Text → Except Refusal Frame
  | []     => .ok f
  | c :: t =>
    match f.level.short? c with
    | none   => .error .unknownArgument
    | some o =>
      if o.takes = .nothing then do takeShort (← f.take o none false) t
      else f.take o (match t with
        | []       => none
        | '=' :: v => some v
        | v        => some v) false

/-- The level is complete: its last option is settled, and a command is there if one is needed. -/
def finish (hasCommand : Bool) (f : Frame) : Except Refusal Frame := do
  let f ← f.settle
  if hasCommand || f.level.commands = [] then return f
  else if f.given = [] then .error (.nothingGiven f.level)
  else .error .missingCommand

/-- An argument that is neither an option nor a value of one. -/
def refuse (f : Frame) (behindDashes : Bool) (t : Text) : Refusal :=
  if f.level.commands = [] then .unknownArgument
  else if behindDashes ∧ ((f.level.command? t).isSome ∨ t = "help") then .unknownArgument
  else .unknownCommand

end Frame

/-- The answer of the help command, asked for at a level with these arguments. -/
def helpAnswer (l : Level) : List Text → Refusal
  | []      => .help l true
  | t :: ts =>
    match l.command? t with
    | some c => helpAnswer c ts
    | none   => if t = "help" ∧ l.commands ≠ [] ∧ ts = [] then .helpOnHelp l else .unknownCommand

/-- What has been read at all levels when no arguments are left, the innermost level first. -/
def finishAll (f : Frame) (outer : List Frame) : Except Refusal (List Frame) := do
  let f ← f.finish false
  return f :: (← outer.mapM (Frame.finish true))

/-- Reads the arguments that are left at a level, those around it being `outer`. -/
def readFrom (f : Frame) (outer : List Frame) (behindDashes : Bool) :
    List Text → Except Refusal (List Frame)
  | []      => finishAll f outer
  | t :: ts =>
    if behindDashes then .error (f.refuse true t)
    else
      match t, f.waits with
      | ['-', '-'], _           => readFrom f outer true ts
      | '-' :: '-' :: option, _ => do readFrom (← f.takeLong option) outer false ts
      | '-' :: c :: letters, _  => do readFrom (← f.takeShort (c :: letters)) outer false ts
      | _, true                 =>
        readFrom { f with pending := f.pending.map fun p => (p.1, some t) } outer false ts
      | _, false                =>
        if t = "help" ∧ f.level.commands ≠ [] then .error (helpAnswer f.level ts)
        else match f.level.command? t with
          | some c => readFrom (.start c) (f :: outer) false ts
          | none   => .error (f.refuse false t)

/-! ### The result -/

/-- What the program is to do. -/
inductive Command where
  | convert (options : ConvertOptions)
  | validate
  | display (part? : Option Text)
deriving Repr, DecidableEq

/-- What the arguments say. -/
structure Arguments where
  config : Option Text
  logLevel : Option Text
  output : ReportFormat
  command : Command
deriving Repr, DecidableEq

/-- The value of an option, the innermost one if it is given at several levels. -/
def valueOf? (o : Opt) (frames : List Frame) : Option Text :=
  frames.findSome? fun f => (f.given.find? fun g => g.1 = o).map Prod.snd

/-- The command of the innermost level. -/
def commandOf (l : Level) (value? : Opt → Option Text) : Command :=
  match l with
  | .display  => .display (value? .part)
  | .validate => .validate
  | _         => .convert
    { input := value? .input
      decoder := value? .decoder
      encoder := value? .encoder
      decoderFormat := value? .decoderFormat
      encoderFormat := value? .encoderFormat
      ultra := (value? .compact).isSome
      verbose := (value? .verbose).isSome }

/-- What the frames of all levels say together. -/
def ofFrames (frames : List Frame) : Arguments :=
  let value? (o : Opt) : Option Text := valueOf? o frames
  let innermost := ((frames.head?).map Frame.level).getD .program
  { config := value? .config
    logLevel := value? .logLevel
    output := ((value? .output).bind ReportFormat.ofName?).getD .text
    command := commandOf innermost value? }

/-- What arguments say. -/
def read (args : List Text) : Except Refusal Arguments :=
  (readFrom (.start .program) [] false args).map ofFrames

end EventLog.CommandLine
