import EventLog.CommandLine.Arguments

/-!
# Help

Help on a level says what it does, how it is called, and what its commands and options are.  In
short, each option has one entry; in full, entries stand apart and the words an option takes are
explained.  The entries of a list stand in two columns, or, when the second one would be too narrow
for one of the entries, on two lines each.  On demand the words to be typed and the heads of the
parts stand out (`colour`); the layout goes by what a reader sees.
-/

namespace EventLog.CommandLine.Help

/-- The width that help is laid out for. -/
def width : Nat := 100

/-- A word to be typed as it stands. -/
def literal (colour : Bool) (t : Text) : Text := Style.bold.paint colour t

/-- The head of a part of the help. -/
def heading (colour : Bool) (t : Text) : Text := Style.boldUnderlined.paint colour t

/-- The form of an option without its letter. -/
def form (colour : Bool) (o : Opt) : Text :=
  literal colour ("--" ++ o.long) ++ match o.takes.label? with
    | some label => " <" ++ label ++ ">"
    | none       => []

/-- The form of an option, its letter or the blanks in place of it included. -/
def entryForm (colour : Bool) (o : Opt) : Text :=
  (match o.short? with
    | some c => "  " ++ literal colour ['-', c] ++ ", "
    | none   => List.replicate 6 ' ') ++ form colour o

/-- What an option is for; the options for help itself point to the other kind of help. -/
def purpose (full : Bool) : Opt → Text
  | .help =>
    if full then "Print help (see a summary with '-h')" else "Print help (see more with '--help')"
  | o     => o.purpose

/-- The value of an option that is not given. -/
def standardNote (o : Opt) : Text :=
  match o.standard? with
  | some v => "[default: " ++ v ++ "]"
  | none   => []

/-- The words an option takes. -/
def wordsNote (o : Opt) : Text :=
  if o.takes.words = [] then []
  else "[possible values: " ++ [',', ' '].intercalate (o.takes.words.map Prod.fst) ++ "]"

/-- What stands behind the purpose of an option in short help. -/
def notes (o : Opt) : Text :=
  [' '].intercalate ([standardNote o, wordsNote o].filter (· ≠ []))

/-- The second column of an option in short help. -/
def summary (o : Opt) : Text :=
  purpose false o ++ if notes o = [] then [] else ' ' :: notes o

/-- The greatest length of some texts. -/
def longest (ts : List Text) : Nat := ts.foldl (fun n t => max n t.length) 0

/-- Whether the second column is too narrow for a text. -/
def isNarrow (first : Nat) (t : Text) : Bool :=
  40 < first + 12 && width - (first + 12) < t.length

/-- An entry of a list. -/
structure Entry where
  /-- How many columns its form takes. -/
  formWidth : Nat
  form : Text
  summary : Text

/-- Two columns. -/
def columns (entries : List Entry) : Text :=
  let first := entries.foldl (fun n e => max n e.formWidth) 0
  ['\n'].intercalate (entries.map fun e =>
    e.form ++ List.replicate (first - e.formWidth + 2) ' ' ++ e.summary)

/-- The entry of an option in short help. -/
def optionEntry (colour : Bool) (o : Opt) : Entry :=
  ⟨(entryForm false o).length, entryForm colour o, summary o⟩

/-- The entry of a command. -/
def commandEntry (colour : Bool) (name about : Text) : Entry :=
  ⟨name.length + 2, ' ' :: ' ' :: literal colour name, about⟩

/-- The blanks in front of what stands below a form. -/
def margin : Text := List.replicate 10 ' '

/-- The options of a level in short help. -/
def shortOptions (colour : Bool) (l : Level) : Text :=
  let first := longest (l.options.map (form false))
  if l.options.any fun o => isNarrow first (summary o) then
    ['\n'].intercalate (l.options.map fun o =>
      entryForm colour o ++ "\n" ++ margin ++ summary o)
  else columns (l.options.map (optionEntry colour))

/-- A word an option takes, explained. -/
def wordLine (colour : Bool) (first : Nat) (word : Text × Text) : Text :=
  "\n" ++ margin ++ "- " ++ literal colour word.1 ++ ": " ++
    List.replicate (first - word.1.length) ' ' ++ word.2

/-- The words an option takes, explained. -/
def wordList (colour : Bool) (o : Opt) : Text :=
  let words := o.takes.words
  if words = [] then []
  else
    "\n\n" ++ margin ++ "Possible values:" ++
      words.flatMap (wordLine colour (longest (words.map Prod.fst)))

/-- The value of an option that is not given, below what the option is for. -/
def standardLine (o : Opt) : Text :=
  if standardNote o = [] then [] else "\n" ++ margin ++ "\n" ++ margin ++ standardNote o

/-- An option in full help. -/
def fullOption (colour : Bool) (o : Opt) : Text :=
  entryForm colour o ++ "\n" ++ margin ++ purpose true o ++ wordList colour o ++ standardLine o

/-- The options of a level. -/
def optionList (colour : Bool) (l : Level) (full : Bool) : Text :=
  if full then ['\n', '\n'].intercalate (l.options.map (fullOption colour))
  else shortOptions colour l

/-- What the help command of a level is for. -/
def aboutHelp : Text := "Print this message or the help of the given subcommand(s)"

/-- The commands of a level, and the one for help. -/
def commandList (colour : Bool) (l : Level) : Text :=
  columns (l.commands.map (fun c => commandEntry colour c.name c.about) ++
    [commandEntry colour "help" aboutHelp])

/-- How something is called. -/
def usageLine (colour : Bool) (call : Text) (behind : Text) : Text :=
  heading colour "Usage:" ++ " " ++ literal colour call ++ " " ++ behind ++ "\n"

/-- How a level is called, and its commands if it has any. -/
def usage (colour : Bool) (l : Level) : Text :=
  if l.commands = [] then usageLine colour l.call "[OPTIONS]"
  else
    usageLine colour l.call "[OPTIONS] <COMMAND>" ++ "\n" ++ heading colour "Commands:" ++ "\n" ++
      commandList colour l ++ "\n"

/-- Help on a level. -/
def text (colour : Bool) (l : Level) (full : Bool) : Text :=
  l.about ++ "\n\n" ++ usage colour l ++ "\n" ++ heading colour "Options:" ++ "\n" ++
    optionList colour l full ++ "\n"

/-- Help on the help command of a level. -/
def onHelp (colour : Bool) (l : Level) : Text :=
  aboutHelp ++ "\n\n" ++ usageLine colour (l.call ++ " help") "[COMMAND]..." ++ "\n" ++
    heading colour "Arguments:" ++ "\n  [COMMAND]...  Print help for the subcommand(s)\n"

/-- The version. -/
def version : Text := "0.1.0"

/-- What the program says when it is asked for its version. -/
def versionText : Text := "ceelog " ++ version ++ "\n"

end EventLog.CommandLine.Help
