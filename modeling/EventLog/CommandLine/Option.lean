import EventLog.Text

/-!
# The options of the program

The program has commands within commands (`Level`).  Each level has options of its own; two options
may stand at every level.  A table says how each option is written, what it takes and what it is
for; reading arguments and writing help both go by it.
-/

namespace EventLog.CommandLine

/-- A command, or the program itself. -/
inductive Level where
  | program
  | convert
  | config
  | validate
  | display
deriving Repr, DecidableEq

namespace Level

/-- The commands of a level. -/
def commands : Level → List Level
  | program => [convert, config]
  | config  => [validate, display]
  | _       => []

/-- The name of a command. -/
def name : Level → Text
  | program  => "ceelog"
  | convert  => "convert"
  | config   => "config"
  | validate => "validate"
  | display  => "show"

/-- How a command is called, from the program on. -/
def call : Level → Text
  | program  => "ceelog"
  | convert  => "ceelog convert"
  | config   => "ceelog config"
  | validate => "ceelog config validate"
  | display  => "ceelog config show"

/-- What a command does. -/
def about : Level → Text
  | program  => "ceelog CLI -- convert events between log formats"
  | convert  => "Decode events from a line source and print them with an encoder"
  | config   => "Manage configuration"
  | validate => "Validate the configuration file and report errors"
  | display  => "Show the effective configuration (file + env overrides + defaults)"

/-- The command of a name. -/
def command? (l : Level) (name : Text) : Option Level := l.commands.find? fun c => c.name = name

end Level

/-- An option. -/
inductive Opt where
  | config
  | logLevel
  | output
  | input
  | decoder
  | encoder
  | decoderFormat
  | encoderFormat
  | compact
  | verbose
  | part
  | help
  | version
deriving Repr, DecidableEq

/-- What an option takes. -/
inductive Takes where
  /-- Nothing. -/
  | nothing
  /-- Any text. -/
  | text (label : Text)
  /-- A path, which is not empty. -/
  | path (label : Text)
  /-- One of some words, each with what it means. -/
  | word (label : Text) (words : List (Text × Text))
deriving Repr, DecidableEq

namespace Takes

/-- Whether a value can be given. -/
def accepts (value : Text) : Takes → Bool
  | nothing      => false
  | text _       => true
  | path _       => value ≠ []
  | word _ words => words.any fun w => w.1 = value

/-- What stands for the value in help, if there is one. -/
def label? : Takes → Option Text
  | nothing      => none
  | text label   => some label
  | path label   => some label
  | word label _ => some label

/-- The words of which one is to be given. -/
def words : Takes → List (Text × Text)
  | word _ ws => ws
  | _         => []

end Takes

namespace Opt

/-- The letter of an option. -/
def short? : Opt → Option Char
  | config        => some 'c'
  | input         => some 'i'
  | decoder       => some 'd'
  | encoder       => some 'e'
  | decoderFormat => some 'D'
  | encoderFormat => some 'E'
  | compact       => some 'c'
  | verbose       => some 'v'
  | help          => some 'h'
  | version       => some 'V'
  | _             => none

/-- The name of an option. -/
def long : Opt → Text
  | config        => "config"
  | logLevel      => "log-level"
  | output        => "output"
  | input         => "input"
  | decoder       => "decoder"
  | encoder       => "encoder"
  | decoderFormat => "decoder-format"
  | encoderFormat => "encoder-format"
  | compact       => "compact"
  | verbose       => "verbose"
  | part          => "section"
  | help          => "help"
  | version       => "version"

/-- What an option takes. -/
def takes : Opt → Takes
  | config        => .path "CONFIG"
  | logLevel      => .text "LOG_LEVEL"
  | output        => .word "OUTPUT"
    [("text".toList, "Human-readable text output".toList),
      ("json".toList, "Machine-readable JSON".toList)]
  | input         => .path "INPUT"
  | decoder       => .text "DECODER"
  | encoder       => .text "ENCODER"
  | decoderFormat => .text "DECODER_FORMAT"
  | encoderFormat => .text "ENCODER_FORMAT"
  | compact       => .word "COMPACT"
    [("ultra".toList, "Drop optional whitespace and fields without values".toList)]
  | part          => .text "SECTION"
  | verbose       => .nothing
  | help          => .nothing
  | version       => .nothing

/-- What an option is for. -/
def purpose : Opt → Text
  | config        =>
    "Path to the ceelog.toml configuration file (default: ./ceelog.toml when present)"
  | logLevel      => "Override log level (trace, debug, info, warn, error)"
  | output        => "Output format for report commands"
  | input         => "Input file (default: stdin)"
  | decoder       => "Decoder to use (int, apache, json)"
  | encoder       => "Encoder to use (syslog, json, xml, csv, all)"
  | decoderFormat => "Decoder field name list (required by the apache decoder)"
  | encoderFormat => "Encoder field name list (required by the csv encoder)"
  | compact       => "Encoding compactness"
  | verbose       => "Log every line read (raises the log level to trace)"
  | part          => "Show only a specific section (general, context, codec)"
  | help          => "Print help"
  | version       => "Print version"

/-- The value of an option that is not given. -/
def standard? : Opt → Option Text
  | output => some "text"
  | _      => none

end Opt

/-- The options of a level, in the order help shows them. -/
def Level.options : Level → List Opt
  | .program  => [.config, .logLevel, .output, .help, .version]
  | .convert  => [.input, .decoder, .logLevel, .encoder, .output, .decoderFormat, .encoderFormat,
    .compact, .verbose, .help]
  | .config   => [.logLevel, .output, .help]
  | .validate => [.logLevel, .output, .help]
  | .display  => [.part, .logLevel, .output, .help]

/-- The option of a name at a level. -/
def Level.long? (l : Level) (name : Text) : Option Opt := l.options.find? fun o => o.long = name

/-- The option of a letter at a level. -/
def Level.short? (l : Level) (c : Char) : Option Opt :=
  l.options.find? fun o => o.short? = some c

end EventLog.CommandLine
