import EventLog.Settings.Environment

/-!
# Styles

Words stand out on a terminal by the sequences around them (`Style.paint`).  The environment can
demand or forbid them, and otherwise a terminal decides; reports (`Style.wanted`) and help
(`Style.wantedInHelp`) read it by rules of their own.
-/

namespace EventLog

/-- How a word stands out. -/
inductive Style where
  | bold
  | boldUnderlined
  | boldGreen
  | boldRed
  | red
deriving Repr, DecidableEq

namespace Style

/-- The terminal's sequence that ends every style. -/
def reset : Text := "\x1b[0m"

/-- The terminal's sequence that begins a style. -/
def opening : Style → Text
  | bold           => "\x1b[1m"
  | boldUnderlined => "\x1b[1m\x1b[4m"
  | boldGreen      => "\x1b[1;32m"
  | boldRed        => "\x1b[1;31m"
  | red            => "\x1b[31m"

/-- A text in which the style is taken up again behind every end of a style; the number says
how many characters at its front are the rest of such an end. -/
def resumed (s : Style) : Nat → Text → Text
  | _, []          => []
  | 0, c :: t      =>
    if reset.isPrefixOf (c :: t) then c :: resumed s (reset.length - 1) t else c :: resumed s 0 t
  | 1, c :: t      => c :: (s.opening ++ resumed s 0 t)
  | n + 2, c :: t  => c :: resumed s (n + 1) t

/-- A text in a style, if colours are wanted. -/
def paint (colour : Bool) (s : Style) (t : Text) : Text :=
  if colour then s.opening ++ resumed s 0 t ++ reset else t

/-! ### What the environment says -/

/-- The variables that bear on colours. -/
def variableNames : List Text :=
  ["CLICOLOR_FORCE".toList, "NO_COLOR".toList, "CLICOLOR".toList, "TERM".toList, "CI".toList]

/-- Whether a variable is there and not empty. -/
def isFilled (env : Settings.Environment) (name : Text) : Bool := (env name).any fun v => v ≠ []

/-- Whether a variable, if it is there, is other than `0`. -/
def switch? (env : Settings.Environment) (name : Text) : Option Bool :=
  (env name).map fun v => v ≠ "0".toList

/-- Whether reports are to be in colour. -/
def wanted (env : Settings.Environment) (terminal : Bool) : Bool :=
  if switch? env "CLICOLOR_FORCE" = some true then true
  else if (env "NO_COLOR").isSome then false
  else (switch? env "CLICOLOR").getD true && terminal

/-- Whether the terminal is one that knows styles, as far as the environment tells. -/
def isCapable (env : Settings.Environment) : Bool :=
  (env "TERM").any (fun v => v ≠ "dumb".toList) || switch? env "CLICOLOR" = some true ||
    (env "CI").isSome

/-- Whether help is to be in colour. -/
def wantedInHelp (env : Settings.Environment) (terminal : Bool) : Bool :=
  if isFilled env "NO_COLOR" then false
  else if isFilled env "CLICOLOR_FORCE" then true
  else if switch? env "CLICOLOR" = some false then false
  else terminal && isCapable env

end Style

end EventLog
