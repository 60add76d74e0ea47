import Bracketry.Text.Padding

/-!
# The console

What a run writes: results on one stream, complaints and the log on another. Both are values here
and are written out when the run is over.

A style is a list of terminal codes around a text. Padding belongs to the text, so that it is styled
with it. Where there is no color a style changes nothing.

The log is kept at three levels, each shown from its own verbosity on. A line of it has its level,
the scopes that it was written in, what happened, and values by name.
-/

namespace Bracketry.Cli

open Text

/-- What was written to the two streams. -/
structure Console where
  out : String := ""
  err : String := ""

/-! ## Styles -/

/-- How a text stands out. -/
inductive Style
  | bold
  | dimmed
  | red
  | green
  | yellow
  | cyan
  | boldRed
  | boldGreen
  | boldBlue

/-- The terminal codes of a style. -/
def Style.codes : Style → String
  | bold => "1"
  | dimmed => "2"
  | red => "31"
  | green => "32"
  | yellow => "33"
  | cyan => "36"
  | boldRed => "1;31"
  | boldGreen => "1;32"
  | boldBlue => "1;94"

/-- A text in a style, on a terminal that has color or on one that has not. -/
def Style.paint (style : Style) (color : Bool) (text : String) : String :=
  if color then "\x1b[" ++ style.codes ++ "m" ++ text ++ "\x1b[0m" else text

/-! ## The log -/

/-- How much a line of the log matters. -/
inductive Level
  | info
  | debug
  | trace

/-- The name of a level. -/
def Level.name : Level → String
  | info => "INFO"
  | debug => "DEBUG"
  | trace => "TRACE"

/-- The verbosity that shows a level. -/
def Level.shownFrom : Level → Nat
  | info => 1
  | debug => 2
  | trace => 3

/-- A scope of the log: an activity on a text of so many bytes. -/
def scope (activity : String) (bytes : Nat) : String :=
  activity ++ "\x7blen=" ++ toString bytes ++ "\x7d"

/-- A line of the log. -/
structure LogLine where
  level : Level
  /-- The scopes that it was written in, the outermost first. -/
  scopes : List String := []
  event : String
  values : List (String × String)

/-- The text of a line of the log. -/
def LogLine.text (e : LogLine) : String :=
  padLeft 5 e.level.name ++ " " ++
    (if e.scopes.isEmpty then "" else ":".intercalate e.scopes ++ ": ") ++
    " ".intercalate (e.event :: e.values.map fun (name, value) => name ++ "=" ++ value)

end Bracketry.Cli
