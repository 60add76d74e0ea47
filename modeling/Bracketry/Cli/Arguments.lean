/-!
# Arguments

How a command line is understood. It names one command, and the command takes one path and the
options that are its own. Options may stand before or behind the path, and `--` ends them, so that a
path may begin with a dash.

An option is given at most once. Only the option for verbosity may be repeated, and it is counted; it
is also the only one that may stand before the command. Where it stands on both sides, what stands
behind the command counts.

The rules are applied one argument at a time (`Given.add?`). A line that breaks one of them has no
meaning, and nothing is said about which one it was.
-/

namespace Bracketry.Cli

/-- How a result is shown. -/
inductive Format
  | text
  | json
deriving DecidableEq

/-- The format of a given name. -/
def Format.ofName? : String → Option Format
  | "text" => some text
  | "json" => some json
  | _ => none

/-- The commands by name. -/
inductive Verb
  | tokenize
  | parse
  | simplify
  | check
  | stats
deriving DecidableEq

/-- The command of a given name. -/
def Verb.ofName? : String → Option Verb
  | "tokenize" => some tokenize
  | "parse" => some parse
  | "simplify" => some simplify
  | "check" => some check
  | "stats" => some stats
  | _ => none

/-- The options that are given by their name alone. -/
inductive Flag
  | noComments
  | noBlanks
  | noDelimiters
  | pretty
deriving DecidableEq

/-- The flag of a given name. -/
def Flag.ofName? : String → Option Flag
  | "no-comments" => some noComments
  | "no-whitespace" => some noBlanks
  | "no-delimiters" => some noDelimiters
  | "pretty" => some pretty
  | _ => none

/-- The flags of a command. -/
def Verb.flags : Verb → List Flag
  | tokenize => []
  | parse | stats => [.noComments, .noBlanks, .noDelimiters]
  | simplify => [.noComments, .noBlanks]
  | check => [.pretty]

/-- Whether a command's result has a format. -/
def Verb.hasFormat : Verb → Bool
  | tokenize | parse | stats => true
  | simplify | check => false

/-- What the arguments of a command have given so far. -/
structure Given where
  path : Option String := none
  format : Option Format := none
  flags : List Flag := []
  verbosity : Nat := 0
  /-- The last argument was the option for the format, whose value comes next. -/
  awaitsFormat : Bool := false
  /-- The options have ended. -/
  pathsOnly : Bool := false

namespace Given

/-- A path. A command takes one, and it is not empty. -/
def addPath? (g : Given) (path : String) : Option Given :=
  if g.path.isSome ∨ path = "" then none else some { g with path := some path }

/-- The value of the option for the format. -/
def setFormat? (g : Given) (value : String) : Option Given :=
  match g.format, Format.ofName? value with
  | none, some format => some { g with format := some format, awaitsFormat := false }
  | _, _ => none

/-- The option for the format, without its value. -/
def awaitFormat? (g : Given) : Option Given :=
  if g.format.isSome then none else some { g with awaitsFormat := true }

/-- A flag. -/
def addFlag? (g : Given) (flag : Flag) : Option Given :=
  if flag ∈ g.flags then none else some { g with flags := flag :: g.flags }

/-- An option by its long name, without the dashes, and the value that is tied to it. -/
def addLong? (verb : Verb) (g : Given) (name : String) (value : Option String) : Option Given :=
  if name = "verbose" then
    if value.isSome then none else some { g with verbosity := g.verbosity + 1 }
  else if name = "format" ∧ verb.hasFormat then
    match value with
    | some value => g.setFormat? value
    | none => g.awaitFormat?
  else
    match Flag.ofName? name, value with
    | some flag, none => if flag ∈ verb.flags then g.addFlag? flag else none
    | _, _ => none

/-- Options by their letters, without the dash. What follows the letter of the format is its value,
and an equals sign may stand between them. -/
def addShort? (verb : Verb) (g : Given) : List Char → Option Given
  | [] => some g
  | 'v' :: letters => addShort? verb { g with verbosity := g.verbosity + 1 } letters
  | 'f' :: letters =>
    if verb.hasFormat then
      match letters with
      | [] => g.awaitFormat?
      | '=' :: value => g.setFormat? (String.ofList value)
      | value => g.setFormat? (String.ofList value)
    else none
  | _ => none

/-- One argument of a command. A single dash is a path. -/
def add? (verb : Verb) (g : Given) (argument : String) : Option Given :=
  if g.awaitsFormat then g.setFormat? argument
  else if g.pathsOnly then g.addPath? argument
  else
    match argument.toList with
    | ['-', '-'] => some { g with pathsOnly := true }
    | '-' :: '-' :: option =>
      let name := String.ofList (option.takeWhile (· ≠ '='))
      match option.dropWhile (· ≠ '=') with
      | _ :: value => g.addLong? verb name (some (String.ofList value))
      | [] => g.addLong? verb name none
    | '-' :: letter :: letters => g.addShort? verb (letter :: letters)
    | _ => g.addPath? argument

end Given

/-- A command with everything that it needs. -/
inductive Command
  | tokenize (path : String) (format : Format)
  | parse (path : String) (format : Format) (flags : List Flag)
  | simplify (path : String) (flags : List Flag)
  | check (path : String) (pretty : Bool)
  | stats (path : String) (format : Format) (flags : List Flag)
deriving DecidableEq

/-- What a command line asks for. -/
inductive Request
  | version
  | run (verbosity : Nat) (command : Command)
deriving DecidableEq

/-- The command that its arguments give. The format is text unless they say otherwise. -/
def Given.command? (verb : Verb) (g : Given) : Option Command :=
  match g.path with
  | none => none
  | some path =>
    if g.awaitsFormat then none
    else
      let format := g.format.getD .text
      match verb with
      | .tokenize => some (.tokenize path format)
      | .parse => some (.parse path format g.flags)
      | .simplify => some (.simplify path g.flags)
      | .check => some (.check path (.pretty ∈ g.flags))
      | .stats => some (.stats path format g.flags)

/-- The request of a command's arguments, where `outer` counts the options for verbosity before the
command. -/
def Request.ofCommand? (outer : Nat) (verb : Verb) (arguments : List String) : Option Request :=
  match arguments.foldlM (Given.add? verb) {} with
  | none => none
  | some g =>
    (g.command? verb).map (.run (if g.verbosity = 0 then outer else g.verbosity))

/-- What letters before the command say: that the version is wanted, or how many of them ask for
verbosity. -/
def readLetters? (count : Nat) : List Char → Option (Option Nat)
  | [] => some (some count)
  | 'v' :: letters => readLetters? (count + 1) letters
  | 'V' :: _ => some none
  | _ => none

/-- The request of a command line from some argument on, behind `outer` options for verbosity. -/
def Request.ofArguments? (outer : Nat) : List String → Option Request
  | [] => none
  | argument :: arguments =>
    match argument.toList with
    | '-' :: '-' :: option =>
      if option = "version".toList then some .version
      else if option = "verbose".toList then ofArguments? (outer + 1) arguments
      else none
    | '-' :: letter :: letters =>
      match readLetters? 0 (letter :: letters) with
      | none => none
      | some none => some .version
      | some (some count) => ofArguments? (outer + count) arguments
    | _ =>
      match Verb.ofName? argument with
      | none => none
      | some verb => ofCommand? outer verb arguments

end Bracketry.Cli
