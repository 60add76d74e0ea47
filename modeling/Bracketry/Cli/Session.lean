import Bracketry.Cli.Arguments
import Bracketry.Cli.Outline
import Bracketry.Failure
import Bracketry.Json.Writer
import Bracketry.Record.Envelope
import Bracketry.Report
import Bracketry.Settings
import Bracketry.Tree.Builder

/-!
# Commands

What each command does, from the files that it asks for to what it writes and the status that it
ends with. A command runs over any `Disk`, so that on a `FileTree` its whole outcome is a value.

All commands agree on what a good source is: one that can be read as text and that parses. Those
that build trees load the settings of the working folder first; a command that cannot load them does
nothing else. Settings choose what is kept of a source and which files of a folder are sources, and
neither decides whether a source is good.

A command ends in one of three ways (`Ending`). It may fail, which is said on the stream for
complaints; or it may have answered that something is wrong, and then the status says so too.
-/

namespace Bracketry.Cli

open Json (Layout Value)
open Text

/-- What a run depends on besides its arguments. -/
structure World (m : Type → Type) where
  disk : Disk m
  /-- The working folder as it is shown. -/
  home : String
  color : Bool
  verbosity : Nat

/-- A run under way: what it has written so far. -/
abbrev Session (m : Type → Type) := StateT Console m

/-- How a command ends. -/
inductive Ending
  | done
  /-- It answered, and the answer is that something is wrong. -/
  | rejected
  /-- It could not answer. -/
  | failed (message : String)
deriving DecidableEq

/-- The name of the file that holds the settings of a folder. -/
def settingsName : String := "sprig.config.json"

/-- What is said of settings that are no record of settings. -/
def badSettings : String := "<json error>"

section

variable {m : Type → Type} [Monad m]

/-! ## Writing -/

/-- A text on the stream for results. -/
def print (text : String) : Session m Unit := modify fun c => { c with out := c.out ++ text }

/-- A line on the stream for results. -/
def say (line : String) : Session m Unit := print (line ++ "\n")

/-- Lines on the stream for results. -/
def sayAll (lines : List String) : Session m Unit :=
  print (String.join (lines.map (· ++ "\n")))

/-- A line on the stream for complaints. -/
def complain (line : String) : Session m Unit :=
  modify fun c => { c with err := c.err ++ (line ++ "\n") }

/-- A line of the log, if the run is verbose enough. -/
def World.log (w : World m) (e : LogLine) : Session m Unit :=
  if e.level.shownFrom ≤ w.verbosity then complain e.text else pure ()

/-- A record on the stream for results. -/
def sayRecord (v : Value) : Session m Unit := say (v.render .indented)

/-! ## Reading -/

/-- A path as it is shown. -/
def World.show (w : World m) (path : String) : String := Path.join w.home path

/-- The settings of the working folder. -/
def loadSettings (w : World m) : Session m (Except String Settings) := do
  let shown := ("path", w.show settingsName)
  match ← w.disk.kind? settingsName with
  | none =>
    w.log { level := .debug, event := "no config file, using defaults", values := [shown] }
    return .ok {}
  | some _ =>
    match ← w.disk.read settingsName with
    | .error e => return .error e.message
    | .ok text =>
      match Settings.read? text with
      | none => return .error badSettings
      | some settings =>
        w.log { level := .info, event := "loaded config", values := [shown] }
        return .ok settings

/-- The text of a source. -/
def readSource (w : World m) (path : String) : Session m (Except String String) := do
  match ← w.disk.read path with
  | .error e => return .error (Failure.unreadable e).message
  | .ok source =>
    w.log { level := .debug, event := "read source"
            values := [("path", w.show path), ("bytes", toString source.utf8ByteSize)] }
    return .ok source

/-- The tokens of a source, logged within outer scopes. -/
def tokenizeLogged (w : World m) (outer : List String) (source : String) :
    Session m (Except Fault (List Token)) := do
  let result := Bracketry.tokenize source
  match result with
  | .error _ => return result
  | .ok tokens =>
    w.log { level := .debug, scopes := outer ++ [scope "tokenize" source.utf8ByteSize]
            event := "tokenized", values := [("count", toString tokens.length)] }
    return result

/-- The log of the lists that are closed in a source. -/
def logLists (w : World m) (scopes : List String) : List Span → Session m Unit
  | [] => pure ()
  | s :: ss => do
    w.log { level := .trace, scopes, event := "closed list"
            values := [("offset", toString s.start.offset), ("length", toString s.length)] }
    logLists w scopes ss

/-- The trees of a source, logged. -/
def parseLogged (w : World m) (source : String) (keep : Keep) :
    Session m (Except Fault Forest) := do
  let scopes := [scope "parse_with_options" source.utf8ByteSize]
  let _ ← tokenizeLogged w scopes source
  logLists w scopes (closedLists source)
  let result := Bracketry.parse source keep
  match result with
  | .error _ => return result
  | .ok trees =>
    w.log { level := .debug, scopes, event := "parsed"
            values := [("trees", toString trees.length)] }
    return result

/-! ## Commands on one file -/

/-- What is kept after flags have left out more. -/
def applyFlags (flags : List Flag) (k : Keep) : Keep :=
  { comments := k.comments && !(Flag.noComments ∈ flags)
    blanks := k.blanks && !(Flag.noBlanks ∈ flags)
    delimiters := k.delimiters && !(Flag.noDelimiters ∈ flags) }

/-- An envelope as a command's answer. -/
def answer (f : Envelope.Format α) (e : Envelope α) : Session m Ending := do
  sayRecord (e.toValue f)
  return if e.isSuccess then .done else .rejected

/-- Shows the tokens of a file. -/
def tokenize (w : World m) (path : String) (format : Format) : Session m Ending := do
  match ← readSource w path with
  | .error message => return .failed message
  | .ok source =>
    let result ← tokenizeLogged w [] source
    match format, result with
    | .json, _ => answer Token.format (.ofResult result)
    | .text, .error fault => return .failed fault.message
    | .text, .ok tokens =>
      sayAll (tokens.map (tokenRow w.color source.toList))
      say ""
      say ("   " ++ Style.green.paint w.color "✓" ++ " " ++ toString tokens.length ++ " tokens")
      return .done

/-- Shows the trees of a file. -/
def parse (w : World m) (path : String) (format : Format) (flags : List Flag) :
    Session m Ending := do
  match ← loadSettings w with
  | .error message => return .failed message
  | .ok settings =>
    match ← readSource w path with
    | .error message => return .failed message
    | .ok source =>
      let result ← parseLogged w source (applyFlags flags settings.keep)
      match format, result with
      | .json, _ => answer Tree.format (.ofResult result)
      | .text, .error fault => return .failed fault.message
      | .text, .ok trees =>
        sayAll (outline w.color source.toList trees)
        return .done

/-- Shows the sketch of a file. Everything is kept while parsing, so that the flags decide alone. -/
def simplify (w : World m) (path : String) (flags : List Flag) : Session m Ending := do
  match ← readSource w path with
  | .error message => return .failed message
  | .ok source =>
    match ← parseLogged w source {} with
    | .error fault => return .failed fault.message
    | .ok trees =>
      let keep := (applyFlags flags {}).toTrivia
      let sketches := (Forest.sketch? source.toList keep trees).getD []
      sayRecord (.array (Sketch.toValues sketches))
      return .done

/-- Shows the census of a file. -/
def stats (w : World m) (path : String) (format : Format) (flags : List Flag) :
    Session m Ending := do
  match ← loadSettings w with
  | .error message => return .failed message
  | .ok settings =>
    match ← readSource w path with
    | .error message => return .failed message
    | .ok source =>
      match ← parseLogged w source (applyFlags flags settings.keep) with
      | .error fault => return .failed fault.message
      | .ok trees =>
        let census := Census.ofForest trees
        match format with
        | .json => sayRecord census.toValue
        | .text =>
          say ("📊 " ++ Style.bold.paint w.color path)
          sayAll (figures trees.length census)
        return .done

/-! ## Checking -/

/-- A refused source as it is complained about. -/
def complaint (pretty : Bool) (source shown : String) (fault : Fault) : String :=
  if pretty then fault.report source shown
  else "    [" ++ toString fault.cause.code.number ++ "] " ++ fault.message

/-- Checks files one after the other, behind `failed` that were refused, and counts the refused
ones. A file that cannot be read ends the check. -/
def checkFiles (w : World m) (keep : Keep) (pretty : Bool) (failed : Nat) :
    List String → Session m (Except ReadError Nat)
  | [] => return .ok failed
  | path :: paths => do
    match ← w.disk.read path with
    | .error e => return .error e
    | .ok source =>
      let shown := w.show path
      match ← parseLogged w source keep with
      | .ok trees =>
        w.log { level := .debug, event := "checked"
                values := [("path", shown), ("trees", toString trees.length)] }
        say ("  " ++ Style.green.paint w.color "✓" ++ " " ++ shown)
        checkFiles w keep pretty failed paths
      | .error fault =>
        complain ("  " ++ Style.red.paint w.color "✗" ++ " " ++ shown)
        complain (complaint pretty source shown fault)
        checkFiles w keep pretty (failed + 1) paths

/-- Checks files and sums up. -/
def checkAll (w : World m) (keep : Keep) (pretty : Bool) (paths : List String) :
    Session m Ending := do
  match ← checkFiles w keep pretty 0 paths with
  | .error e => return .failed e.message
  | .ok failed =>
    say ""
    let count := toString paths.length
    if 0 < failed then
      say (Style.boldRed.paint w.color "✗" ++ " " ++ toString failed ++ " of " ++ count ++
        " files failed")
      return .rejected
    else
      say (Style.boldGreen.paint w.color "✓" ++ " " ++ count ++ " files ok")
      return .done

/-- The sources among the files below a folder, in the order of paths. -/
def sourcesOf (settings : Settings) (files : List (List String)) : List (List String) :=
  (files.filter fun parts => (parts.getLast?.map settings.isSource).getD false).mergeSort Path.le

/-- Checks a file, whatever its name, or all sources below a folder. -/
def check (w : World m) (path : String) (pretty : Bool) : Session m Ending := do
  match ← loadSettings w with
  | .error message => return .failed message
  | .ok settings =>
    say (Style.boldBlue.paint w.color "🔍 Checking sources...")
    match ← w.disk.kind? path with
    | none => return .failed ("Input path does not exist: " ++ path)
    | some .file => checkAll w settings.keep pretty [path]
    | some .folder =>
      match sourcesOf settings (← w.disk.filesBelow path) with
      | [] =>
        say (Style.yellow.paint w.color "⚠️  No source files found")
        return .done
      | sources =>
        say ("Found " ++ toString sources.length ++ " files")
        checkAll w settings.keep pretty (sources.map (·.foldl Path.join path))

/-! ## Runs -/

/-- What a command does. -/
def Command.perform (w : World m) : Command → Session m Ending
  | tokenize path format => Cli.tokenize w path format
  | parse path format flags => Cli.parse w path format flags
  | simplify path flags => Cli.simplify w path flags
  | check path pretty => Cli.check w path pretty
  | stats path format flags => Cli.stats w path format flags

end

/-- What a run comes to. -/
structure Outcome where
  /-- Zero if all went well, two for a command line without meaning, and one otherwise. -/
  status : Nat
  console : Console

/-- The end of a run. A failure is complained about between two empty lines. -/
def Outcome.ofEnding (color : Bool) : Ending × Console → Outcome
  | (.done, c) => ⟨0, c⟩
  | (.rejected, c) => ⟨1, c⟩
  | (.failed message, c) =>
    ⟨1, { c with
      err := c.err ++ "\n" ++ Style.boldRed.paint color "Error:" ++ " " ++ message ++ "\n\n" }⟩

/-- What is said of a command line without meaning. -/
def usage : String :=
  "usage: sprig [-v] tokenize|parse|simplify|check|stats PATH [OPTIONS]\n"

/-- The name of the program and its version. -/
def version : String := "sprig 0.1.0\n"

/-- A whole run, from the command line on. -/
def run {m : Type → Type} [Monad m] (disk : Disk m) (home : String) (color : Bool)
    (arguments : List String) : m Outcome :=
  match Request.ofArguments? 0 arguments with
  | none => return ⟨2, { err := usage }⟩
  | some .version => return ⟨0, { out := version }⟩
  | some (.run verbosity command) => do
    let ended ← (command.perform { disk, home, color, verbosity }).run {}
    return .ofEnding color ended

end Bracketry.Cli
