import Bracketry.Cli.Session

/-!
# The program

The command line on a real disk. All that is decided is decided in `Bracketry.Cli.run`; here files
are read, folders are listed, and what the run has written is put out.
-/

namespace Bracketry.Main

/-- Why the system could not read a file. The number of an error may come with its sign reversed. -/
def readError : IO.Error → ReadError
  | .noFileOrDirectory .. | .noSuchThing .. => .notFound
  | .inappropriateType _ code _ => if code = 21 ∨ code + 21 = 0 then .isFolder else .notFolder
  | e => .other (toString e)

/-- What a path names on the disk. -/
def kind? (path : String) : IO (Option Entry) := do
  try
    let data ← (← IO.FS.realPath path).metadata
    return if data.type matches .dir then some .folder else some .file
  catch _ => return none

def read (path : String) : IO (Except ReadError String) := do
  try
    let content ← IO.FS.readBinFile path
    match String.fromUTF8? content with
    | some text => return .ok text
    | none => return .error .notText
  catch e => return .error (readError e)

/-- The files below a folder on the disk. Folders that cannot be listed are passed over. -/
partial def filesBelow (path : String) : IO (List (List String)) := do
  try
    let mut files := []
    for inner in ← (← IO.FS.realPath path).readDir do
      match (← inner.path.symlinkMetadata).type with
      | .dir =>
        for below in ← filesBelow inner.path.toString do
          files := (inner.fileName :: below) :: files
      | .file => files := [inner.fileName] :: files
      | _ => pure ()
    return files
  catch _ => return []

/-- Whether output is styled: always if it is asked for, never if it is asked not to be, and
otherwise if it goes to a terminal. -/
def wantsColor : IO Bool := do
  match ← IO.getEnv "CLICOLOR_FORCE", ← IO.getEnv "NO_COLOR" with
  | some forced, _ => return forced != "0"
  | none, some _ => return false
  | none, none => (← IO.getStdout).isTty

end Bracketry.Main

/-- Runs the command line and ends with its status. -/
def main (arguments : List String) : IO UInt32 := do
  let home := toString (← IO.currentDir)
  let disk : Bracketry.Disk IO :=
    { kind? := Bracketry.Main.kind?
      read := Bracketry.Main.read
      filesBelow := Bracketry.Main.filesBelow }
  let outcome ← Bracketry.Cli.run disk home (← Bracketry.Main.wantsColor) arguments
  IO.print outcome.console.out
  IO.eprint outcome.console.err
  return outcome.status.toUInt32
