import Bracketry.Text.Lines

/-!
# Paths

A path is a text with slashes. What a path names does not depend on empty parts or on parts that are
a single dot, so neither do the name and the extension of a file; what a path looks like does, and
`Path.join` keeps every part as it was given.

Paths are ordered part by part: a folder's files come before its neighbours whose names continue
its own, `a/b` before `a-b`.
-/

namespace Bracketry.Path

open Text

/-- The parts of a path between slashes. -/
def parts (path : String) : List (List Char) := pieces '/' path.toList

/-- The last part that means something, unless it leads upwards. -/
def fileName? (path : String) : Option (List Char) :=
  match ((parts path).filter fun p => p ≠ [] ∧ p ≠ ['.']).getLast? with
  | some ['.', '.'] => none
  | name => name

/-- What follows the last dot of a file's name, if the dot does not begin the name. -/
def extensionOf? (name : List Char) : Option (List Char) :=
  let ending := (name.reverse.takeWhile (· ≠ '.')).reverse
  if name.length ≤ ending.length + 1 then none else some ending

/-- The extension of the file that a path names. -/
def extension? (path : String) : Option String :=
  ((fileName? path).bind extensionOf?).map String.ofList

/-- Whether a path starts at the root of the file system. -/
def isAbsolute (path : String) : Bool := path.toList.head? == some '/'

/-- A path as seen from a folder. -/
def join (folder path : String) : String :=
  if isAbsolute path then path
  else if folder.toList.getLast? = some '/' then folder ++ path
  else folder ++ "/" ++ path

/-- The order of paths that are given by their parts. -/
def le : List String → List String → Bool
  | [], _ => true
  | _ :: _, [] => false
  | a :: as, b :: bs => if a = b then le as bs else a < b

end Bracketry.Path
