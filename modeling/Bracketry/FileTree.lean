import Bracketry.Text.Lines

/-!
# File trees

Files and folders as a value, and what can be asked of a file system that holds them. `Disk` is the
questions; `FileTree.disk` answers them from a tree. A program that is written over `Disk` runs on
a real disk too, and is the same program.

A path is followed part by part. An empty part and a single dot stay where they are, two dots lead
to the folder around, and every part needs a folder to start from: `a/` names no file. What
surrounds a tree is not known and taken for empty folders.
-/

namespace Bracketry

open Text

/-- Why a file could not be read. -/
inductive ReadError
  | notFound
  | notFolder
  | isFolder
  /-- The bytes of the file are no text. -/
  | notText
  /-- Anything else, in the words of the system. -/
  | other (message : String)
deriving DecidableEq

/-- What is said of a file that could not be read. -/
def ReadError.message : ReadError → String
  | notFound => "No such file or directory (os error 2)"
  | notFolder => "Not a directory (os error 20)"
  | isFolder => "Is a directory (os error 21)"
  | notText => "stream did not contain valid UTF-8"
  | other message => message

/-- What a path can name. -/
inductive Entry
  | file
  | folder
deriving DecidableEq

/-- What programs ask of a file system. -/
structure Disk (m : Type → Type) where
  kind? : String → m (Option Entry)
  read : String → m (Except ReadError String)
  /-- The files below a folder at any depth, each by its parts from that folder on. -/
  filesBelow : String → m (List (List String))

inductive FileTree
  | file (content : ByteArray)
  | folder (entries : List (String × FileTree))

namespace FileTree

/-- Follows a path from a place in a tree. `around` are the folders around that place, the innermost
first. -/
def follow (around : List FileTree) (place : FileTree) : List String → Except ReadError FileTree
  | [] => .ok place
  | name :: path =>
    match place with
    | file _ => .error .notFolder
    | folder entries =>
      if name = "" ∨ name = "." then follow around place path
      else if name = ".." then
        match around with
        | [] => follow [] (folder []) path
        | outer :: around => follow around outer path
      else
        match entries.lookup name with
        | none => .error .notFound
        | some inner => follow (place :: around) inner path

def parts (path : String) : List String := (pieces '/' path.toList).map String.ofList

/-- What a path names, seen from the top of a tree. -/
def find (tree : FileTree) (path : String) : Except ReadError FileTree :=
  match parts path with
  | "" :: absolute => follow [] (folder []) absolute
  | relative => follow [] tree relative

def text : FileTree → Except ReadError String
  | folder _ => .error .isFolder
  | file content =>
    match String.fromUTF8? content with
    | some text => .ok text
    | none => .error .notText

mutual

/-- The files of a tree, each by its parts. -/
def files : FileTree → List (List String)
  | file _ => [[]]
  | folder entries => filesOf entries

/-- The files of the entries of a folder, each by its parts. -/
def filesOf : List (String × FileTree) → List (List String)
  | [] => []
  | (name, tree) :: entries => tree.files.map (name :: ·) ++ filesOf entries

end

def disk (tree : FileTree) : Disk Id where
  kind? path := match tree.find path with
    | .ok (file _) => some .file
    | .ok (folder _) => some .folder
    | .error _ => none
  read path := (tree.find path).bind text
  filesBelow path := match tree.find path with
    | .ok place => place.files
    | .error _ => []

/-! ## Making trees -/

/-- An entry of a folder in place of one of the same name, or behind all others. -/
def put (name : String) (tree : FileTree) : List (String × FileTree) → List (String × FileTree)
  | [] => [(name, tree)]
  | (other, old) :: entries =>
    if other = name then (name, tree) :: entries else (other, old) :: put name tree entries

/-- A tree with something put where a path leads; folders on the way are made as needed, and a
folder that is already there keeps its entries. -/
def insert (new : FileTree) : List String → FileTree → FileTree
  | [], old =>
    match new, old with
    | folder _, folder _ => old
    | _, _ => new
  | name :: path, old =>
    let entries := match old with
      | folder entries => entries
      | file _ => []
    folder (put name (insert new path ((entries.lookup name).getD (folder []))) entries)

/-- The tree of files that are given by their paths. A path that ends in a slash is a folder. -/
def ofFiles (files : List (String × ByteArray)) : FileTree :=
  files.foldl (fun tree (path, content) =>
    let names := parts path
    if names.getLast? = some "" then insert (folder []) names.dropLast tree
    else insert (file content) names tree) (folder [])

end FileTree

end Bracketry
