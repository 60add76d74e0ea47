import Bracketry.Json.Reader
import Bracketry.Path
import Bracketry.Record.Choice

/-!
# Settings

What a folder of sources may choose for itself: which files in it are sources, by their extensions,
and what is kept of them. Settings are read from a record in which everything may be missing.
-/

namespace Bracketry

open Json (Value)

/-- The choices of a folder. -/
structure Settings where
  /-- The extensions of source files. -/
  extensions : List String := ["sprig", "lisp", "scm", "sexp"]
  keep : Keep := {}
deriving DecidableEq

namespace Settings

/-- Whether a path names a source file. Extensions are compared letter by letter. -/
def isSource (s : Settings) (path : String) : Bool :=
  match Path.extension? path with
  | some extension => s.extensions.contains extension
  | none => false

def keys : List String := ["sourceExtensions", "parse"]

def toValue (s : Settings) : Value :=
  .object [("sourceExtensions", .array (s.extensions.map .string)), ("parse", s.keep.toValue)]

def ofValue? (v : Value) : Option Settings :=
  match v.members? keys with
  | some [extensions, keep] => do
    let extensions ← match extensions with
      | none => some ({} : Settings).extensions
      | some v => v.each? Value.string?
    let keep ← match keep with
      | none => some {}
      | some v => Keep.ofValue? v
    return { extensions, keep }
  | _ => none

/-- The settings that a text says. -/
def read? (text : String) : Option Settings := (Json.read text).bind ofValue?

end Settings

end Bracketry
