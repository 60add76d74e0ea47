import Bracketry.Keep
import Bracketry.Tree

/-!
# Sketches

A sketch is a forest without its positions: every leaf is its text, every list the sketch of what
is in it. Trivia may be left out while sketching, whatever was kept while parsing; what parsing
left out does not come back.

A sketch needs the text of each leaf that it shows, and there is none if a leaf is no slice of the
source. Lists are never cut out of the source.
-/

namespace Bracketry

/-- A text, or a list of sketches. -/
inductive Sketch
  | atom (text : String)
  | list (items : List Sketch)

mutual

/-- The sketch of a tree: nothing if the tree is a leaf that is left out. -/
def Tree.sketch? (source : List Char) (keep : Keep.Trivia) : Tree → Option (List Sketch)
  | .leaf t =>
    if keep.admits t.kind then
      (t.lexeme? source).map fun text => [.atom (String.ofList text)]
    else some []
  | .list _ children =>
    (Forest.sketch? source keep children).map fun items => [.list items]

/-- The sketches of the trees of a forest. -/
def Forest.sketch? (source : List Char) (keep : Keep.Trivia) : Forest → Option (List Sketch)
  | [] => some []
  | t :: ts =>
    match t.sketch? source keep, Forest.sketch? source keep ts with
    | some items, some rest => some (items ++ rest)
    | _, _ => none

end

mutual

/-- The texts of a sketch from left to right. -/
def Sketch.atoms : Sketch → List String
  | .atom text => [text]
  | .list items => Sketch.atomsOfAll items

/-- The texts of sketches from left to right. -/
def Sketch.atomsOfAll : List Sketch → List String
  | [] => []
  | s :: ss => s.atoms ++ Sketch.atomsOfAll ss

end

end Bracketry
