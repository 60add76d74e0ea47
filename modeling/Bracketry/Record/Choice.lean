import Bracketry.Census
import Bracketry.Json.Record
import Bracketry.Keep
import Bracketry.Sketch

/-!
# Records of choices and summaries

What to keep is written as one flag for each choice. A flag that is missing is on, so the empty
record keeps everything. A sketch is written as what it is: a string, or an array of sketches.
-/

namespace Bracketry

open Json (Value)

namespace Keep

def Trivia.keys : List String := ["includeComments", "includeWhitespace"]

def Trivia.toValue (k : Trivia) : Value :=
  .object [("includeComments", .bool k.comments), ("includeWhitespace", .bool k.blanks)]

def Trivia.ofValue? (v : Value) : Option Trivia :=
  match v.members? Trivia.keys with
  | some [comments, blanks] => do
    return ⟨← Value.flag? true comments, ← Value.flag? true blanks⟩
  | _ => none

def keys : List String := ["includeComments", "includeWhitespace", "includeListDelimiters"]

def toValue (k : Keep) : Value :=
  .object [("includeComments", .bool k.comments), ("includeWhitespace", .bool k.blanks),
    ("includeListDelimiters", .bool k.delimiters)]

def ofValue? (v : Value) : Option Keep :=
  match v.members? keys with
  | some [comments, blanks, delimiters] => do
    return ⟨⟨← Value.flag? true comments, ← Value.flag? true blanks⟩,
      ← Value.flag? true delimiters⟩
  | _ => none

end Keep

/-! ## Sketches -/

mutual

def Sketch.toValue : Sketch → Value
  | .atom text => .string text
  | .list items => .array (Sketch.toValues items)

def Sketch.toValues : List Sketch → List Value
  | [] => []
  | s :: ss => s.toValue :: Sketch.toValues ss

end

mutual

def Sketch.ofValue? : Value → Option Sketch
  | .string text => some (.atom text)
  | .array items => (Sketch.ofValues? items).map .list
  | _ => none

def Sketch.ofValues? : List Value → Option (List Sketch)
  | [] => some []
  | v :: vs =>
    match Sketch.ofValue? v, Sketch.ofValues? vs with
    | some s, some ss => some (s :: ss)
    | _, _ => none

end

def Census.toValue (c : Census) : Value :=
  .object [("tokens", .object (c.tokens.map fun (kind, n) => (kind.name, .natural n))),
    ("lists", .natural c.lists), ("max_depth", .natural c.depth)]

end Bracketry
