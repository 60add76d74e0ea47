import Bracketry.Record.Token
import Bracketry.Tree

/-!
# Records of trees

The record of a tree carries a tag, which says whether its other members are those of a token or of
a branch. The record of a branch on its own has no tag.

The tag is a word. In a record that was taken in whole before it is understood, which is any record
inside a tree, the number of the shape does as well.
-/

namespace Bracketry

open Json (Value)

inductive Tree.Shape
  | leaf
  | list

namespace Tree.Shape

def label : Shape → String
  | leaf => "Leaf"
  | list => "List"

/-- The shape that a tag says; the number of a shape is a tag only where `byNumber` allows it. -/
def ofValue? (byNumber : Bool) : Value → Option Shape
  | .string "Leaf" => some leaf
  | .string "List" => some list
  | .natural 0 => if byNumber then some leaf else none
  | .natural 1 => if byNumber then some list else none
  | _ => none

end Tree.Shape

def Branch.keys : List String := "children" :: Span.keys

mutual

def Tree.toValue : Tree → Value
  | .leaf t => .object ((Value.tagName, .string Tree.Shape.leaf.label) :: t.fields)
  | .list span children =>
    .object ((Value.tagName, .string Tree.Shape.list.label) ::
      ("children", .array (Forest.toValues children)) :: span.fields)

def Forest.toValues : Forest → List Value
  | [] => []
  | t :: ts => t.toValue :: Forest.toValues ts

end

def Branch.toValue (b : Branch) : Value :=
  .object (("children", .array (Forest.toValues b.children)) :: b.span.fields)

/-- The branch that a record says, if `read` reads its trees. -/
def Branch.ofValueWith? (read : Value → Option Tree) (v : Value) : Option Branch :=
  match v.members? Branch.keys with
  | some (some children :: span) => do return ⟨← Span.ofMembers? span, ← children.each? read⟩
  | _ => none

/-- The tree that a record says, if no more than `depth` lists are nested in it. -/
def Tree.ofWhole? : Nat → Bool → Value → Option Tree
  | 0, _, _ => none
  | depth + 1, byNumber, v =>
    match v.tagged? with
    | none => none
    | some (tag, body) =>
      match Tree.Shape.ofValue? byNumber tag with
      | none => none
      | some .leaf => (Token.ofValue? body true).map .leaf
      | some .list => (Branch.ofValueWith? (Tree.ofWhole? depth true) body).map .ofBranch

/-- The tree that a record says. Every part of the record must have been read. -/
def Tree.ofValue? (v : Value) (byNumber : Bool := false) : Option Tree :=
  if v.whole then Tree.ofWhole? Value.maxDepth byNumber v else none

def Branch.ofValue? (v : Value) : Option Branch := Branch.ofValueWith? Tree.ofValue? v

end Bracketry
