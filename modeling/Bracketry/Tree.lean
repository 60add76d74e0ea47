import Bracketry.Token

/-!
# Trees

What a text is once its brackets are matched: leaves, which are tokens, and lists, which span
everything from an opening bracket to the closer that matches it. The brackets themselves are
leaves of their list, like anything else in it, and can be left out like anything else.

A list holds its span, because it cannot be told from the children where some are left out.

A forest is what stands side by side: the children of one list, or the top level of a text. A
`Branch` is a span with its forest on its own, where no tree is around it, as the whole of a text
has none.
-/

namespace Bracketry

/-- A token, or a list of trees. -/
inductive Tree
  | leaf (token : Token)
  | list (span : Span) (children : List Tree)

/-- Trees side by side. -/
abbrev Forest := List Tree

/-- A span and the trees in it. -/
structure Branch where
  span : Span
  children : Forest

namespace Tree

/-- The stretch of text that a tree takes. -/
def span : Tree → Span
  | leaf t => t.span
  | list s _ => s

/-- Whether a tree is a list. -/
def isList : Tree → Bool
  | leaf _ => false
  | list .. => true

/-- The list with a branch's span and trees. -/
def ofBranch (b : Branch) : Tree := list b.span b.children

end Tree

/-! ## Views of a forest -/

mutual

/-- The leaves of a tree, in the order of the text. -/
def Tree.leaves : Tree → List Token
  | .leaf t => [t]
  | .list _ children => Forest.leaves children

/-- The leaves of a forest, in the order of the text. -/
def Forest.leaves : Forest → List Token
  | [] => []
  | t :: ts => t.leaves ++ Forest.leaves ts

end

mutual

/-- How many lists a tree has, itself counted. -/
def Tree.lists : Tree → Nat
  | .leaf _ => 0
  | .list _ children => Forest.lists children + 1

/-- How many lists a forest has at all depths. -/
def Forest.lists : Forest → Nat
  | [] => 0
  | t :: ts => t.lists + Forest.lists ts

end

mutual

/-- How deep the lists of a tree are nested, itself counted. -/
def Tree.height : Tree → Nat
  | .leaf _ => 0
  | .list _ children => Forest.height children + 1

/-- How deep the lists of a forest are nested. -/
def Forest.height : Forest → Nat
  | [] => 0
  | t :: ts => max t.height (Forest.height ts)

end

mutual

/-- A tree and all below it, each with its depth, parents before children. -/
def Tree.walk (depth : Nat) : Tree → List (Nat × Tree)
  | .leaf t => [(depth, .leaf t)]
  | .list s children => (depth, .list s children) :: Forest.walk (depth + 1) children

/-- All trees of a forest, each with its depth, parents before children. -/
def Forest.walk (depth : Nat) : Forest → List (Nat × Tree)
  | [] => []
  | t :: ts => t.walk depth ++ Forest.walk depth ts

end

@[simp] theorem Forest.leaves_append (s t : Forest) :
    Forest.leaves (s ++ t) = Forest.leaves s ++ Forest.leaves t := by
  induction s with
  | nil => simp [Forest.leaves]
  | cons x s ih => simp [Forest.leaves, ih]

@[simp] theorem Forest.lists_append (s t : Forest) :
    Forest.lists (s ++ t) = Forest.lists s + Forest.lists t := by
  induction s with
  | nil => simp [Forest.lists]
  | cons x s ih => simp [Forest.lists, ih, Nat.add_assoc]

@[simp] theorem Forest.height_append (s t : Forest) :
    Forest.height (s ++ t) = max (Forest.height s) (Forest.height t) := by
  induction s with
  | nil => simp [Forest.height]
  | cons x s ih => simp [Forest.height, ih, Nat.max_assoc]

end Bracketry
