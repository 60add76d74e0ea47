import Bracketry.Tree

/-!
# Census of a forest

How many tokens of each kind a forest has, how many lists, and how deep they are nested. Only the
leaves are counted as tokens, so tokens that were left out while parsing are not in it. Lists and
depth do not depend on what was left out.
-/

namespace Bracketry

/-- What a forest consists of. -/
structure Census where
  /-- The kinds that occur and how often, in the alphabetical order of their names. -/
  tokens : List (Token.Kind × Nat)
  lists : Nat
  depth : Nat

namespace Census

/-- How often a kind occurs among tokens, if it does. -/
def count? (tokens : List Token) (kind : Token.Kind) : Option (Token.Kind × Nat) :=
  match tokens.countP (·.kind = kind) with
  | 0 => none
  | n + 1 => some (kind, n + 1)

/-- The census of a forest. -/
def ofForest (trees : Forest) : Census where
  tokens := Token.Kind.byName.filterMap (count? (Forest.leaves trees))
  lists := Forest.lists trees
  depth := Forest.height trees

/-- The number of tokens of all kinds. -/
def size (c : Census) : Nat := c.tokens.foldr (fun (_, n) total => n + total) 0

end Census

end Bracketry
