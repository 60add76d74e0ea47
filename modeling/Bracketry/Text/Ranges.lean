/-!
# Ranges of characters

A property of characters is given as a list of ranges of code points, ends included. The ranges of
a table are in ascending order and apart from each other; membership does not depend on that.
-/

namespace Bracketry.Text

/-- Ranges of code points, ends included. -/
abbrev Ranges := List (Nat × Nat)

/-- Whether a character lies in one of the ranges. -/
def Ranges.has (ranges : Ranges) (c : Char) : Bool :=
  ranges.any fun (first, last) => first ≤ c.toNat && c.toNat ≤ last

end Bracketry.Text
