import Bracketry.Text.Blank
import Bracketry.Text.Table.Wide
import Bracketry.Text.Table.ZeroWidth

/-!
# Widths

How many columns a character takes where text is drawn above and below other text. A tab fills up
to the next multiple of four characters, and any other blank takes one column, so that a drawn line
holds no blanks but spaces. Controls take one column, as any character does that has no width of
its own.
-/

namespace Bracketry.Text

/-- The distance between tab stops. -/
def tabStop : Nat := 4

/-- The columns that a character takes as the one at `index` of its line. -/
def columns (index : Nat) (c : Char) : Nat :=
  if c = '\t' then tabStop - index % tabStop
  else if isBlank c then 1
  else if zeroWidthRanges.has c then 0
  else if wideRanges.has c then 2
  else 1

/-- A character as it is drawn: blanks as spaces, all else as it is. -/
def drawn (index : Nat) (c : Char) : List Char :=
  if isBlank c then List.replicate (columns index c) ' ' else [c]

/-- A line as it is drawn. -/
def drawnLine (line : List Char) : List Char :=
  (line.mapIdx drawn).flatten

end Bracketry.Text
