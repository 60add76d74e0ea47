import Bracketry.Text.Lines
import Bracketry.Text.Padding
import Bracketry.Text.Place

/-!
# Excerpts

The part of a source that a message shows: a headline, the lines between two marks, and the marks
themselves, written as a `v` above the line where something starts and a `^` below the line where
it goes wrong.

    Unterminated double-quote string at line 3, column 3
      |    v start of double-quote string
    2 | (a "b c
    3 | d e
      |   ^ unterminated string: expected closing `"`

An excerpt shows at most five lines. Of a longer stretch it shows the first two and the last two,
with a row of dots for the rest. All rows under the headline have their bar in the same column, so
that a mark stands over or under the character that it is about.

A mark need not lie inside the source; a line that the source does not have is shown empty. But a
mark is moved to its column by blanks, and a text has only so many bytes (`render?`).
-/

namespace Bracketry

open Text

/-- A labelled place of an excerpt. -/
structure Excerpt.Mark where
  cursor : Cursor
  label : String

/-- What a message shows of a source. -/
structure Excerpt where
  title : String
  /-- Where it starts, if the excerpt is about a stretch of text. -/
  opening : Option Excerpt.Mark := none
  /-- Where it goes wrong; the headline names this place. -/
  closing : Excerpt.Mark

namespace Excerpt

/-- The most lines that are shown in full. -/
def maxLines : Nat := 5

/-- The most bytes of a text, where a size is a word of 64 bits with a sign. -/
def maxBytes : Nat := 0x7FFFFFFFFFFFFFFF

/-- What stands in the gutter for the lines left out. -/
def dots : String := "..."

/-- A row of source, or the row that stands for the lines left out. -/
inductive Row
  | line (index : Nat)
  | gap
deriving DecidableEq

/-- The marks, the upper one first. -/
def marks (e : Excerpt) : List Mark := e.opening.toList ++ [e.closing]

def last (e : Excerpt) : Nat := e.closing.cursor.line

/-- The first line shown: never below the last one. -/
def first (e : Excerpt) : Nat :=
  match e.opening with
  | none => e.last
  | some m => min m.cursor.line e.last

theorem first_le_last (e : Excerpt) : e.first ≤ e.last := by
  rw [first]
  split
  · exact Nat.le_refl _
  · exact Nat.min_le_right _ _

def elides (e : Excerpt) : Bool := maxLines ≤ e.last - e.first

/-- The rows between the marks. -/
def rows (e : Excerpt) : List Row :=
  if e.elides then [.line e.first, .line (e.first + 1), .gap, .line (e.last - 1), .line e.last]
  else (List.range' e.first (e.last - e.first + 1)).map .line

/-- The width of the gutter: the largest line number fits, and so do the dots if there are any. -/
def width (e : Excerpt) : Nat :=
  let digits := (toString (e.last + 1)).length
  if e.elides then max digits dots.length else digits

/-- The headline: the title, and the closing mark's place counted from one. -/
def headline (e : Excerpt) : String :=
  e.title ++ " at line " ++ toString (e.closing.cursor.line + 1) ++
    ", column " ++ toString (e.closing.cursor.column + 1)

/-- A row that holds a mark: its pointer stands in the mark's column. -/
def markRow (e : Excerpt) (pointer : String) (m : Mark) : String :=
  spaces e.width ++ " | " ++ spaces m.cursor.column ++ pointer ++ " " ++ m.label

/-- A row between the marks, with its number or the dots at the right of the gutter. -/
def sourceRow (e : Excerpt) (source : List (List Char)) : Row → String
  | .line i => padLeft e.width (toString (i + 1)) ++ " | " ++ String.ofList (source.getD i [])
  | .gap => padLeft e.width dots ++ " |"

/-- All rows of an excerpt, from the headline to the closing mark. -/
def layout (e : Excerpt) (source : List Char) : List String :=
  e.headline :: (e.opening.map (e.markRow "v")).toList ++
    e.rows.map (e.sourceRow (lines source)) ++ [e.markRow "^" e.closing]

def render (e : Excerpt) (source : List Char) : String :=
  "\n".intercalate (e.layout source)

/-- The text of an excerpt, if it takes at most `capacity` bytes. Blanks for a mark are not written
if they alone are more. -/
def render? (capacity : Nat) (e : Excerpt) (source : List Char) : Option String :=
  if e.marks.all (·.cursor.column ≤ capacity) then
    let text := e.render source
    if text.utf8ByteSize ≤ capacity then some text else none
  else none

end Excerpt

end Bracketry
