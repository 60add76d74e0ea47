/-!
# Pieces and lines of a text

`pieces` takes a text apart at every occurrence of one character. `lines` are the pieces at line
feeds, as an editor shows them: a final line feed is followed by one more, empty line, so that every
place of the text lies on a line. `firstLine` is the headline of a message.

In lines, a carriage return that stands right before the end of a line belongs to the ending and not
to the line.
-/

namespace Bracketry.Text

/-- The pieces of a text between separators: one more than it has separators. -/
def pieces (separator : Char) : List Char → List (List Char)
  | [] => [[]]
  | c :: text =>
    if c = separator then [] :: pieces separator text
    else match pieces separator text with
      | [] => [[c]]
      | p :: ps => (c :: p) :: ps

/-- A line without the carriage return that may end it. -/
def dropReturn (line : List Char) : List Char :=
  if line.getLast? = some '\r' then line.dropLast else line

/-- The lines of a text. -/
def lines (text : List Char) : List (List Char) :=
  (pieces '\n' text).map dropReturn

/-- The first line of a text, empty if the text is. A carriage return at the end of a text that has
no line feed is kept. -/
def firstLine (text : List Char) : List Char :=
  if text.contains '\n' then dropReturn (text.takeWhile (· ≠ '\n')) else text

theorem pieces_ne_nil (separator : Char) (text : List Char) : pieces separator text ≠ [] := by
  cases text with
  | nil => simp [pieces]
  | cons c text =>
    rw [pieces]
    split
    · simp
    · split <;> simp

/-- A text has as many pieces as separators, and one more. -/
theorem length_pieces (separator : Char) (text : List Char) :
    (pieces separator text).length = text.count separator + 1 := by
  induction text with
  | nil => rfl
  | cons c text ih =>
    rw [pieces]
    split
    · next h => subst h; simp [ih]
    · next h =>
      split
      · next e => exact absurd e (pieces_ne_nil separator text)
      · next e => rw [e] at ih; simp_all

end Bracketry.Text
