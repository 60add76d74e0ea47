/-!
# Places in a text

A place is said three ways at once: by the bytes before it in UTF-8, by the lines before it, and by
the characters before it on its line. All three count from zero. Only a line feed ends a line, and
a column counts characters, so that one step to the right is one column whatever the character
weighs.

The line and the column move together as a `Cursor`; the byte offset is kept beside them, because a
caller that feeds characters by hand announces each one's offset itself.
-/

namespace Bracketry.Text

/-- A line and a column, both counted from zero. -/
structure Cursor where
  line : Nat := 0
  column : Nat := 0
deriving DecidableEq

/-- Where the cursor stands after a character: at the start of the next line after a line feed, one
column further after any other. -/
def Cursor.advance (k : Cursor) (c : Char) : Cursor :=
  if c = '\n' then ⟨k.line + 1, 0⟩ else ⟨k.line, k.column + 1⟩

/-- A cursor together with the number of bytes before it. -/
structure Place extends Cursor where
  offset : Nat := 0
deriving DecidableEq

/-- The place behind a character that stands at `p`. -/
def Place.advance (p : Place) (c : Char) : Place :=
  { p.toCursor.advance c with offset := p.offset + c.utf8Size }

/-- The place behind a whole text that starts at `p`. -/
def Place.after (p : Place) (text : List Char) : Place :=
  text.foldl Place.advance p

@[simp] theorem Place.after_nil (p : Place) : p.after [] = p := rfl

@[simp] theorem Place.after_cons (p : Place) (c : Char) (text : List Char) :
    p.after (c :: text) = (p.advance c).after text := rfl

theorem Place.after_append (p : Place) (s t : List Char) :
    p.after (s ++ t) = (p.after s).after t :=
  List.foldl_append

/-- The place of the last character of a text, or its start if it has none. -/
def Place.ofLast (text : List Char) : Place :=
  ({} : Place).after text.dropLast

/-- The number of bytes that a text takes in UTF-8. -/
def byteLength (text : List Char) : Nat :=
  text.foldr (fun c n => c.utf8Size + n) 0

@[simp] theorem byteLength_nil : byteLength [] = 0 := rfl

@[simp] theorem byteLength_cons (c : Char) (text : List Char) :
    byteLength (c :: text) = c.utf8Size + byteLength text := rfl

@[simp] theorem byteLength_append (s t : List Char) :
    byteLength (s ++ t) = byteLength s + byteLength t := by
  induction s with
  | nil => simp
  | cons c s ih => simp [ih, Nat.add_assoc]

/-- Advancing over a text adds its bytes to the offset. -/
theorem Place.offset_after (p : Place) (text : List Char) :
    (p.after text).offset = p.offset + byteLength text := by
  induction text generalizing p with
  | nil => rfl
  | cons c text ih => simp [ih, Place.advance, Nat.add_assoc]

end Bracketry.Text
