/-!
# Segments of a text

A text taken apart behind every line terminator of Unicode, with the terminators kept: a line feed,
a carriage return with or without one, a vertical tab, a form feed, the next-line control, and the
line and paragraph separators. No segment is empty, so nothing follows a final terminator, and
joining the segments gives the text back.

These are the lines of a drawing program. They are finer than the lines of `Bracketry.Text.Lines`,
which only a line feed ends.
-/

namespace Bracketry.Text

/-- Whether a character ends a segment, given the one behind it: a carriage return leaves that to
the line feed that follows it. -/
def endsSegment (c : Char) (next : Option Char) : Bool :=
  c == '\n' || c == '\x0b' || c == '\x0c' || c == '\u0085' || c == '\u2028' || c == '\u2029' ||
    (c == '\r' && next != some '\n')

/-- The segments of a text. -/
def segments : List Char → List (List Char)
  | [] => []
  | c :: rest =>
    if endsSegment c rest.head? then [c] :: segments rest
    else match segments rest with
      | [] => [[c]]
      | s :: ss => (c :: s) :: ss

/-- Nothing is lost between segments. -/
theorem flatten_segments (text : List Char) : (segments text).flatten = text := by
  induction text with
  | nil => rfl
  | cons c rest ih =>
    rw [segments]
    split
    · simp [ih]
    · split
      · next h => rw [h] at ih; simp [← ih]
      · next h => rw [h] at ih; simpa using ih

theorem ne_nil_of_mem_segments {text s : List Char} (h : s ∈ segments text) : s ≠ [] := by
  induction text generalizing s with
  | nil => simp [segments] at h
  | cons c rest ih =>
    rw [segments] at h
    split at h
    · rcases List.mem_cons.1 h with rfl | h
      · simp
      · exact ih h
    · split at h
      · simp at h; simp [h]
      · next hs =>
        rcases List.mem_cons.1 h with rfl | h
        · simp
        · exact ih (by rw [hs]; exact List.mem_cons_of_mem _ h)

/-- A character of a text, by the segment that it stands in. -/
structure Spot where
  /-- The number of the segment. -/
  index : Nat
  segment : List Char
  /-- The number of characters before it in the segment. -/
  column : Nat

/-- The spot of a character offset among segments, the first of which is number `index`. An offset
beyond the end is a spot on the last segment. -/
def spotFrom? (index : Nat) : List (List Char) → Nat → Option Spot
  | [], _ => none
  | [s], offset => some ⟨index, s, offset⟩
  | s :: t :: ss, offset =>
    if offset < s.length then some ⟨index, s, offset⟩
    else spotFrom? (index + 1) (t :: ss) (offset - s.length)

/-- The spot of a character offset. -/
def spot? (text : List Char) (offset : Nat) : Option Spot :=
  spotFrom? 0 (segments text) offset

end Bracketry.Text
