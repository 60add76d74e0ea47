import Bracketry.Proofs.Lexing.Tiling
import Bracketry.Proofs.Messages.Layout
import Bracketry.Proofs.Registers.Run

/-!
# The frame of an excerpt

An excerpt may be asked for any two marks, inside the source or not and in either order. Its rows
are known beforehand all the same (`excerpt_framed`): the headline, the upper mark if there is one,
the lines up to the lower mark or the first and the last two of them around a row of dots, and the
lower mark, which makes eight rows at most.

What a mark may not be is too far to the right. The blanks in front of it are a text, and a column
is any number; so the rows are a message only if nothing that holds text grows beyond its capacity
(`Excerpt.render_eq`). Of the text itself, each column is less than its number of bytes
(`Excerpt.column_lt_size`).

All rows but the headline have the same frame. The bar is the first in its row, because nothing left
of it is anything but blanks, digits or dots, and it stands behind the gutter, because no number
that is shown is wider than that (`Excerpt.length_toString_le_gutter`).
-/

namespace Bracketry

open Text

namespace Excerpt

variable {e : Excerpt} {source : List Char}

/-! ## Where the bars are -/

/-- Behind a gutter without bars, and a blank, a bar is the first. -/
theorem idxOf?_bar {gutter : String} (h : '|' ∉ gutter.toList) (rest : List Char) :
    (gutter.toList ++ ' ' :: '|' :: rest).idxOf? '|' = some (gutter.length + 1) := by
  have front : '|' ∉ gutter.toList ++ [' '] := by simp [h]
  rw [List.append_cons, idxOf?_append_cons front, List.length_append, String.length_toList]
  rfl

theorem bar_notMem_padLeft (width : Nat) {s : String} (h : '|' ∉ s.toList) :
    '|' ∉ (padLeft width s).toList := by
  simp [padLeft, spaces, h]

theorem idxOf?_bar_markRow (e : Excerpt) (pointer : String) (m : Mark) :
    (e.markRow pointer m).toList.idxOf? '|' = some (e.width + 1) := by
  have blanks : '|' ∉ (spaces e.width).toList := by simp [spaces]
  have bar := idxOf?_bar blanks (' ' :: (spaces m.cursor.column ++ pointer ++ " " ++ m.label).toList)
  rw [length_spaces] at bar
  rw [← bar, markRow]
  simp

theorem idxOf?_bar_numbered {width index : Nat} (h : (toString (index + 1)).length ≤ width)
    (source : List Char) : (numbered width source index).idxOf? '|' = some (width + 1) := by
  have digits := bar_notMem_padLeft width (notMem_toString (by decide) (index + 1))
  have bar := idxOf?_bar digits (' ' :: lineAt source index)
  rw [length_padLeft, Nat.max_eq_left h] at bar
  rw [← bar, numbered]
  simp

/-- The row that stands for the lines left out. -/
def dotted (width : Nat) : List Char := (padLeft width dots ++ " |").toList

theorem idxOf?_bar_dotted {width : Nat} (h : dots.length ≤ width) :
    (dotted width).idxOf? '|' = some (width + 1) := by
  have bar := idxOf?_bar (bar_notMem_padLeft width (s := dots) (by decide)) []
  rw [length_padLeft, Nat.max_eq_left h] at bar
  rw [← bar, dotted]
  simp

/-! ## Which rows there are -/

/-- The rows of source between the marks. -/
def shown (width first last : Nat) (source : List Char) : List (List Char) :=
  if last - first < 5 then (List.range' first (last - first + 1)).map (numbered width source)
  else [numbered width source first, numbered width source (first + 1), dotted width,
    numbered width source (last - 1), numbered width source last]

theorem map_sourceRow (e : Excerpt) (source : List Char) :
    (e.rows.map (e.sourceRow (lines source))).map String.toList =
      shown e.width e.first e.last source := by
  have line (index : Nat) :
      (e.sourceRow (lines source) (.line index)).toList = numbered e.width source index :=
    e.toList_sourceRow_line source index
  rw [rows, shown]
  by_cases short : e.last - e.first < 5
  · have all : e.elides = false := by
      rw [elides, decide_eq_false_iff_not, maxLines]
      omega
    rw [all, if_pos short, if_neg (by simp), List.map_map, List.map_map]
    exact List.map_congr_left fun index _ => line index
  · have some : e.elides = true := by
      rw [elides, decide_eq_true_iff, maxLines]
      omega
    rw [some, if_neg short, if_pos rfl]
    simp only [List.map_cons, List.map_nil, line]
    rfl

/-- The gutter is wider than its digits only where lines are left out. -/
theorem gutter_eq (first last : Nat) : gutter first last =
    if last - first < 5 then (toString (last + 1)).length
    else max (toString (last + 1)).length 3 := by
  rw [gutter]
  split <;> split
  · omega
  · rfl
  · rfl
  · omega

theorem length_shown_le (width first last : Nat) (source : List Char) :
    (shown width first last source).length ≤ 5 := by
  rw [shown]
  split
  · rw [List.length_map, List.length_range']
    omega
  · exact Nat.le_refl 5

/-- Every row of source has its bar behind a gutter with room for the last number and for dots. -/
theorem idxOf?_bar_shown {width first last : Nat} (h : first ≤ last)
    (digits : ∀ index ≤ last, (toString (index + 1)).length ≤ width)
    (room : 5 ≤ last - first → dots.length ≤ width) {row : List Char}
    (hrow : row ∈ shown width first last source) : row.idxOf? '|' = some (width + 1) := by
  have line (index : Nat) (hindex : index ≤ last) :
      (numbered width source index).idxOf? '|' = some (width + 1) :=
    idxOf?_bar_numbered (digits index hindex) source
  rw [shown] at hrow
  split at hrow
  · obtain ⟨index, hindex, rfl⟩ := List.mem_map.mp hrow
    have := List.mem_range'_1.mp hindex
    exact line index (by omega)
  · next long =>
    simp only [List.mem_cons, List.not_mem_nil, or_false] at hrow
    rcases hrow with row | row | row | row | row
    · exact row ▸ line first h
    · exact row ▸ line (first + 1) (by omega)
    · exact row ▸ idxOf?_bar_dotted (room (by omega))
    · exact row ▸ line (last - 1) (by omega)
    · exact row ▸ line last (Nat.le_refl last)

/-- The line of a source is what stands between its line feeds, less a carriage return at the end. -/
theorem lineAt_eq (source : List Char) (index : Nat) :
    lineAt source index = dropReturn ((source.splitOn '\n').getD index []) := by
  rw [lineAt, lines, ← pieces_eq_splitOn, List.getD_eq_getElem?_getD, List.getD_eq_getElem?_getD,
    List.getElem?_map]
  cases (pieces '\n' source)[index]? <;> rfl

theorem length_layout_le (e : Excerpt) (source : List Char) : (e.layout source).length ≤ 8 := by
  have few := length_shown_le e.width e.first e.last source
  rw [← map_sourceRow, List.length_map] at few
  rw [layout, List.length_append, List.length_append, List.length_cons]
  cases e.opening <;> simp only [Option.map_none, Option.map_some, Option.toList_none,
    Option.toList_some, List.length_nil, List.length_cons] <;> omega

/-! ## How large the text is -/

theorem size_le_intercalate (separator : String) {row : String} {rows : List String}
    (h : row ∈ rows) : row.utf8ByteSize ≤ (separator.intercalate rows).utf8ByteSize := by
  induction rows with
  | nil => cases h
  | cons first rest ih =>
    cases rest with
    | nil => rw [List.mem_singleton.mp h, String.intercalate_singleton]
    | cons second rest =>
      rw [String.intercalate_cons_cons, String.utf8ByteSize_append, String.utf8ByteSize_append]
      rcases List.mem_cons.mp h with rfl | later
      · omega
      · have := ih later
        omega

/-- A mark stands behind as many blanks as its column says, each of one byte. -/
theorem column_lt_size_markRow (e : Excerpt) (pointer : String) (m : Mark) :
    m.cursor.column < (e.markRow pointer m).utf8ByteSize := by
  have bytes := Registers.length_le_byteLength (e.markRow pointer m).toList
  rw [byteLength_toList, String.length_toList] at bytes
  refine Nat.lt_of_lt_of_le ?_ bytes
  simp only [markRow, String.length_append, length_spaces]
  have bar : 0 < " | ".length := by decide
  omega

theorem column_lt_size {m : Mark} (hm : m ∈ e.marks) (source : List Char) :
    m.cursor.column < (e.render source).utf8ByteSize := by
  have row : ∃ pointer, e.markRow pointer m ∈ e.layout source := by
    rcases List.mem_append.mp hm with upper | lower
    · rw [Option.mem_toList] at upper
      exact ⟨"v", by simp [layout, upper]⟩
    · exact ⟨"^", by simp [layout, List.mem_singleton.mp lower]⟩
  obtain ⟨pointer, hrow⟩ := row
  exact Nat.lt_of_lt_of_le (column_lt_size_markRow e pointer m) (size_le_intercalate "\n" hrow)

/-- Blanks that are not even tried would have made the text too large. -/
theorem render?_eq (capacity : Nat) (e : Excerpt) (source : List Char) :
    e.render? capacity source =
      if (e.render source).utf8ByteSize ≤ capacity then some (e.render source) else none := by
  rw [render?]
  split
  · rfl
  · next beyond =>
    rw [if_neg fun room => beyond (List.all_eq_true.mpr fun m hm => ?_)]
    exact decide_eq_true (Nat.le_of_lt (Nat.lt_of_lt_of_le (column_lt_size hm source) room))

/-- The text of an excerpt is written if all that holds it stays within the capacity. -/
theorem render_eq {limit : Nat} (fits : Registers.Fits limit e.closing.cursor) (capacity : Nat)
    (buffer : String → Nat) (source : List Char) :
    (Registers.render limit capacity buffer e source : Registers.Run Fault String) =
      if (∀ row ∈ e.layout source, buffer row ≤ capacity) ∧
        (e.render source).utf8ByteSize ≤ capacity then .ok (e.render source)
      else Registers.abort .overflow := by
  rw [Registers.render]
  by_cases blanks : ∀ m ∈ e.marks, m.cursor.column ≤ capacity
  · rw [Registers.layout_eq fits blanks, Registers.ok_bind, Registers.mapM_count]
    by_cases rows : ∀ row ∈ e.layout source, buffer row ≤ capacity
    · rw [if_pos rows, Registers.ok_bind]
      by_cases room : (e.render source).utf8ByteSize ≤ capacity
      · rw [if_pos ⟨rows, room⟩]
        exact congrArg (· >>= _) (Registers.count_of_le room)
      · rw [if_neg (room ∘ And.right)]
        exact congrArg (· >>= _) (Registers.count_of_lt (Nat.not_le.mp room))
    · rw [if_neg rows, if_neg (rows ∘ And.left)]
      rfl
  · push Not at blanks
    obtain ⟨m, hm, beyond⟩ := blanks
    have large := Nat.lt_trans beyond (column_lt_size hm source)
    rw [Registers.layout_of_lt fits hm beyond, if_neg (Nat.not_le.mpr large ∘ And.right)]
    rfl

/-! ## Whole excerpts -/

/-- **An excerpt frames its lines.** Take any marks, of which only the place of the headline must be
such that it can be counted from one, and say nothing of more than one line. If nothing that holds
the text of the excerpt or one of its rows grows beyond the capacity, the text is written, and it
has at most eight rows: the headline, the upper mark if there is one, the lines up to the lower
mark, and that mark. Up to five lines are all shown; of more, the first two and the last two, which
are four, with dots between them. A line is shown without the carriage return that may end it, and
empty if the source has no such line. Every row but the headline has its first bar in one column,
behind a gutter as wide as the largest number, or as the dots if they are wider.

Otherwise the run is broken off. So it is whenever the column of a mark goes up to the capacity,
since the text has more bytes than that. -/
theorem excerpt_framed (h : e.SingleLine) {limit : Nat}
    (fits : Registers.Fits limit e.closing.cursor) (capacity : Nat) (buffer : String → Nat)
    (source : List Char) :
    let last := e.closing.cursor.line
    let first := (e.opening.map fun m => min m.cursor.line last).getD last
    let digits := (toString (last + 1)).length
    let width := if last - first < 5 then digits else max digits 3
    let text := e.render source
    let rows := pieces '\n' text.toList
    (Registers.render limit capacity buffer e source : Registers.Run Fault String) =
      (if (∀ row ∈ rows, buffer (.ofList row) ≤ capacity) ∧ text.utf8ByteSize ≤ capacity then
        .ok text else Registers.abort .overflow) ∧
    e.render? capacity source = (if text.utf8ByteSize ≤ capacity then some text else none) ∧
    (∀ m ∈ e.marks, m.cursor.column < text.utf8ByteSize) ∧
    rows.length ≤ 8 ∧
    rows = e.headline.toList :: ((e.opening.map (e.markRow "v")).toList.map String.toList ++
      shown width first last source ++ [(e.markRow "^" e.closing).toList]) ∧
    (5 ≤ last - first → [first + 1, first + 2, last, last + 1].Nodup) ∧
    (∀ row ∈ rows.tail, row.idxOf? '|' = some (width + 1)) ∧
    ∀ index, lineAt source index = dropReturn ((source.splitOn '\n').getD index []) := by
  intro last first digits width text rows
  have hfirst : e.first = first := by
    simp only [Excerpt.first, first]
    cases e.opening <;> rfl
  have order : first ≤ last := hfirst ▸ e.first_le_last
  have hgutter : gutter first last = width := gutter_eq first last
  have hwidth : e.width = width := by
    rw [e.width_eq_gutter, hfirst]
    exact hgutter
  have layout : rows = (e.layout source).map String.toList := h.pieces_render source
  have parts : rows = e.headline.toList ::
      ((e.opening.map (e.markRow "v")).toList.map String.toList ++
        shown width first last source ++ [(e.markRow "^" e.closing).toList]) := by
    rw [layout, Excerpt.layout, List.map_append, List.cons_append, List.map_cons, List.map_append,
      map_sourceRow, hwidth, hfirst]
    rfl
  refine ⟨?_, render?_eq capacity e source, fun m hm => column_lt_size hm source, ?_, parts, ?_, ?_,
    lineAt_eq source⟩
  · rw [render_eq fits, layout]
    simp only [List.forall_mem_map, String.ofList_toList]
    rfl
  · rw [layout, List.length_map]
    exact length_layout_le e source
  · intro long
    simp only [List.nodup_cons, List.mem_cons, List.not_mem_nil, or_false, not_or, List.nodup_nil,
      and_true, not_false_eq_true]
    omega
  · intro row hrow
    rw [parts, List.tail_cons, List.mem_append, List.mem_append, List.mem_singleton,
      List.mem_map] at hrow
    rw [← hwidth]
    rcases hrow with (⟨upper, hupper, rfl⟩ | hshown) | lower
    · obtain ⟨m, -, rfl⟩ := Option.map_eq_some_iff.mp (Option.mem_toList.mp hupper)
      exact idxOf?_bar_markRow e "v" m
    · rw [hwidth]
      refine idxOf?_bar_shown order (fun index hindex => ?_) (fun long => ?_) hshown
      · rw [← hgutter]
        exact length_toString_le_gutter hindex
      · simp only [width, if_neg (Nat.not_lt.mpr long)]
        exact Nat.le_max_right _ _
    · rw [lower]
      exact idxOf?_bar_markRow e "^" e.closing

/-- Marks on the third and the tenth line of a source of two lines, with dots between them, in
buffers of twice the size that is needed. -/
theorem excerpt_framed_elided :
    let e : Excerpt :=
      { title := "t", opening := some ⟨⟨2, 1⟩, "from"⟩, closing := ⟨⟨9, 0⟩, "to"⟩ }
    let buffer : String → Nat := fun row => 2 * row.utf8ByteSize
    e.SingleLine ∧ Registers.Fits 10 e.closing.cursor ∧
      Registers.render 10 maxBytes buffer e "a\r\nb".toList =
        (.ok (e.render "a\r\nb".toList) : Registers.Run Fault String) ∧
      pieces '\n' (e.render "a\r\nb".toList).toList =
        ["t at line 10, column 1", "    |  v from", "  3 | ", "  4 | ", "... |", "  9 | ", " 10 | ",
          "    | ^ to"].map String.toList ∧
      lineAt "a\r\nb".toList 0 = ['a'] := by
  intro e buffer
  have single : e.SingleLine := ⟨by decide, by simp [e], by decide⟩
  have fits : Registers.Fits 10 e.closing.cursor := ⟨by decide, by decide⟩
  obtain ⟨written, -, -, -, rows, -, -, line⟩ :=
    excerpt_framed single fits maxBytes buffer "a\r\nb".toList
  have room : (∀ row ∈ pieces '\n' (e.render "a\r\nb".toList).toList,
      buffer (.ofList row) ≤ maxBytes) ∧
        (e.render "a\r\nb".toList).utf8ByteSize ≤ maxBytes := by decide +kernel
  exact ⟨single, fits, written.trans (if_pos room), rows.trans (by decide +kernel), line 0⟩

/-- No text holds a mark behind so many blanks as no text has bytes, with counters that go up to the
largest word of 64 bits. -/
theorem excerpt_beyond_capacity :
    let e : Excerpt := { title := "t", closing := ⟨⟨0, 0x8000000000000000⟩, "l"⟩ }
    e.SingleLine ∧ e.closing.cursor.line < UInt64.size - 1 ∧
      e.closing.cursor.column < UInt64.size - 1 ∧
      Registers.render (UInt64.size - 1) maxBytes String.utf8ByteSize e [] =
        (Registers.abort .overflow : Registers.Run Fault String) ∧
      e.render? maxBytes [] = none := by
  intro e
  have single : e.SingleLine := ⟨by decide, by simp [e], by decide⟩
  have fits : Registers.Fits (UInt64.size - 1) e.closing.cursor := ⟨by decide, by decide⟩
  have mark : e.closing ∈ e.marks := by simp [marks]
  have beyond : maxBytes < e.closing.cursor.column := by decide
  have large := Nat.lt_trans beyond (column_lt_size mark [])
  refine ⟨single, by decide, by decide, ?_, ?_⟩
  · exact (render_eq fits _ _ _).trans (if_neg (Nat.not_le.mpr large ∘ And.right))
  · exact (render?_eq _ _ _).trans (if_neg (Nat.not_le.mpr large))

end Excerpt

end Bracketry
