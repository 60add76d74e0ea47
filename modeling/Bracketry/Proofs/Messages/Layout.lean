import Mathlib.Data.List.Induction
import Bracketry.Excerpt
import Bracketry.Proofs.Lexing.Locating

/-!
# The rows of an excerpt

What a message looks like when it is taken apart at line feeds again. If nothing that is put into an
excerpt holds a line feed, then the pieces of its text are its rows (`pieces_render`), and what
stands in a row of source or of marks can be said by its index: all of these rows have their bar
behind the gutter, since the number of a line has no fewer digits than those of the lines before it
(`Text.length_toString_mono`).

A place finds its character again in the lines of its source
(`Text.Place.PointsTo.getElem?_lineAt`). Only what ends a line is not shown on it, which matters for
the last character of a source (`Text.Place.Counts.getElem?_lineAt_last`).
-/

namespace Bracketry

open Text

namespace Text

/-! ## Numbers and blanks -/

/-- A number is written in digits only. -/
theorem notMem_toString {c : Char} (h : c.isDigit = false) (n : Nat) : c ∉ (toString n).toList := by
  intro hc
  rw [Nat.toString_eq_ofList_toDigits, String.toList_ofList] at hc
  have digit := Nat.isDigit_of_mem_toDigits (by decide) (by decide) hc
  rw [h] at digit
  cases digit

theorem toString_injective : Function.Injective (toString : Nat → String) := by
  intro m n h
  rw [Nat.toString_eq_ofList_toDigits, Nat.toString_eq_ofList_toDigits, String.ofList_inj] at h
  rw [← @Nat.ofDigitChars_ten_toDigits m, h, Nat.ofDigitChars_ten_toDigits]

theorem lineFeed_notMem_toString (n : Nat) : '\n' ∉ (toString n).toList :=
  notMem_toString (by decide) n

theorem lineFeed_notMem_spaces (n : Nat) : '\n' ∉ (spaces n).toList := by
  simp [spaces]

theorem lineFeed_notMem_append {s t : String} (hs : '\n' ∉ s.toList) (ht : '\n' ∉ t.toList) :
    '\n' ∉ (s ++ t).toList := by
  rw [String.toList_append, List.mem_append, not_or]
  exact ⟨hs, ht⟩

theorem lineFeed_notMem_padLeft (width : Nat) {s : String} (h : '\n' ∉ s.toList) :
    '\n' ∉ (padLeft width s).toList :=
  lineFeed_notMem_append (lineFeed_notMem_spaces _) h

theorem lineFeed_notMem_singleton {c : Char} (h : c ≠ '\n') :
    '\n' ∉ (String.singleton c).toList := by
  rw [String.toList_singleton, List.mem_singleton]
  exact h.symm

/-- A larger number has no fewer digits. -/
theorem length_toString_mono {m n : Nat} (h : m ≤ n) :
    (toString m).length ≤ (toString n).length := by
  rw [Nat.toString_eq_ofList_toDigits, Nat.toString_eq_ofList_toDigits, String.length_ofList,
    String.length_ofList, Nat.length_toDigits_le_iff (by decide) Nat.length_toDigits_pos]
  apply Nat.lt_of_le_of_lt h
  rw [← Nat.length_toDigits_le_iff (by decide) Nat.length_toDigits_pos]

/-! ## Pieces and lines -/

theorem pieces_eq_splitOn (separator : Char) (text : List Char) :
    pieces separator text = text.splitOn separator := by
  induction text with
  | nil => rfl
  | cons c text ih =>
    rw [pieces, List.splitOn_cons_eq_if_modifyHead, ih]
    by_cases hc : c = separator
    · rw [if_pos hc, if_pos (beq_iff_eq.mpr hc)]
    · rw [if_neg hc, if_neg (by rwa [beq_iff_eq])]
      split
      · next none => exact absurd none (List.splitOn_ne_nil _ _)
      · next some => rw [some, List.modifyHead_cons]

theorem pieces_append_separator (separator : Char) (s t : List Char) :
    pieces separator (s ++ separator :: t) = pieces separator s ++ pieces separator t := by
  rw [pieces_eq_splitOn, List.splitOn_append_cons_self, ← pieces_eq_splitOn, ← pieces_eq_splitOn]

/-- A text that was put together from pieces without separators is taken apart into them. -/
theorem pieces_intercalate {separator : Char} {rows : List (List Char)} (hne : rows ≠ [])
    (h : ∀ row ∈ rows, separator ∉ row) :
    pieces separator ([separator].intercalate rows) = rows := by
  rw [pieces_eq_splitOn, List.splitOn_intercalate _ h hne]

theorem getElem?_pieces_zero (separator : Char) (text : List Char) :
    (pieces separator text)[0]? = some (text.takeWhile (· ≠ separator)) := by
  induction text with
  | nil => rfl
  | cons c text ih =>
    rw [pieces]
    by_cases hc : c = separator
    · rw [if_pos hc, List.takeWhile_cons_of_neg (by simpa using hc)]
      rfl
    · rw [if_neg hc, List.takeWhile_cons_of_pos (by simpa using hc)]
      split
      · next none => exact absurd none (pieces_ne_nil separator text)
      · next some =>
        rw [some] at ih
        cases ih
        rfl

/-- The piece that a text goes on in holds what is behind its last separator. -/
theorem getElem?_pieces_count (separator : Char) (before rest : List Char) :
    (pieces separator (before ++ rest))[before.count separator]? =
      some ((before.reverse.takeWhile (· ≠ separator)).reverse ++
        rest.takeWhile (· ≠ separator)) := by
  induction before using List.reverseRecOn generalizing rest with
  | nil => exact getElem?_pieces_zero separator rest
  | append_singleton s c ih =>
    rw [List.append_assoc, List.singleton_append, List.reverse_append, List.reverse_singleton,
      List.singleton_append, List.count_append]
    by_cases hc : c = separator
    · subst hc
      rw [List.takeWhile_cons_of_neg (by simp), pieces_append_separator,
        List.count_singleton_self, ← length_pieces, List.getElem?_append_right (Nat.le_refl _),
        Nat.sub_self]
      exact getElem?_pieces_zero c rest
    · have none : [c].count separator = 0 := List.count_eq_zero.mpr (by simpa [eq_comm] using hc)
      rw [List.takeWhile_cons_of_pos (by simpa using hc), List.reverse_cons, List.append_assoc,
        List.singleton_append, none, Nat.add_zero, ih (c :: rest),
        List.takeWhile_cons_of_pos (by simpa using hc)]

theorem separator_notMem_of_mem_pieces {separator : Char} {text piece : List Char}
    (h : piece ∈ pieces separator text) : separator ∉ piece := by
  induction text generalizing piece with
  | nil => simp_all [pieces]
  | cons c text ih =>
    rw [pieces] at h
    split at h
    · rcases List.mem_cons.mp h with rfl | h
      · exact List.not_mem_nil
      · exact ih h
    · next hc =>
      split at h
      · next none => exact absurd none (pieces_ne_nil separator text)
      · next p ps some =>
        rw [some] at ih
        rcases List.mem_cons.mp h with rfl | h
        · exact List.not_mem_cons_of_ne_of_not_mem (Ne.symm hc) (ih List.mem_cons_self)
        · exact ih (List.mem_cons_of_mem _ h)

/-- The line of a text with a given number, without its ending; empty where the text has none. -/
def lineAt (source : List Char) (index : Nat) : List Char := (lines source).getD index []

theorem lineFeed_notMem_lineAt (source : List Char) (index : Nat) : '\n' ∉ lineAt source index := by
  unfold lineAt lines
  rw [List.getD_eq_getElem?_getD, List.getElem?_map]
  cases hp : (pieces '\n' source)[index]? with
  | none => exact List.not_mem_nil
  | some p =>
    have plain := separator_notMem_of_mem_pieces (List.mem_of_getElem? hp)
    rw [Option.map_some, Option.getD_some, dropReturn]
    split
    · exact fun h => plain (List.dropLast_subset _ h)
    · exact plain

/-- The characters of a line are those of its piece, except for a carriage return at its end. -/
theorem getElem?_dropReturn {piece : List Char} {i : Nat} (h : piece[i]? ≠ some '\r') :
    (dropReturn piece)[i]? = piece[i]? := by
  unfold dropReturn
  split
  · next last =>
    rw [List.getElem?_dropLast]
    split
    · rfl
    · next hi =>
      symm
      apply List.getElem?_eq_none
      by_contra hlt
      rw [List.getLast?_eq_getElem?, show piece.length - 1 = i by omega] at last
      exact h last
  · rfl

theorem Place.Counts.lineAt_eq {p : Place} {before : List Char} (h : p.Counts before)
    (rest : List Char) : lineAt (before ++ rest) p.line =
      dropReturn ((before.reverse.takeWhile (· ≠ '\n')).reverse ++ rest.takeWhile (· ≠ '\n')) := by
  rw [lineAt, lines, List.getD_eq_getElem?_getD, List.getElem?_map, h.line, getElem?_pieces_count,
    Option.map_some, Option.getD_some]

/-- A place that points to a character finds it on its line. -/
theorem Place.PointsTo.getElem?_lineAt {p : Place} {source : List Char} {c : Char}
    (h : p.PointsTo source [c]) (feed : c ≠ '\n') (ret : c ≠ '\r') :
    (lineAt source p.line)[p.column]? = some c := by
  obtain ⟨before, after, rfl, counts⟩ := h
  have shown : ((before.reverse.takeWhile (· ≠ '\n')).reverse ++
      ([c] ++ after).takeWhile (· ≠ '\n'))[p.column]? = some c := by
    rw [counts.column, ← List.length_reverse, List.getElem?_append_right (Nat.le_refl _),
      Nat.sub_self, List.singleton_append, List.takeWhile_cons_of_pos (by simpa using feed)]
    rfl
  rw [counts.lineAt_eq, getElem?_dropReturn, shown]
  rw [shown]
  simpa using ret

/-- The last character of a text stands on its line too, if it does not end it. -/
theorem Place.Counts.getElem?_lineAt_last {p : Place} {before : List Char} (h : p.Counts before)
    (c : Char) :
    (lineAt (before ++ [c]) p.line)[p.column]? = if c = '\n' ∨ c = '\r' then none else some c := by
  split
  · next hc =>
    apply List.getElem?_eq_none
    rw [h.lineAt_eq, h.column, ← List.length_reverse]
    rcases hc with rfl | rfl
    · rw [List.takeWhile_cons_of_neg (by simp), List.append_nil, dropReturn]
      split <;> simp
    · simp [dropReturn]
  · next hc =>
    rw [not_or] at hc
    exact PointsTo.getElem?_lineAt ⟨before, [], rfl, h⟩ hc.1 hc.2

theorem idxOf?_append_cons {s : List Char} {c : Char} (h : c ∉ s) (t : List Char) :
    (s ++ c :: t).idxOf? c = some s.length := by
  induction s with
  | nil => simp [List.idxOf?_cons]
  | cons d s ih =>
    obtain ⟨ne, h⟩ := List.ne_and_not_mem_of_not_mem_cons h
    rw [List.cons_append, List.idxOf?_cons, if_neg (by simpa using ne.symm), ih h]
    rfl

end Text

namespace Excerpt

/-- How wide the gutter is for the lines from one to another: as wide as the number of the last one,
and at least three if there are more than five. -/
def gutter (first last : Nat) : Nat :=
  let digits := (toString (last + 1)).length
  if 5 < last - first + 1 then max digits 3 else digits

/-- A row of source: the number of the line behind blanks, a bar, and the line. -/
def numbered (width : Nat) (source : List Char) (index : Nat) : List Char :=
  (padLeft width (toString (index + 1)) ++ " | ").toList ++ lineAt source index

/-- Nothing that an excerpt says holds a line feed. -/
structure SingleLine (e : Excerpt) : Prop where
  title : '\n' ∉ e.title.toList
  opening : ∀ m ∈ e.opening, '\n' ∉ m.label.toList
  closing : '\n' ∉ e.closing.label.toList

section rows

variable {e : Excerpt} {source : List Char}

theorem width_eq_gutter (e : Excerpt) : e.width = gutter e.first e.last := by
  unfold width gutter elides
  simp only [decide_eq_true_eq, Nat.lt_succ_iff]
  rfl

theorem rows_eq_cons (e : Excerpt) : ∃ more, e.rows = .line e.first :: more := by
  unfold rows
  split
  · exact ⟨_, rfl⟩
  · rw [List.range'_succ, List.map_cons]
    exact ⟨_, rfl⟩

theorem rows_eq_concat (e : Excerpt) : ∃ more, e.rows = more ++ [.line e.last] := by
  unfold rows
  split
  · exact ⟨[.line e.first, .line (e.first + 1), .gap, .line (e.last - 1)], rfl⟩
  · have last : e.first + (e.last - e.first) = e.last := Nat.add_sub_cancel' e.first_le_last
    rw [List.range'_concat, List.map_append, Nat.one_mul, last]
    exact ⟨_, rfl⟩

/-- Under an upper mark is the first line. -/
theorem exists_layout_upper {m : Mark} (h : e.opening = some m) (source : List Char) :
    ∃ rest, e.layout source =
      e.headline :: e.markRow "v" m :: e.sourceRow (lines source) (.line e.first) :: rest := by
  obtain ⟨more, hrows⟩ := e.rows_eq_cons
  unfold layout
  rw [h, hrows]
  exact ⟨_, rfl⟩

/-- Over the lower mark is the last line. -/
theorem exists_layout_lower (e : Excerpt) (source : List Char) :
    ∃ above, e.layout source =
      above ++ [e.sourceRow (lines source) (.line e.last), e.markRow "^" e.closing] := by
  obtain ⟨more, hrows⟩ := e.rows_eq_concat
  refine ⟨e.headline :: (e.opening.map (e.markRow "v")).toList ++
    more.map (e.sourceRow (lines source)), ?_⟩
  unfold layout
  rw [hrows, List.map_append, List.append_assoc, List.append_assoc, List.append_assoc]
  rfl

/-- Without an upper mark, an excerpt is about one line. -/
theorem length_layout_of_none (h : e.opening = none) : (e.layout source).length = 3 := by
  have one : e.rows = [.line e.last] := by
    have first : e.first = e.last := by rw [first, h]
    rw [rows, elides, first, Nat.sub_self]
    rfl
  rw [layout, h, one]
  rfl

theorem toList_sourceRow_line (e : Excerpt) (source : List Char) (i : Nat) :
    (e.sourceRow (lines source) (.line i)).toList = numbered e.width source i := by
  rw [sourceRow, String.toList_append, String.toList_ofList, numbered, lineAt]

theorem lineFeed_notMem_sourceRow (e : Excerpt) (source : List Char) (row : Row) :
    '\n' ∉ (e.sourceRow (lines source) row).toList := by
  unfold sourceRow
  split
  · apply lineFeed_notMem_append
    · exact lineFeed_notMem_append (lineFeed_notMem_padLeft _ (lineFeed_notMem_toString _))
        (by decide)
    · rw [String.toList_ofList]
      exact lineFeed_notMem_lineAt source _
  · exact lineFeed_notMem_append (lineFeed_notMem_padLeft _ (by decide)) (by decide)

theorem lineFeed_notMem_markRow (e : Excerpt) {pointer : String} {m : Mark}
    (hpointer : '\n' ∉ pointer.toList) (hlabel : '\n' ∉ m.label.toList) :
    '\n' ∉ (e.markRow pointer m).toList := by
  unfold markRow
  apply lineFeed_notMem_append _ hlabel
  apply lineFeed_notMem_append _ (by decide)
  apply lineFeed_notMem_append _ hpointer
  apply lineFeed_notMem_append _ (lineFeed_notMem_spaces _)
  exact lineFeed_notMem_append (lineFeed_notMem_spaces _) (by decide)

theorem SingleLine.lineFeed_notMem_headline (h : e.SingleLine) : '\n' ∉ e.headline.toList := by
  unfold headline
  apply lineFeed_notMem_append _ (lineFeed_notMem_toString _)
  apply lineFeed_notMem_append _ (by decide)
  apply lineFeed_notMem_append _ (lineFeed_notMem_toString _)
  exact lineFeed_notMem_append h.title (by decide)

theorem SingleLine.lineFeed_notMem_layout (h : e.SingleLine) {row : String}
    (hrow : row ∈ e.layout source) : '\n' ∉ row.toList := by
  unfold layout at hrow
  simp only [List.mem_append, List.mem_cons, List.mem_map, List.not_mem_nil, or_false,
    Option.mem_toList, Option.map_eq_some_iff] at hrow
  obtain ((rfl | ⟨m, hm, rfl⟩) | ⟨i, -, rfl⟩) | rfl := hrow
  · exact h.lineFeed_notMem_headline
  · exact lineFeed_notMem_markRow e (by decide) (h.opening m hm)
  · exact lineFeed_notMem_sourceRow e source i
  · exact lineFeed_notMem_markRow e (by decide) h.closing

/-- The pieces of the text of an excerpt are its rows. -/
theorem SingleLine.pieces_render (h : e.SingleLine) (source : List Char) :
    pieces '\n' (e.render source).toList = (e.layout source).map String.toList := by
  rw [render, String.toList_intercalate]
  apply pieces_intercalate
  · simp [layout]
  · intro row hrow
    obtain ⟨s, hs, rfl⟩ := List.mem_map.mp hrow
    exact h.lineFeed_notMem_layout hs

/-! ## Where the columns of a row stand -/

theorem length_toString_le_gutter {first last index : Nat} (h : index ≤ last) :
    (toString (index + 1)).length ≤ gutter first last := by
  refine Nat.le_trans (length_toString_mono (Nat.succ_le_succ h)) ?_
  unfold gutter
  split
  · exact Nat.le_max_left _ _
  · exact Nat.le_refl _

/-- A character of a line stands in its row behind the gutter and the bar. -/
theorem getElem?_numbered {width index : Nat} (h : (toString (index + 1)).length ≤ width)
    (source : List Char) (column : Nat) :
    (numbered width source index)[width + 3 + column]? = (lineAt source index)[column]? := by
  have margin : (padLeft width (toString (index + 1)) ++ " | ").toList.length = width + 3 := by
    rw [String.length_toList, String.length_append, length_padLeft, Nat.max_eq_left h]
    rfl
  rw [numbered, ← margin, List.getElem?_append_right (Nat.le_add_right _ _),
    Nat.add_sub_cancel_left]

/-- The pointer of a mark is the first of its kind in its row. -/
theorem idxOf?_markRow (e : Excerpt) (m : Mark) {pointer : Char} (blank : pointer ≠ ' ')
    (bar : pointer ≠ '|') :
    (e.markRow (String.singleton pointer) m).toList.idxOf? pointer =
      some (e.width + 3 + m.cursor.column) := by
  have front : pointer ∉ (spaces e.width ++ " | " ++ spaces m.cursor.column).toList := by
    simp [spaces, blank, bar]
  have length : (spaces e.width ++ " | " ++ spaces m.cursor.column).toList.length =
      e.width + 3 + m.cursor.column := by
    rw [String.length_toList, String.length_append, String.length_append, length_spaces,
      length_spaces]
    rfl
  rw [markRow, String.toList_append, String.toList_append, String.toList_append,
    String.toList_singleton, List.append_assoc, List.append_assoc, List.singleton_append,
    idxOf?_append_cons front, length]

end rows

end Excerpt

end Bracketry
