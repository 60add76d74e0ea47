import Bracketry.Proofs.Messages.Pointing

/-!
# Where a message ends

A message says twice where its source goes wrong: in the headline, counted from one, and by the `^`
in its last row, below the line that is meant (`Fault.EndsAt`). The headline alone tells the line
and the column, so no message says it of two places (`Fault.EndsAt.unique`).

For every fault of a source that place is the one at which the source goes wrong
(`endsAt_iff_of_parse`). If the text ends too early, that is its last character
(`Fault.Cause.stop_eq_ofLast`).
-/

namespace Bracketry

open Text

/-- A text is cut in one way at the last occurrence of a character. -/
theorem Text.append_cons_inj_of_notMem_right {x y s t : List Char} {c : Char} (hs : c ∉ s)
    (ht : c ∉ t) (h : x ++ c :: s = y ++ c :: t) : x = y ∧ s = t := by
  have reversed : s.reverse ++ c :: x.reverse = t.reverse ++ c :: y.reverse := by
    simpa using congrArg List.reverse h
  have found := congrArg (List.idxOf? c) reversed
  rw [idxOf?_append_cons (by simpa using hs), idxOf?_append_cons (by simpa using ht)] at found
  have length : s.length = t.length := by simpa using found
  obtain ⟨front, behind⟩ := List.append_inj' h (by simp [length])
  exact ⟨front, (List.cons.inj behind).2⟩

namespace Fault

variable {fault : Fault} {source : List Char} {k k' : Cursor}

/-- A message says of its source that it goes wrong at a line and a column. The row above the `^` is
that line behind its number, and the `^` stands as far behind the bar as the column says. -/
structure EndsAt (fault : Fault) (source : List Char) (k : Cursor) : Prop where
  headline : ∃ title : String, (pieces '\n' fault.message.toList).head? =
    some (title ++ " at line " ++ toString (k.line + 1) ++ ", column " ++
      toString (k.column + 1)).toList
  mark : ∃ above width marks, (toString (k.line + 1)).length ≤ width ∧
    pieces '\n' fault.message.toList = above ++ [Excerpt.numbered width source k.line, marks] ∧
    marks.idxOf? '^' = some (width + 3 + k.column)

/-- A message says it of one line and one column: no number holds a blank, so the last two blanks of
its headline stand before the column and before the line. -/
theorem EndsAt.unique (h : fault.EndsAt source k) (h' : fault.EndsAt source k') : k = k' := by
  have blank (n : Nat) : ' ' ∉ (toString n).toList := notMem_toString (by decide) n
  have parts (title : String) (k : Cursor) :
      (title ++ " at line " ++ toString (k.line + 1) ++ ", column " ++
        toString (k.column + 1)).toList =
      title.toList ++ " at line".toList ++ ' ' :: (toString (k.line + 1)).toList ++
        ", column".toList ++ ' ' :: (toString (k.column + 1)).toList := by
    simp
  obtain ⟨title, headline⟩ := h.headline
  obtain ⟨title', headline'⟩ := h'.headline
  have same := Option.some.inj (headline.symm.trans headline')
  rw [parts, parts] at same
  obtain ⟨front, column⟩ := append_cons_inj_of_notMem_right (blank _) (blank _) same
  have front' := List.append_cancel_right front
  obtain ⟨-, line⟩ := append_cons_inj_of_notMem_right (blank _) (blank _) front'
  exact congrArg₂ Cursor.mk (Nat.succ_inj.mp (toString_injective (String.toList_inj.mp line)))
    (Nat.succ_inj.mp (toString_injective (String.toList_inj.mp column)))

/-- A text that ends too early goes wrong at its last character. -/
theorem Cause.stop_eq_ofLast {cause : Cause} (source : List Char) (h : cause.code = .unclosed ∨
    cause.code = .openString ∨ cause.code = .openComment) : cause.stop source = .ofLast source := by
  cases cause with
  | strayCloser | mismatch => simp [Cause.code] at h
  | unclosed | openString | openComment => rfl

end Fault

/-- A message ends at the closing mark of its excerpt. -/
theorem Flaw.endsAt (flaw : Flaw) (source : List Char) :
    (flaw.fault source).EndsAt source flaw.excerpt.closing.cursor := by
  have layout : pieces '\n' (flaw.fault source).message.toList =
      (flaw.excerpt.layout source).map String.toList := flaw.singleLine.pieces_render source
  constructor
  · refine ⟨flaw.excerpt.title, ?_⟩
    rw [layout]
    rfl
  · obtain ⟨above, lower⟩ := flaw.excerpt.exists_layout_lower source
    rw [lower, List.map_append] at layout
    refine ⟨above.map String.toList, flaw.excerpt.width,
      (flaw.excerpt.markRow "^" flaw.excerpt.closing).toList, ?_, layout.trans ?_, ?_⟩
    · rw [Excerpt.width_eq_gutter]
      exact Excerpt.length_toString_le_gutter (Nat.le_refl _)
    · rw [List.map_cons, Excerpt.toList_sourceRow_line]
      rfl
    · exact Excerpt.idxOf?_markRow _ _ (by decide) (by decide)

/-- The message of a fault ends where its source goes wrong, and at no other place. -/
theorem endsAt_iff_of_parse {source : String} {keep : Keep} {fault : Fault}
    (h : parse source keep = .error fault) (k : Cursor) :
    fault.EndsAt source.toList k ↔ k = (fault.cause.stop source.toList).toCursor := by
  obtain ⟨flaw, rfl, origin⟩ := parse_eq_error_iff.mp h
  have closing : flaw.excerpt.closing.cursor = (flaw.cause.stop source.toList).toCursor := by
    rcases origin with hlex | ⟨lexemes, -, hbuild⟩
    · exact closing_of_lex hlex
    · exact closing_of_build hbuild
  have ends := flaw.endsAt source.toList
  rw [closing] at ends
  constructor
  · intro other
    exact other.unique ends
  · rintro rfl
    exact ends

end Bracketry
