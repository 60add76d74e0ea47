import Bracketry.Proofs.Lexing.Agreement

/-!
# Places are exact

A place says three things of a source, and they belong together: the bytes, the lines and the
characters of its line that are before it (`Text.Place.Counts`). The cursor is moved on one
character at a time, and what it has counted at the end of a text is what can be counted in the text
(`Text.Place.counts_ofEnd`).

A place in a source that counts what is before it there points to what follows
(`Text.Place.PointsTo`). So do the places of lexemes (`exists_pointsTo_of_mem_lex`), and those of
the flaws for which a text is not read: each points to the mark or the quote that it is about
(`located_of_lex`).
-/

namespace Bracketry

open Text Lexeme

namespace Text

/-- A place behind a text, as far as counting goes: the bytes of the text, its line feeds, and the
characters behind the last of them. -/
structure Place.Counts (p : Place) (before : List Char) : Prop where
  offset : p.offset = byteLength before
  line : p.line = before.count '\n'
  column : p.column = (before.reverse.takeWhile (· ≠ '\n')).length

/-- A place at which a source goes on with a text. -/
def Place.PointsTo (p : Place) (source text : List Char) : Prop :=
  ∃ before after, source = before ++ (text ++ after) ∧ p.Counts before

/-- A place between two characters of a source, or at one of its ends. -/
def Place.IsExact (p : Place) (source : List Char) : Prop := p.PointsTo source []

namespace Place

theorem Counts.advance {p : Place} {before : List Char} (h : p.Counts before) (c : Char) :
    (p.advance c).Counts (before ++ [c]) := by
  obtain ⟨offset, line, column⟩ := h
  by_cases hc : c = '\n'
  · subst hc
    exact ⟨by simp [Place.advance, offset], by simp [Place.advance, Cursor.advance, line],
      by simp [Place.advance, Cursor.advance]⟩
  · refine ⟨by simp [Place.advance, offset], ?_, ?_⟩
    · simp [Place.advance, Cursor.advance, hc, line]
    · simp [Place.advance, Cursor.advance, hc, column]

/-- The place that was reached over a text counts it. -/
theorem counts_ofEnd (text : List Char) : (Place.ofEnd text).Counts text := by
  suffices ∀ (rest before : List Char) (p : Place), p.Counts before →
      (p.after rest).Counts (before ++ rest) from this text [] {} ⟨rfl, rfl, rfl⟩
  intro rest
  induction rest with
  | nil =>
    intro before p h
    rwa [after_nil, List.append_nil]
  | cons c rest ih =>
    intro before p h
    rw [after_cons, List.append_cons]
    exact ih _ _ (h.advance c)

theorem pointsTo_ofEnd (before text after : List Char) :
    (Place.ofEnd before).PointsTo (before ++ (text ++ after)) text :=
  ⟨before, after, rfl, counts_ofEnd before⟩

/-- What points to a text points to its starts. -/
theorem PointsTo.of_isStart {p : Place} {source text start : List Char}
    (h : p.PointsTo source text) (hstart : start <+: text) : p.PointsTo source start := by
  obtain ⟨before, after, rfl, counts⟩ := h
  obtain ⟨rest, rfl⟩ := hstart
  exact ⟨before, rest ++ after, by rw [List.append_assoc], counts⟩

theorem PointsTo.isExact {p : Place} {source text : List Char} (h : p.PointsTo source text) :
    p.IsExact source :=
  h.of_isStart List.nil_prefix

end Place

end Text

/-- The places of a cause point to what is at fault: an end of comment or a closer that closes
nothing, an opener that waits, an opener and a closer of different families with the characters that
are reported of them, and the start of what is not closed. -/
inductive Fault.Cause.Located (source : List Char) : Fault.Cause → Prop
  | strayCommentEnd {p : Place} (h : p.PointsTo source ['|', '#']) :
    Located source (.strayCloser p none)
  | strayCloser {p : Place} {level : Nat} (b : Bracket) (h : p.PointsTo source [b.closer]) :
    Located source (.strayCloser p (some level))
  | unclosed {p : Place} {level : Nat} (b : Bracket) (h : p.PointsTo source [b.opener]) :
    Located source (.unclosed p level)
  | mismatch {o c : Place} {level : Nat} (b d : Bracket) (ho : o.PointsTo source [b.opener])
    (hc : c.PointsTo source [d.closer]) :
    Located source (.mismatch o c b.closer d.closer level)
  | openString {p : Place} (q : Quote) (h : p.PointsTo source [q.mark]) :
    Located source (.openString p q.mark)
  | openComment {p : Place} {depth : Nat} (h : p.PointsTo source ['#', '|']) :
    Located source (.openComment p depth)

/-- A lexeme starts where its characters stand in the text. -/
theorem exists_pointsTo_of_mem_lex {text : List Char} {lexemes : List Lexeme}
    (h : lex text = .ok lexemes) {l : Lexeme} (hl : l ∈ lexemes) :
    ∃ w rest, Splits (w ++ rest) l.shape w ∧ l.span.start.PointsTo text w := by
  obtain ⟨u, w, v, rfl, hspan, hsplits⟩ := exists_splits_of_mem_lex h hl
  exact ⟨w, v, hsplits, hspan ▸ Place.pointsTo_ofEnd u w v⟩

theorem Lexeme.Stuck.located {last : Place} {read text : List Char} {flaw : Flaw}
    (h : Stuck last (Place.ofEnd read) text flaw) : flaw.cause.Located (read ++ text) := by
  have here : (Place.ofEnd read).PointsTo (read ++ text) text := by
    have := Place.pointsTo_ofEnd read text []
    rwa [List.append_nil] at this
  cases h with
  | strayCommentEnd hstart => exact .strayCommentEnd (here.of_isStart hstart)
  | openString q hstart _ => exact .openString q (here.of_isStart hstart)
  | openComment hstart _ => exact .openComment (here.of_isStart hstart)

/-- A reading that is stuck is stuck at the place that its flaw reports. -/
theorem Lexeme.Reads.located {last place : Place} {text : List Char}
    {result : Except Flaw (List Lexeme)} (h : Reads last place text result) {flaw : Flaw}
    (hresult : result = .error flaw) {read : List Char} (hplace : place = Place.ofEnd read) :
    flaw.cause.Located (read ++ text) := by
  induction h generalizing read with
  | done place => cases hresult
  | @split place shape w rest result _ _ ih =>
    subst hplace
    cases result with
    | ok more => cases hresult
    | error flaw' =>
      cases hresult
      rw [← List.append_assoc]
      exact ih rfl (Place.ofEnd_append read w).symm
  | stuck h =>
    subst hplace
    cases hresult
    exact h.located

theorem located_of_lex {text : List Char} {flaw : Flaw} (h : lex text = .error flaw) :
    flaw.cause.Located text :=
  (lex_eq_iff_reads.mp h).located rfl Place.ofEnd_nil.symm

end Bracketry
