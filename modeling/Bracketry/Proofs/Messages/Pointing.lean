import Bracketry.Proofs.Lexing.Continuing
import Bracketry.Proofs.Lexing.Tiling
import Bracketry.Proofs.Messages.Layout
import Bracketry.Proofs.Nesting.Locating

/-!
# Marks point to what is at fault

The message of a fault shows a stretch of the source between two marks, and each mark stands over or
under the character that it is about (`marks_point_to_fault`). The upper mark is about the place of
the fault, where what is not closed begins. The lower one is about the place where the text goes
wrong (`Fault.Cause.stop`): a closer that does not fit, or the last character of the source where it
ends too early. The upper one is never below the lower one (`line_place_le_stop`), so that neither
is moved by the other.

The last character of a source may be what ends its last line. Such a character is not shown, and
the mark stands behind the line.
-/

namespace Bracketry

open Text Lexeme

/-! ## Characters on their lines -/

namespace Text

/-- What a line shows of a character: nothing if it belongs to the ending of the line. -/
def visible? (c : Char) : Option Char := if c = '\n' ∨ c = '\r' then none else some c

namespace Place

variable {p : Place} {source : List Char} {c : Char}

/-- A place at a character of a source whose line shows there what it shows of the character. -/
structure Finds (p : Place) (source : List Char) (c : Char) : Prop where
  pointsTo : p.PointsTo source [c]
  shown : (lineAt source p.line)[p.column]? = visible? c

theorem PointsTo.finds (h : p.PointsTo source [c]) (hc : visible? c = some c) :
    p.Finds source c := by
  have plain : ¬ (c = '\n' ∨ c = '\r') := by
    intro ending
    rw [visible?, if_pos ending] at hc
    cases hc
  rw [not_or] at plain
  exact ⟨h, (h.getElem?_lineAt plain.1 plain.2).trans hc.symm⟩

theorem finds_ofLast (h : source ≠ []) :
    ∃ c, source.getLast? = some c ∧ (Place.ofLast source).Finds source c := by
  obtain ⟨s, c, rfl⟩ := (List.eq_nil_or_concat source).resolve_left h
  have counts := counts_ofEnd s
  rw [List.concat_eq_append, ofLast_concat]
  exact ⟨c, List.getLast?_concat, ⟨s, [], rfl, counts⟩, counts.getElem?_lineAt_last c⟩

theorem PointsTo.ne_nil (h : p.PointsTo source [c]) : source ≠ [] := by
  obtain ⟨before, after, rfl, -⟩ := h
  simp

theorem line_ofEnd_le (s t : List Char) : (Place.ofEnd s).line ≤ (Place.ofEnd (s ++ t)).line := by
  rw [(counts_ofEnd s).line, (counts_ofEnd (s ++ t)).line, List.count_append]
  exact Nat.le_add_right _ _

/-- No character of a source is on a line below that of the last one. -/
theorem PointsTo.line_le_ofLast (h : p.PointsTo source [c]) :
    p.line ≤ (Place.ofLast source).line := by
  obtain ⟨before, after, rfl, counts⟩ := h
  have split : Place.ofLast (before ++ ([c] ++ after)) =
      Place.ofEnd (before ++ ([c] ++ after).dropLast) := by
    rw [ofLast, List.dropLast_append_of_ne_nil (by simp), ofEnd]
  rw [split, counts.line, ← (counts_ofEnd before).line]
  exact line_ofEnd_le before _

end Place

end Text

/-! ## Where a fault begins and ends -/

namespace Fault.Cause

/-- Where a text goes wrong: at the closer that does not fit, or at its last character if it ends
too early. -/
def stop (source : List Char) : Cause → Place
  | strayCloser p _ => p
  | mismatch _ closer .. => closer
  | unclosed .. | openString .. | openComment .. => .ofLast source

/-- The character at which begins what is not closed as it should be. -/
inductive Begins : Cause → Char → Prop
  | unclosed {p : Place} {level : Nat} (b : Bracket) : Begins (.unclosed p level) b.opener
  | mismatch {o c : Place} {found : Char} {level : Nat} (b : Bracket) :
    Begins (.mismatch o c b.closer found level) b.opener
  | openString {p : Place} (q : Quote) : Begins (.openString p q.mark) q.mark
  | openComment {p : Place} {depth : Nat} : Begins (.openComment p depth) '#'

/-- The character at which a source goes wrong. -/
inductive Ends (source : List Char) : Cause → Char → Prop
  | strayCommentEnd {p : Place} : Ends source (.strayCloser p none) '|'
  | strayCloser {p : Place} {level : Nat} (b : Bracket) :
    Ends source (.strayCloser p (some level)) b.closer
  | mismatch {o c : Place} {expected : Char} {level : Nat} (b : Bracket) :
    Ends source (.mismatch o c expected b.closer level) b.closer
  | unclosed {p : Place} {level : Nat} {c : Char} (h : source.getLast? = some c) :
    Ends source (.unclosed p level) c
  | openString {p : Place} {quote c : Char} (h : source.getLast? = some c) :
    Ends source (.openString p quote) c
  | openComment {p : Place} {depth : Nat} {c : Char} (h : source.getLast? = some c) :
    Ends source (.openComment p depth) c

variable {source : List Char} {cause : Fault.Cause}

theorem Begins.visible {c : Char} (h : cause.Begins c) : visible? c = some c := by
  cases h with
  | unclosed b => cases b <;> rfl
  | mismatch b => cases b <;> rfl
  | openString q => cases q <;> rfl
  | openComment => rfl

theorem Located.exists_begins (h : cause.Located source) (code : cause.code ≠ .strayCloser) :
    ∃ c, cause.Begins c ∧ cause.place.PointsTo source [c] := by
  cases h with
  | strayCommentEnd _ => exact absurd rfl code
  | strayCloser _ _ => exact absurd rfl code
  | unclosed b here => exact ⟨_, .unclosed b, here⟩
  | mismatch b _ here _ => exact ⟨_, .mismatch b, here⟩
  | openString q here => exact ⟨_, .openString q, here⟩
  | openComment here => exact ⟨_, .openComment, here.of_isStart ⟨['|'], rfl⟩⟩

theorem Located.exists_ends (h : cause.Located source) :
    ∃ c, cause.Ends source c ∧ (cause.stop source).Finds source c := by
  cases h with
  | strayCommentEnd here =>
    exact ⟨_, .strayCommentEnd, (here.of_isStart ⟨['#'], rfl⟩).finds rfl⟩
  | strayCloser b here => exact ⟨_, .strayCloser b, here.finds (by cases b <;> rfl)⟩
  | mismatch _ d _ here => exact ⟨_, .mismatch d, here.finds (by cases d <;> rfl)⟩
  | unclosed _ here =>
    obtain ⟨c, last, finds⟩ := Place.finds_ofLast here.ne_nil
    exact ⟨c, .unclosed last, finds⟩
  | openString _ here =>
    obtain ⟨c, last, finds⟩ := Place.finds_ofLast here.ne_nil
    exact ⟨c, .openString last, finds⟩
  | openComment here =>
    obtain ⟨c, last, finds⟩ := Place.finds_ofLast (here.of_isStart ⟨['|'], rfl⟩).ne_nil
    exact ⟨c, .openComment last, finds⟩

end Fault.Cause

/-! ## The upper mark is not below the lower one -/

theorem Text.Tiles.pairwise_line {text : List Char} {spans : List Span} (h : Tiles text spans) :
    spans.Pairwise fun s t => s.start.line ≤ t.start.line := by
  induction h with
  | nil => exact .nil
  | @concat read w spans h _ ih =>
    refine List.pairwise_append.mpr ⟨ih, List.pairwise_singleton _ _, ?_⟩
    intro s hs t ht
    obtain rfl := List.mem_singleton.mp ht
    obtain ⟨u, w', v, rfl, -, rfl⟩ := h.exists_of_mem hs
    exact Place.line_ofEnd_le u _

theorem Lexeme.place_of_delimiter? {l : Lexeme} {d : Delimiter} (h : l.delimiter? = some d) :
    d.place = l.span.start := by
  unfold delimiter? at h
  split at h
  all_goals cases h
  all_goals rfl

/-- The brackets of a text stand in the order of its lines. -/
theorem pairwise_line_of_lex {text : List Char} {lexemes : List Lexeme}
    (h : lex text = .ok lexemes) : (lexemes.filterMap Lexeme.delimiter?).Pairwise
      fun o d => o.place.line ≤ d.place.line := by
  have ordered := List.pairwise_map.mp (tiles_lex h).pairwise_line
  apply ordered.filterMap
  intro l m hlm o ho d hd
  rwa [place_of_delimiter? ho, place_of_delimiter? hd]

theorem Diagnosis.line_le {D : List Delimiter} {cause : Fault.Cause} (h : Diagnosis D cause)
    (ordered : D.Pairwise fun o d => o.place.line ≤ d.place.line) {o c : Place}
    {expected found : Char} {level : Nat} (hcause : cause = .mismatch o c expected found level) :
    o.line ≤ c.line := by
  cases h with
  | unclosed _ _ _ => cases hcause
  | stray _ _ => cases hcause
  | mismatch breaks unmatched _ _ =>
    cases hcause
    obtain ⟨after, rfl⟩ := breaks.split
    exact (List.pairwise_append.mp ordered).2.2 _ unmatched.mem _ List.mem_cons_self

theorem line_place_le_stop {source : String} {keep : Keep} {fault : Fault}
    (h : parse source keep = .error fault) :
    fault.cause.place.line ≤ (fault.cause.stop source.toList).line := by
  have located := located_of_parse h
  generalize hcause : fault.cause = cause at located ⊢
  cases located with
  | strayCommentEnd _ | strayCloser _ _ => exact Nat.le_refl _
  | unclosed _ here => exact here.line_le_ofLast
  | openString _ here => exact here.line_le_ofLast
  | openComment here => exact (here.of_isStart ⟨['|'], rfl⟩).line_le_ofLast
  | mismatch _ _ _ _ =>
    obtain ⟨flaw, rfl, hlex | ⟨lexemes, hlex, hbuild⟩⟩ := parse_eq_error_iff.mp h
    · obtain ⟨_, rfl⟩ | ⟨_, _, _, rfl⟩ | ⟨_, _, _, rfl⟩ := flaw_of_lex hlex
      all_goals cases hcause
    · exact (diagnosis_of_build hbuild).line_le (pairwise_line_of_lex hlex) hcause

/-! ## Marks of a flaw -/

namespace Flaw

/-- No flaw is described in more than one line. -/
theorem singleLine (f : Flaw) : f.excerpt.SingleLine := by
  have ticked {s : String} (h : '\n' ∉ s.toList) : '\n' ∉ ("`" ++ s ++ "`").toList :=
    lineFeed_notMem_append (lineFeed_notMem_append (by decide) h) (by decide)
  have closer (b : Bracket) : '\n' ∉ (String.singleton b.closer).toList :=
    lineFeed_notMem_singleton (by cases b <;> decide)
  cases f with
  | strayCommentEnd p =>
    constructor
    · exact lineFeed_notMem_append (by decide) (ticked (by decide))
    · exact nofun
    · show '\n' ∉ "no multi-line comment is open".toList
      decide
  | openString start last q =>
    have name : '\n' ∉ q.stringName.toList := by cases q <;> decide
    have mark : '\n' ∉ (String.singleton q.mark).toList :=
      lineFeed_notMem_singleton (by cases q <;> decide)
    constructor
    · exact lineFeed_notMem_append (by decide) name
    · rintro m ⟨⟩
      exact lineFeed_notMem_append (by decide) name
    · exact lineFeed_notMem_append (by decide) (ticked mark)
  | openComment start last depth =>
    have plural : '\n' ∉ (if depth = 1 then "" else "s").toList := by split <;> decide
    constructor
    · show '\n' ∉ "Unterminated multi-line comment".toList
      decide
    · rintro m ⟨⟩
      show '\n' ∉ "start of multi-line comment".toList
      decide
    · apply lineFeed_notMem_append _ (ticked (by decide))
      apply lineFeed_notMem_append _ (by decide)
      apply lineFeed_notMem_append _ plural
      apply lineFeed_notMem_append _ (by decide)
      exact lineFeed_notMem_append (by decide) (lineFeed_notMem_toString depth)
  | strayCloser p b =>
    constructor
    · exact lineFeed_notMem_append (by decide) (ticked (closer b))
    · exact nofun
    · show '\n' ∉ "no matching opening delimiter".toList
      decide
  | mismatch opener last expected found level =>
    constructor
    · show '\n' ∉ "Mismatched delimiter".toList
      decide
    · rintro m ⟨⟩
      show '\n' ∉ "opening delimiter".toList
      decide
    · apply lineFeed_notMem_append _ (ticked (closer found))
      apply lineFeed_notMem_append _ (by decide)
      exact lineFeed_notMem_append (by decide) (ticked (closer expected))
  | unclosed opener last b level =>
    constructor
    · show '\n' ∉ "Unclosed delimiter".toList
      decide
    · rintro m ⟨⟩
      show '\n' ∉ "opening delimiter".toList
      decide
    · apply lineFeed_notMem_append _ (by decide)
      exact lineFeed_notMem_append (by decide) (ticked (closer b))

theorem opening_of_strayCloser {f : Flaw} (h : f.cause.code = .strayCloser) :
    f.excerpt.opening = none := by
  cases f with
  | strayCommentEnd | strayCloser => rfl
  | openString | openComment | mismatch | unclosed => cases h

theorem exists_opening {f : Flaw} (h : f.cause.code ≠ .strayCloser) :
    ∃ label, f.excerpt.opening = some ⟨f.cause.place.toCursor, label⟩ := by
  cases f with
  | strayCommentEnd | strayCloser => exact absurd rfl h
  | openString | openComment | mismatch | unclosed => exact ⟨_, rfl⟩

end Flaw

/-- An excerpt begins with the line of the fault, unless that is moved up to its last line. -/
theorem Flaw.first_excerpt (f : Flaw) :
    f.excerpt.first = min f.cause.place.line f.excerpt.last := by
  cases f with
  | strayCommentEnd p => exact (Nat.min_self p.line).symm
  | strayCloser p b => exact (Nat.min_self p.line).symm
  | openString | openComment | mismatch | unclosed => rfl

/-- The lower mark stands where the text goes wrong. -/
theorem closing_of_lex {source : List Char} {flaw : Flaw} (h : lex source = .error flaw) :
    flaw.excerpt.closing.cursor = (flaw.cause.stop source).toCursor := by
  obtain ⟨u, v, done, rfl, hstuck, -⟩ := (lex_eq_iff_reads.mp h).exists_stuck rfl
  cases hstuck with
  | strayCommentEnd _ | openString _ _ _ | openComment _ _ => rfl

theorem closing_of_build {source : List Char} {keep : Keep} {lexemes : List Lexeme} {flaw : Flaw}
    (h : build keep (.ofLast source) lexemes = .error flaw) :
    flaw.excerpt.closing.cursor = (flaw.cause.stop source).toCursor := by
  rw [build] at h
  obtain ⟨b, ⟨run, -⟩ | ⟨before, l, after, flaw', -, run, -, hl⟩⟩ :=
    (Builder.holds_nil keep).addAll lexemes
  · rw [run] at h
    simp only [Builder.finish] at h
    split at h
    · cases h
    · cases h
      rfl
  · rw [run] at h
    cases h
    obtain ⟨bracket, -, ⟨-, rfl⟩ | ⟨o, rest, -, -, rfl⟩⟩ := Builder.add_error_cases hl
    · rfl
    · rfl

/-! ## Rows of a message -/

namespace Excerpt

/-- A row of marks points to a character in a row of source: the pointer is the first of its kind in
its row, and it stands as far from the start of the row as the character that is at the place. -/
structure Points (source : List Char) (width : Nat) (pointer : Char) (p : Place) (c : Char)
    (seen : Option Char) (marks shown : List Char) : Prop where
  pointsTo : p.PointsTo source [c]
  pointer : marks.idxOf? pointer = some (width + 3 + p.column)
  shown : shown = numbered width source p.line
  seen : (numbered width source p.line)[width + 3 + p.column]? = seen

end Excerpt

/-- **The marks of a message point to what is at fault.** Every fault except a stray closer has an
upper mark: its `v` is over the character with which the fault begins, in the row right above the
line of that character. The `^` of the lower mark is under the character with which the source goes
wrong, in the row right below its line, or behind that line if the character ends it. Columns count
from behind the gutter, which has room for the last line number, and for three dots if the excerpt
is of more than five lines. -/
theorem marks_point_to_fault (source : String) (keep : Keep) {fault : Fault}
    (h : parse source keep = .error fault) :
    let text := source.toList
    let rows := pieces '\n' fault.message.toList
    let start := fault.cause.place
    let stop := fault.cause.stop text
    let width := Excerpt.gutter start.line stop.line
    (fault.cause.code = .strayCloser → rows.length = 3) ∧
    (fault.cause.code ≠ .strayCloser → ∃ headline marks shown rest c,
      rows = headline :: marks :: shown :: rest ∧ fault.cause.Begins c ∧
        Excerpt.Points text width 'v' start c (some c) marks shown) ∧
    ∃ above shown marks c, rows = above ++ [shown, marks] ∧ fault.cause.Ends text c ∧
      Excerpt.Points text width '^' stop c (visible? c) marks shown := by
  intro text rows start stop width
  have ordered := line_place_le_stop h
  have located := located_of_parse h
  obtain ⟨flaw, rfl, origin⟩ := parse_eq_error_iff.mp h
  have closing : flaw.excerpt.closing.cursor = stop.toCursor := by
    rcases origin with hlex | ⟨lexemes, -, hbuild⟩
    · exact closing_of_lex hlex
    · exact closing_of_build hbuild
  have layout : rows = (flaw.excerpt.layout text).map String.toList :=
    flaw.singleLine.pieces_render text
  have last : flaw.excerpt.last = stop.line := congrArg Cursor.line closing
  have first : flaw.excerpt.first = start.line := by
    rw [flaw.first_excerpt, last]
    exact Nat.min_eq_left ordered
  have hwidth : flaw.excerpt.width = width := by
    rw [Excerpt.width_eq_gutter, first, last]
  have digits {index : Nat} (hindex : index ≤ stop.line) :
      (toString (index + 1)).length ≤ width := Excerpt.length_toString_le_gutter hindex
  refine ⟨?_, ?_, ?_⟩
  · intro code
    rw [layout, List.length_map]
    exact Excerpt.length_layout_of_none (Flaw.opening_of_strayCloser code)
  · intro code
    obtain ⟨label, opening⟩ := Flaw.exists_opening code
    obtain ⟨rest, upper⟩ := Excerpt.exists_layout_upper opening text
    obtain ⟨c, begins, here⟩ := located.exists_begins code
    have finds := here.finds begins.visible
    refine ⟨_, _, _, _, c, layout.trans (congrArg _ upper), begins, here, ?_, ?_, ?_⟩
    · rw [← hwidth]
      exact Excerpt.idxOf?_markRow _ _ (by decide) (by decide)
    · rw [Excerpt.toList_sourceRow_line, first, hwidth]
    · rw [Excerpt.getElem?_numbered (digits ordered), finds.shown, begins.visible]
  · obtain ⟨above, lower⟩ := flaw.excerpt.exists_layout_lower text
    obtain ⟨c, ends, finds⟩ := located.exists_ends
    rw [lower, List.map_append] at layout
    refine ⟨_, _, _, c, layout, ends, finds.pointsTo, ?_, ?_, ?_⟩
    · rw [← hwidth, ← closing]
      exact Excerpt.idxOf?_markRow _ _ (by decide) (by decide)
    · rw [Excerpt.toList_sourceRow_line, last, hwidth]
    · rw [Excerpt.getElem?_numbered (digits (Nat.le_refl _)), finds.shown]

/-- An opener on the first line, and behind a character of two bytes a closer of another family. -/
theorem marks_point_to_fault_accented :
    ∃ fault, parse "[\né)" = .error fault ∧
      fault.cause = .mismatch ⟨⟨0, 0⟩, 0⟩ ⟨⟨1, 1⟩, 4⟩ ']' ')' 0 ∧
      (∃ headline marks shown rest,
        pieces '\n' fault.message.toList = headline :: marks :: shown :: rest ∧
          marks.idxOf? 'v' = some 4 ∧ shown = "1 | [".toList) ∧
      ∃ above shown marks, pieces '\n' fault.message.toList = above ++ [shown, marks] ∧
        marks.idxOf? '^' = some 5 ∧ shown = "2 | é)".toList := by
  have refused : parse "[\né)" = .error
      ((Flaw.mismatch ⟨⟨0, 0⟩, 0⟩ ⟨⟨1, 1⟩, 4⟩ .square .round 0).fault "[\né)".toList) := rfl
  obtain ⟨-, upper, above, shown, marks, c, rows, -, lower⟩ :=
    marks_point_to_fault "[\né)" {} refused
  obtain ⟨headline, marks', shown', rest, c', rows', -, upper⟩ := upper (by decide)
  exact ⟨_, refused, rfl, ⟨headline, marks', shown', rest, rows', upper.pointer, upper.shown⟩,
    above, shown, marks, rows, lower.pointer, lower.shown⟩

end Bracketry
