import Bracketry.Proofs.Messages.Layout
import Bracketry.Proofs.Nesting.Locating
import Bracketry.Proofs.Registers.Run
import Bracketry.Report

/-!
# Where a report says that a fault is

A report names a place in its header, and it finds that place by characters and by segments, while
the place of a fault counts bytes and lines. The two agree on a text in which every character is one
byte and only line feeds end a segment (`Text.Plain`). On any other text before the fault they do
not, and the header names another place: an offset in bytes is a spot further on than the one that
is meant, a terminator that is no line feed is one more line, and neither can make up for the other,
since both lead onward (`report_locates_iff`).

What stands behind the fault does not matter for its place. But the report may be about more than
there is, if characters anywhere take more bytes than one, and then it has no header at all.
-/

namespace Bracketry

open Text

namespace Text

/-! ## Spots -/

/-- The cursor behind a text, where every end of a segment starts a line. -/
def Cursor.overSegments (k : Cursor) : List Char → Cursor
  | [] => k
  | c :: text =>
    overSegments (if endsSegment c text.head? then ⟨k.line + 1, 0⟩ else ⟨k.line, k.column + 1⟩) text

/-- No character but a line feed ends a segment of a text. -/
def FeedsOnly : List Char → Prop
  | [] => True
  | c :: text => (endsSegment c text.head? = true → c = '\n') ∧ FeedsOnly text

/-- A text that is counted alike in bytes and lines and in characters and segments. -/
structure Plain (text : List Char) : Prop where
  bytes : ∀ c ∈ text, c.utf8Size = 1
  feeds : FeedsOnly text

theorem endsSegment_append (c : Char) (before : List Char) {after : List Char}
    (h : after.head? ≠ some '\n') :
    endsSegment c (before ++ after).head? = endsSegment c before.head? := by
  cases before with
  | cons d before => rfl
  | nil =>
    have other : (after.head? != some '\n') = true := bne_iff_ne.mpr h
    rw [List.nil_append, List.head?_nil, endsSegment, endsSegment, other]
    rfl

theorem segments_ne_nil {text : List Char} (h : text ≠ []) : segments text ≠ [] := by
  intro none
  have flat := flatten_segments text
  rw [none] at flat
  exact h flat.symm

theorem segments_cons_of_ends {c : Char} {text : List Char} (h : endsSegment c text.head? = true) :
    segments (c :: text) = [c] :: segments text := by
  rw [segments, if_pos h]

theorem segments_cons_of_goesOn {c : Char} {text : List Char} (h : endsSegment c text.head? = false)
    (hne : text ≠ []) : segments (c :: text) = (segments text).modifyHead (c :: ·) := by
  rw [segments, if_neg (by simp [h])]
  split
  · next none => exact absurd none (segments_ne_nil hne)
  · next some => rw [some, List.modifyHead_cons]

theorem exists_spotFrom? {ss : List (List Char)} (h : ss ≠ []) (index offset : Nat) :
    ∃ a, spotFrom? index ss offset = some a := by
  fun_induction spotFrom? index ss offset with
  | case1 => exact absurd rfl h
  | case2 => exact ⟨_, rfl⟩
  | case3 => exact ⟨_, rfl⟩
  | case4 _ _ _ _ _ _ ih => exact ih (List.cons_ne_nil _ _)

/-- The character behind a text has the spot that is reached over the text. The induction is on what
has been read of the segment that goes on. -/
theorem exists_spotFrom?_append {after : List Char} (hne : after ≠ [])
    (hfeed : after.head? ≠ some '\n') (before read : List Char) (index : Nat) :
    let k := Cursor.overSegments ⟨index, read.length⟩ before
    ∃ segment, spotFrom? index ((segments (before ++ after)).modifyHead (read ++ ·))
      (read.length + before.length) = some ⟨k.line, segment, k.column⟩ := by
  induction before generalizing read index with
  | nil =>
    obtain ⟨s, ss, hs⟩ := List.exists_cons_of_ne_nil (segments_ne_nil hne)
    have some : 0 < s.length :=
      List.length_pos_of_ne_nil (ne_nil_of_mem_segments (hs ▸ List.mem_cons_self))
    rw [List.nil_append, hs, List.modifyHead_cons]
    refine ⟨read ++ s, ?_⟩
    cases ss with
    | nil => rfl
    | cons t ss =>
      rw [spotFrom?, if_pos (by simpa using some)]
      rfl
  | cons c before ih =>
    have more : before ++ after ≠ [] := List.append_ne_nil_of_right_ne_nil _ hne
    have same := endsSegment_append c before hfeed
    rw [List.cons_append, List.length_cons, Cursor.overSegments, ← same]
    by_cases ends : endsSegment c (before ++ after).head? = true
    · -- what has been read and `c` are a segment, and the next one is read from its start
      rw [if_pos ends, segments_cons_of_ends ends, List.modifyHead_cons]
      obtain ⟨s, ss, hs⟩ := List.exists_cons_of_ne_nil (segments_ne_nil more)
      have rest : read.length + (before.length + 1) - (read ++ [c]).length = before.length := by
        rw [List.length_append, List.length_singleton]
        omega
      obtain ⟨segment, spot⟩ := ih [] (index + 1)
      rw [hs, List.length_nil, Nat.zero_add] at spot
      rw [hs]
      refine ⟨segment, ?_⟩
      rw [spotFrom?, if_neg (by simp), rest]
      exact spot
    · -- `c` has been read too
      rw [if_neg ends, segments_cons_of_goesOn (by simpa using ends) more,
        List.modifyHead_modifyHead]
      obtain ⟨segment, spot⟩ := ih (read ++ [c]) index
      refine ⟨segment, ?_⟩
      rw [List.length_append, List.length_singleton, Nat.add_right_comm, Nat.add_assoc] at spot
      rw [← spot]
      congr 2
      funext s
      simp

theorem le_index_of_spotFrom? {index offset : Nat} {ss : List (List Char)} {a : Spot}
    (h : spotFrom? index ss offset = some a) : index ≤ a.index := by
  fun_induction spotFrom? index ss offset with
  | case1 => cases h
  | case2 =>
    cases h
    exact Nat.le_refl _
  | case3 =>
    cases h
    exact Nat.le_refl _
  | case4 index s t ss offset beyond ih => exact Nat.le_of_succ_le (ih h)

/-- A spot further on is in no segment before, and in the same segment as many characters on. -/
theorem spotFrom?_mono {index m n : Nat} {ss : List (List Char)} {a b : Spot} (hmn : m ≤ n)
    (ha : spotFrom? index ss m = some a) (hb : spotFrom? index ss n = some b) :
    a.index ≤ b.index ∧ (a.index = b.index → b.column = a.column + (n - m)) := by
  fun_induction spotFrom? index ss m generalizing n with
  | case1 => cases ha
  | case2 index s m =>
    cases ha
    cases hb
    exact ⟨Nat.le_refl _, fun _ => by simp only; omega⟩
  | case3 index s t ss m inside =>
    cases ha
    rw [spotFrom?] at hb
    split at hb
    · cases hb
      exact ⟨Nat.le_refl _, fun _ => by simp only; omega⟩
    · have := le_index_of_spotFrom? hb
      exact ⟨by simp only; omega, fun same => by simp only at same; omega⟩
  | case4 index s t ss m beyond ih =>
    rw [spotFrom?, if_neg (by omega)] at hb
    obtain ⟨le, column⟩ := ih (n := n - s.length) (by omega) ha hb
    exact ⟨le, fun same => by rw [column same]; omega⟩

/-! ## Lines and segments -/

theorem endsSegment_lineFeed (next : Option Char) : endsSegment '\n' next = true := rfl

/-- There are no fewer segments than lines, and as many only if line feeds alone end segments. -/
theorem line_after_le {p : Place} {k : Cursor} (h : p.line ≤ k.line) (text : List Char) :
    (p.after text).line ≤ (k.overSegments text).line ∧
      ((p.after text).line = (k.overSegments text).line → p.line = k.line ∧ FeedsOnly text) := by
  induction text generalizing p k with
  | nil => exact ⟨h, fun same => ⟨same, trivial⟩⟩
  | cons c text ih =>
    rw [Place.after_cons, Cursor.overSegments]
    by_cases feed : c = '\n'
    · subst feed
      rw [if_pos (endsSegment_lineFeed _)]
      obtain ⟨le, same⟩ := ih (p := p.advance '\n') (k := ⟨k.line + 1, 0⟩) (Nat.succ_le_succ h)
      refine ⟨le, fun lines => ?_⟩
      obtain ⟨lines, feeds⟩ := same lines
      exact ⟨Nat.succ_inj.mp lines, fun _ => rfl, feeds⟩
    · have line : (p.advance c).line = p.line := by
        simp [Place.advance, Cursor.advance, feed]
      split
      · obtain ⟨le, same⟩ := ih (p := p.advance c) (k := ⟨k.line + 1, 0⟩) (by simp only; omega)
        refine ⟨le, fun lines => ?_⟩
        have := (same lines).1
        simp only at this
        omega
      · next goesOn =>
        obtain ⟨le, same⟩ := ih (p := p.advance c) (k := ⟨k.line, k.column + 1⟩) (line ▸ h)
        refine ⟨le, fun lines => ?_⟩
        obtain ⟨lines, feeds⟩ := same lines
        exact ⟨line ▸ lines, fun ends => absurd ends goesOn, feeds⟩

theorem overSegments_eq {p : Place} {text : List Char} (h : FeedsOnly text) :
    p.toCursor.overSegments text = (p.after text).toCursor := by
  induction text generalizing p with
  | nil => rfl
  | cons c text ih =>
    rw [Place.after_cons, ← ih h.2, Cursor.overSegments]
    congr 1
    by_cases feed : c = '\n'
    · subst feed
      rw [if_pos (endsSegment_lineFeed _)]
      rfl
    · rw [if_neg fun ends => feed (h.1 ends)]
      simp [Place.advance, Cursor.advance, feed]

theorem Place.Counts.unique {p q : Place} {before : List Char} (hp : p.Counts before)
    (hq : q.Counts before) : p = q := by
  obtain ⟨⟨line, column⟩, offset⟩ := p
  obtain ⟨⟨line', column'⟩, offset'⟩ := q
  obtain rfl : line = line' := hp.line.trans hq.line.symm
  obtain rfl : column = column' := hp.column.trans hq.column.symm
  obtain rfl : offset = offset' := hp.offset.trans hq.offset.symm
  rfl

/-- A text has as many bytes as characters exactly if each of them takes one. -/
theorem byteLength_eq_length_iff {text : List Char} :
    byteLength text = text.length ↔ ∀ c ∈ text, c.utf8Size = 1 := by
  induction text with
  | nil => simp
  | cons c text ih =>
    have := c.utf8Size_pos
    have := Registers.length_le_byteLength text
    rw [byteLength_cons, List.length_cons, List.forall_mem_cons, ← ih]
    omega

/-- The offset in bytes of a place is the spot that is reached over the text before it, exactly if
that text is plain. -/
theorem spot?_byteLength_eq_iff {before after : List Char} (hne : after ≠ [])
    (hfeed : after.head? ≠ some '\n') {a : Spot}
    (h : spot? (before ++ after) (byteLength before) = some a) :
    (⟨a.index, a.column⟩ : Cursor) = (Place.ofEnd before).toCursor ↔ Plain before := by
  obtain ⟨segment, spot⟩ := exists_spotFrom?_append hne hfeed before [] 0
  have whole : (segments (before ++ after)).modifyHead ([] ++ ·) = segments (before ++ after) := by
    cases segments (before ++ after) <;> rfl
  rw [whole, List.length_nil, Nat.zero_add] at spot
  have weigh := Registers.length_le_byteLength before
  obtain ⟨onward, further⟩ := spotFrom?_mono weigh spot h
  obtain ⟨lines, same⟩ := line_after_le (p := {}) (k := {}) (Nat.le_refl _) before
  constructor
  · intro eq
    have line : a.index = (Place.ofEnd before).toCursor.line := congrArg Cursor.line eq
    have column : a.column = (Place.ofEnd before).toCursor.column := congrArg Cursor.column eq
    -- the spot is in no segment before the one that was reached, and no line is more than that
    have feeds : FeedsOnly before := (same (Nat.le_antisymm lines (line ▸ onward))).2
    have reached : Cursor.overSegments ⟨0, 0⟩ before = (Place.ofEnd before).toCursor :=
      overSegments_eq (p := {}) feeds
    rw [reached] at further
    have ahead : a.column =
        (Place.ofEnd before).toCursor.column + (byteLength before - before.length) :=
      further line.symm
    exact ⟨byteLength_eq_length_iff.mp (by omega), feeds⟩
  · intro plain
    rw [byteLength_eq_length_iff.mpr plain.bytes] at h
    cases Option.some.inj (spot.symm.trans h)
    exact overSegments_eq (p := {}) plain.feeds

end Text

/-! ## The place in a header -/

/-- The place of a cause is at a character of the source, and no line feed. -/
theorem Fault.Cause.Located.exists_mark {source : List Char} {cause : Fault.Cause}
    (h : cause.Located source) : ∃ c, c ≠ '\n' ∧ cause.place.PointsTo source [c] := by
  cases h with
  | strayCommentEnd here => exact ⟨'|', by decide, here.of_isStart ⟨['#'], rfl⟩⟩
  | strayCloser b here => exact ⟨_, by cases b <;> decide, here⟩
  | unclosed b here => exact ⟨_, by cases b <;> decide, here⟩
  | mismatch b _ here _ => exact ⟨_, by cases b <;> decide, here⟩
  | openString q here => exact ⟨_, by cases q <;> decide, here⟩
  | openComment here => exact ⟨'#', by decide, here.of_isStart ⟨['|'], rfl⟩⟩

namespace Report

variable {r : Report} {source : List Char} {k : Cursor}

/-- The row of a header that says where in a file a report is, counted from one. -/
def locationRow (width : Nat) (fileName : String) (k : Cursor) : String :=
  margin width ++ "╭─[" ++ fileName ++ ":" ++ toString (k.line + 1) ++ ":" ++
    toString (k.column + 1) ++ "]"

/-- A report has a header, and it names the place of a cursor. -/
def Locates (r : Report) (source : List Char) (k : Cursor) : Prop :=
  ∃ width, (r.rows source)[1]? = some (locationRow width r.fileName k)

/-- A row names one place: its corner tells the width of the margin, and no digit is a colon. -/
theorem locationRow_injective {width width' : Nat} {fileName : String} {k k' : Cursor}
    (h : locationRow width fileName k = locationRow width' fileName k') : k = k' := by
  have corner (n : Nat) : '╭' ∉ List.replicate (n + 2) ' ' := by simp
  have colon (n : Nat) : ':' ∉ (toString n).toList := notMem_toString (by decide) n
  have parts (n : Nat) (k : Cursor) : (locationRow n fileName k).toList =
      List.replicate (n + 2) ' ' ++ '╭' :: (['─', '['] ++ fileName.toList ++ [':'] ++
        ((toString (k.line + 1)).toList ++ ':' :: ((toString (k.column + 1)).toList ++ [']']))) := by
    simp [locationRow, margin, spaces]
  have chars := congrArg String.toList h
  rw [parts, parts] at chars
  have indent : width + 2 = width' + 2 := by
    have found := congrArg (List.idxOf? '╭') chars
    rw [idxOf?_append_cons (corner width), idxOf?_append_cons (corner width')] at found
    simpa using found
  rw [indent, List.append_cancel_left_eq, List.cons.injEq, and_iff_right rfl,
    List.append_cancel_left_eq] at chars
  have closing : ':' ∉ (toString (k.column + 1)).toList ++ [']'] :=
    List.not_mem_append (colon _) (by decide)
  obtain ⟨line, -, rest⟩ := (List.append_cons_inj_of_notMem (colon _) closing).mp chars
  have column := List.append_cancel_right rest
  exact congrArg₂ Cursor.mk (Nat.succ_inj.mp (toString_injective (String.toList_inj.mp line)))
    (Nat.succ_inj.mp (toString_injective (String.toList_inj.mp column)))

theorem locates_iff :
    r.Locates source k ↔ r.last ≤ source.length ∧
      ∃ a, spot? source r.start = some a ∧ k = ⟨a.index, a.column⟩ := by
  rw [Locates, rows]
  split
  · next beyond => simp [Nat.not_le.mpr beyond]
  · next inside =>
    rw [and_iff_right (Nat.not_lt.mp inside)]
    split
    · next a b ha hb =>
      rw [ha]
      have row : (r.heading :: r.bodyRows a b)[1]? =
          some (locationRow (toString (b.index + 1)).length r.fileName ⟨a.index, a.column⟩) := rfl
      rw [row]
      constructor
      · rintro ⟨width, same⟩
        exact ⟨a, rfl, (locationRow_injective (Option.some.inj same)).symm⟩
      · rintro ⟨_, ⟨⟩, rfl⟩
        exact ⟨_, rfl⟩
    · next none =>
      constructor
      · rintro ⟨width, ⟨⟩⟩
      · rintro ⟨a, ha, -⟩
        have some : segments source ≠ [] := by
          intro empty
          rw [spot?, empty] at ha
          cases ha
        obtain ⟨b, hb⟩ := exists_spotFrom? some 0 r.last
        exact absurd hb (none a b ha)

end Report

/-- **A report names the place of its fault exactly behind plain text**: the header has the line and
the column of the fault if all that is before it takes one byte each and only line feeds end its
segments, and if the report is drawn at all, which it is for a source in which every character takes
one byte. -/
theorem report_locates_iff {source : String} {keep : Keep} {fault : Fault}
    (h : parse source keep = .error fault) (fileName : String) :
    let text := source.toList
    let r := Report.ofFault text fileName fault
    fault.report source fileName = String.join ((r.rows text).map (· ++ "\n")) ∧
    ∃ before after, text = before ++ after ∧ fault.cause.place.Counts before ∧
      (r.Locates text fault.cause.place.toCursor ↔ Plain before ∧ r.last ≤ text.length) ∧
      ((∀ c ∈ text, c.utf8Size = 1) → r.last ≤ text.length) := by
  intro text r
  obtain ⟨c, feed, before, rest, split, counts⟩ := (located_of_parse h).exists_mark
  have start : r.start = byteLength before := by
    simp only [r, Report.ofFault, counts.offset, text, split]
    simp
  have cursor : fault.cause.place.toCursor = (Place.ofEnd before).toCursor :=
    congrArg Place.toCursor (counts.unique (Place.counts_ofEnd before))
  refine ⟨rfl, before, [c] ++ rest, split, counts, ?_, fun bytes => ?_⟩
  · rw [Report.locates_iff, start, cursor, and_comm]
    refine and_congr_left fun _ => ?_
    have hne : text ≠ [] := by simp [split, text]
    obtain ⟨a, ha⟩ := exists_spotFrom? (segments_ne_nil hne) 0 (byteLength before)
    have spot : spot? (before ++ ([c] ++ rest)) (byteLength before) = some a := split ▸ ha
    rw [← spot?_byteLength_eq_iff (by simp) (by simpa using feed) spot]
    constructor
    · rintro ⟨b, hb, same⟩
      cases Option.some.inj (ha.symm.trans hb)
      exact same.symm
    · exact fun same => ⟨a, ha, same.symm⟩
  · have length := byteLength_eq_length_iff.mpr bytes
    simp only [Report.last, r, Report.ofFault, length]
    omega

/-- A closer on a second line, behind a line that ends with a carriage return and a line feed. -/
theorem report_locates_iff_lines :
    ∃ fault, parse "a\r\n b)" = .error fault ∧ fault.cause.place.toCursor = ⟨1, 2⟩ ∧
      (Report.ofFault "a\r\n b)".toList "f" fault).Locates "a\r\n b)".toList ⟨1, 2⟩ ∧
      fault.report "a\r\n b)" "f" = String.intercalate "\n"
        ["[01] Error: Unexpected closing delimiter `)` at line 2, column 3",
          "   ╭─[f:2:3]", "   │", " 2 │  b)", "   │   ┬  ",
          "   │   ╰── no matching opening delimiter", "───╯", ""] := by
  have h : parse "a\r\n b)" = .error
      ((Flaw.strayCloser ⟨⟨1, 2⟩, 5⟩ .round).fault "a\r\n b)".toList) := rfl
  obtain ⟨-, before, after, split, counts, locates, drawn⟩ := report_locates_iff h "f"
  have whole : before = ['a', '\r', '\n', ' ', 'b'] := by
    have cut := takeBytes?_byteLength before after
    rw [← counts.offset, ← split] at cut
    exact (Option.some.inj cut).symm
  have plain : Plain before := by
    rw [whole]
    exact ⟨byteLength_eq_length_iff.mp rfl, by simp [FeedsOnly, endsSegment]⟩
  exact ⟨_, h, rfl, locates.mpr ⟨plain, drawn (byteLength_eq_length_iff.mp rfl)⟩,
    by decide +kernel⟩

/-- Behind a character of two bytes, a report names the column after that of the fault. -/
theorem report_misplaces_accented :
    ∃ fault, parse "é)" = .error fault ∧ fault.cause.place.toCursor = ⟨0, 1⟩ ∧
      ¬ (Report.ofFault "é)".toList "f" fault).Locates "é)".toList fault.cause.place.toCursor ∧
      fault.report "é)" "f" = String.intercalate "\n"
        ["[01] Error: Unexpected closing delimiter `)` at line 1, column 2",
          "   ╭─[f:1:3]", "   │", "   │ ", "───╯", ""] := by
  refine ⟨(Flaw.strayCloser ⟨⟨0, 1⟩, 2⟩ .round).fault "é)".toList, rfl, rfl, fun named => ?_,
    by decide +kernel⟩
  obtain ⟨-, a, spot, place⟩ := Report.locates_iff.mp named
  cases spot
  cases place

end Bracketry
