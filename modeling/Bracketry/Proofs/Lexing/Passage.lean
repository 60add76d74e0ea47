import Bracketry.Proofs.Lexing.Grammar
import Bracketry.Proofs.Lexing.Reading
import Mathlib.Data.List.Basic

/-!
# The lexer over a whole lexeme

A lexeme of the grammar that stands at the start of what remains takes the idle lexer to the idle
lexer behind it, and adds itself to the outcome (`Lexer.resume_splits`). Where the grammar is stuck
the lexer comes to the same flaw (`Lexer.resume_stuck`).

The proofs go by what a lexeme does between its first character and its last. Where one activity is
kept all along, one decision has to be looked at (`Lexer.resume_stay`). A blank or a word is only
given out when the next character does not continue it, or at the end of the text
(`Lexer.resume_settle`). Block comments move between three phases, and are followed along the
recursion that counts their depth.
-/

namespace Bracketry

open Text Lexeme

namespace Bracket

theorem isSome_ofOpener? {c : Char} : (ofOpener? c).isSome ↔ ∃ b : Bracket, c = b.opener := by
  simp only [Option.isSome_iff_exists, ofOpener?_eq_some_iff]

theorem isSome_ofCloser? {c : Char} : (ofCloser? c).isSome ↔ ∃ b : Bracket, c = b.closer := by
  simp only [Option.isSome_iff_exists, ofCloser?_eq_some_iff]

theorem ofOpener?_of_isBlank {c : Char} (h : isBlank c = true) : ofOpener? c = none := by
  cases hb : ofOpener? c with
  | none => rfl
  | some b =>
    rw [ofOpener?_eq_some_iff] at hb
    subst hb
    cases b <;> exact absurd h (by decide)

theorem ofCloser?_of_isBlank {c : Char} (h : isBlank c = true) : ofCloser? c = none := by
  cases hb : ofCloser? c with
  | none => rfl
  | some b =>
    rw [ofCloser?_eq_some_iff] at hb
    subst hb
    cases b <;> exact absurd h (by decide)

end Bracket

namespace Quote

theorem isSome_ofMark? {c : Char} : (ofMark? c).isSome ↔ ∃ q : Quote, c = q.mark := by
  simp only [Option.isSome_iff_exists, ofMark?_eq_some_iff]

theorem ofMark?_of_isBlank {c : Char} (h : isBlank c = true) : ofMark? c = none := by
  cases hq : ofMark? c with
  | none => rfl
  | some q =>
    rw [ofMark?_eq_some_iff] at hq
    subst hq
    cases q <;> exact absurd h (by decide)

end Quote

/-- A span over a text grows with the text. -/
theorem Span.extend_mk (place : Place) (w : List Char) (c : Char) :
    (⟨place, byteLength w⟩ : Span).extend c = ⟨place, byteLength (w ++ [c])⟩ := by
  simp [extend]

namespace Lexer

/-! ## The first character -/

section start

variable (here : Place) (next : Option Char)

@[simp] theorem start_opener (b : Bracket) :
    start here b.opener next = .taken [⟨.opener b, here, byteLength [b.opener]⟩] .idle := by
  cases b <;> rfl

@[simp] theorem start_closer (b : Bracket) :
    start here b.closer next = .taken [⟨.closer b, here, byteLength [b.closer]⟩] .idle := by
  cases b <;> rfl

@[simp] theorem start_mark (q : Quote) :
    start here q.mark next = .taken [] (.quoted q ⟨here, byteLength [q.mark]⟩) := by
  cases q <;> rfl

theorem start_blank {c : Char} (h : isBlank c = true) :
    start here c next = .taken [] (.blank ⟨here, byteLength [c]⟩) := by
  simp only [start, Bracket.ofOpener?_of_isBlank h, Bracket.ofCloser?_of_isBlank h,
    Quote.ofMark?_of_isBlank h, h, if_true]
  rfl

theorem start_semicolon :
    start here ';' next = .taken [] (.lineComment ⟨here, byteLength [';']⟩) := rfl

theorem start_hash :
    start here '#' (some '|') = .taken [] (.blockComment .opening 0 ⟨here, byteLength ['#']⟩) :=
  rfl

end start

theorem continuesWord_iff {c : Char} {rest : List Char} :
    continuesWord c rest.head? = true ↔ ¬ EndsWord (c :: rest) := by
  simp only [continuesWord, EndsWord, BeginsMark, Bool.not_eq_true', Bool.or_eq_false_iff, not_or,
    ← Bracket.isSome_ofOpener?, ← Bracket.isSome_ofCloser?, ← Quote.isSome_ofMark?, opensComment,
    closesComment]
  simp [and_assoc]

theorem start_word (here : Place) {c : Char} {rest : List Char} (h : ¬ EndsWord (c :: rest)) :
    start here c rest.head? = .taken [] (.word ⟨here, byteLength [c]⟩) := by
  have hc := continuesWord_iff.mpr h
  simp only [continuesWord, Bool.not_eq_true', Bool.or_eq_false_iff, beq_eq_false_iff_ne,
    Option.isSome_eq_false_iff, Option.isNone_iff_eq_none] at hc
  obtain ⟨⟨⟨⟨⟨⟨blank, semicolon⟩, mark⟩, opener⟩, closer⟩, opens⟩, closes⟩ := hc
  simp [start, blank, semicolon, mark, opener, closer, opens, closes]
  rfl

/-! ## Between the first character and the last -/

theorem resume_taken {a a' : Activity} {done : List Lexeme} {read rest : List Char} {c : Char}
    (h : a.take read.getLast? (Place.ofEnd read) c rest.head? = .taken done a') :
    resume read a (c :: rest) = (resume (read ++ [c]) a' rest).behind done := by
  rw [resume_cons, h]

/-- The first character of a lexeme that does not end with it. -/
theorem resume_start {a : Activity} {read rest : List Char} {c : Char}
    (h : start (Place.ofEnd read) c rest.head? = .taken [] a) :
    resume read .idle (c :: rest) = resume (read ++ [c]) a rest := by
  rw [resume_taken (a := .idle) h, Outcome.behind_nil]

/-- An activity that a stretch of text only moves on. `f` is the activity behind each start of the
stretch. -/
theorem resume_stay {read v rest : List Char} {f : List Char → Activity}
    (h : ∀ u c x, u ++ c :: x = v →
      (f u).take (read ++ u).getLast? (Place.ofEnd (read ++ u)) c (x ++ rest).head? =
        .taken [] (f (u ++ [c]))) :
    resume read (f []) (v ++ rest) = resume (read ++ v) (f v) rest := by
  suffices ∀ x u, u ++ x = v →
      resume (read ++ u) (f u) (x ++ rest) = resume (read ++ v) (f v) rest by
    simpa using this v [] rfl
  intro x
  induction x with
  | nil =>
    rintro u rfl
    simp
  | cons c x ih =>
    intro u huv
    rw [List.cons_append, resume_cons, h u c x huv]
    simpa using ih (u ++ [c]) (by simpa using huv)

/-- A lexeme that the next character does not continue is given out, and that character starts the
next one: giving it out first comes to the same. -/
theorem resume_eq_behind {a : Activity} {l : Lexeme} {read rest : List Char} {c : Char}
    (h : a.take read.getLast? (Place.ofEnd read) c rest.head? =
      (start (Place.ofEnd read) c rest.head?).after l) :
    resume read a (c :: rest) = (resume read .idle (c :: rest)).behind [l] := by
  rw [resume_cons, resume_cons, h, Activity.take]
  cases start (Place.ofEnd read) c rest.head? with
  | taken done a' => simp only [Decision.after, Outcome.behind_behind, List.singleton_append]
  | refused done => rfl
  | brokenPair => rfl

theorem resume_blank {read rest : List Char} {s : Span}
    (h : ∀ c ∈ rest.head?, isBlank c = false) :
    resume read (.blank s) rest = (resume read .idle rest).behind [⟨.blank, s⟩] := by
  cases rest with
  | nil => simp only [resume_nil]; rfl
  | cons c rest => exact resume_eq_behind (if_neg (by simp [h c rfl]))

theorem resume_word {read rest : List Char} {s : Span} (h : rest ≠ [] → EndsWord rest) :
    resume read (.word s) rest = (resume read .idle rest).behind [⟨.word, s⟩] := by
  cases rest with
  | nil => simp only [resume_nil]; rfl
  | cons c rest =>
    have ends : ¬ continuesWord c rest.head? = true := by
      rw [continuesWord_iff, not_not]
      exact h (List.cons_ne_nil c rest)
    exact resume_eq_behind (if_neg ends)

/-! ## Lexemes of one activity -/

/-- A blank, from its first character to its last. -/
theorem resume_splits_blank {read w rest : List Char} (h : Splits (w ++ rest) .blank w) :
    resume read .idle (w ++ rest) =
      (resume (read ++ w) .idle rest).behind [⟨.blank, Place.ofEnd read, byteLength w⟩] := by
  obtain ⟨hne, blank, ends⟩ := splits_blank_iff.mp h
  obtain ⟨c, v, rfl⟩ := List.exists_cons_of_ne_nil hne
  rw [List.cons_append, resume_start (start_blank _ _ (blank c List.mem_cons_self)),
    resume_stay (f := fun u => .blank ⟨Place.ofEnd read, byteLength (c :: u)⟩),
    resume_blank ends, List.append_assoc, List.singleton_append]
  intro u d x huv
  have hd : isBlank d = true := blank d (by simp [← huv])
  rw [Activity.take, if_pos hd, Span.extend_mk, List.cons_append]

/-- A word, from its first character to its last. -/
theorem resume_splits_word {read w rest : List Char} (h : Splits (w ++ rest) .word w) :
    resume read .idle (w ++ rest) =
      (resume (read ++ w) .idle rest).behind [⟨.word, Place.ofEnd read, byteLength w⟩] := by
  obtain ⟨hne, still, ends⟩ := splits_word_iff.mp h
  obtain ⟨c, v, rfl⟩ := List.exists_cons_of_ne_nil hne
  have hc := still 0 (by simp)
  rw [List.drop_zero, List.cons_append] at hc
  rw [List.cons_append, resume_start (start_word _ hc),
    resume_stay (f := fun u => .word ⟨Place.ofEnd read, byteLength (c :: u)⟩),
    resume_word ends, List.append_assoc, List.singleton_append]
  rintro u d x rfl
  have hd : continuesWord d (x ++ rest).head? = true := by
    rw [continuesWord_iff]
    simpa using still (u.length + 1) (by simp)
  rw [Activity.take, if_pos hd, Span.extend_mk, List.cons_append]

/-- The characters of a line comment before its line feed. -/
theorem resume_lineComment (read : List Char) {v : List Char} (h : '\n' ∉ v) (rest : List Char) :
    resume read .idle (';' :: (v ++ rest)) =
      resume (read ++ ';' :: v) (.lineComment ⟨Place.ofEnd read, byteLength (';' :: v)⟩) rest := by
  rw [resume_start (start_semicolon _ _),
    resume_stay (f := fun u => .lineComment ⟨Place.ofEnd read, byteLength (';' :: u)⟩),
    List.append_assoc, List.singleton_append]
  rintro u d x rfl
  have hd : d ≠ '\n' := by
    rintro rfl
    exact h (by simp)
  rw [Activity.take, if_neg hd, Span.extend_mk, List.cons_append]

/-- A line comment that a line feed ends has no other line feed. -/
theorem eq_of_shortest_lineFeed {text w : List Char} (hstart : [';'] <+: text)
    (h : Shortest (·.getLast? = some '\n') text w) :
    ∃ v, w = ';' :: (v ++ ['\n']) ∧ '\n' ∉ v := by
  obtain ⟨u, rfl⟩ := List.getLast?_eq_some_iff.mp h.holds
  obtain ⟨rest, rfl⟩ := hstart
  obtain ⟨after, hafter⟩ := h.isStart
  cases u with
  | nil => simp at hafter
  | cons c v =>
    obtain ⟨rfl, hafter⟩ : c = ';' ∧ v ++ '\n' :: after = rest := by simpa using hafter
    refine ⟨v, rfl, fun hmem => ?_⟩
    obtain ⟨s, t, rfl⟩ := List.append_of_mem hmem
    refine h.not_of_length_lt (s := ';' :: s ++ ['\n']) ?_ ?_ List.getLast?_concat
    · exact ⟨t ++ '\n' :: after, by simp [← hafter]⟩
    · simp

/-- A line comment, to its line feed or to the end of the text. -/
theorem resume_splits_lineComment {read w rest : List Char}
    (h : Splits (w ++ rest) .lineComment w) :
    resume read .idle (w ++ rest) =
      (resume (read ++ w) .idle rest).behind [⟨.lineComment, Place.ofEnd read, byteLength w⟩] := by
  generalize htext : w ++ rest = text at h
  cases h with
  | lineComment hstart h =>
    obtain ⟨v, rfl, hv⟩ := eq_of_shortest_lineFeed hstart h
    have feed : Activity.take (.lineComment ⟨Place.ofEnd read, byteLength (';' :: v)⟩)
        (read ++ ';' :: v).getLast? (Place.ofEnd (read ++ ';' :: v)) '\n' rest.head? =
        .taken [⟨.lineComment, Place.ofEnd read, byteLength (';' :: (v ++ ['\n']))⟩] .idle := by
      rw [Activity.take, if_pos rfl, Span.extend_mk, List.cons_append]
    rw [← htext, List.cons_append, List.append_assoc, List.singleton_append,
      resume_lineComment read hv, resume_taken feed, List.append_assoc, List.cons_append]
  | lastLineComment hstart h =>
    obtain rfl : rest = [] := by simpa using htext
    obtain ⟨v, rfl⟩ := hstart
    have noFeed : '\n' ∉ v := by simpa using h
    have run := resume_lineComment read noFeed []
    rw [List.append_nil, resume_nil] at run
    rw [← htext, List.append_nil, List.singleton_append, run, resume_nil]
    rfl

/-! ## Strings -/

/-- The characters of a string, as long as none of them closes it. -/
theorem resume_quoted (read : List Char) {q : Quote} {v : List Char}
    (h : ∀ x, x <+: q.mark :: v → ¬ ClosedString q x) (rest : List Char) :
    resume read .idle (q.mark :: (v ++ rest)) =
      resume (read ++ q.mark :: v) (.quoted q ⟨Place.ofEnd read, byteLength (q.mark :: v)⟩)
        rest := by
  rw [resume_start (start_mark _ _ q),
    resume_stay (f := fun u => .quoted q ⟨Place.ofEnd read, byteLength (q.mark :: u)⟩),
    List.append_assoc, List.singleton_append]
  rintro u d x rfl
  have hd : ¬ (d = q.mark ∧ (read ++ [q.mark] ++ u).getLast? ≠ some '\\') := by
    rintro ⟨rfl, hprevious⟩
    rw [List.append_assoc, List.singleton_append, List.getLast?_append_cons] at hprevious
    refine h (q.mark :: u ++ [q.mark]) ⟨x, by simp⟩ ⟨by simp, List.getLast?_concat, ?_⟩
    rwa [List.dropLast_concat]
  rw [Activity.take, if_neg hd, Span.extend_mk, List.cons_append]

/-- A string, from quote to quote. -/
theorem resume_splits_quoted {q : Quote} {read w rest : List Char}
    (h : Splits (w ++ rest) (.quoted q) w) :
    resume read .idle (w ++ rest) =
      (resume (read ++ w) .idle rest).behind [⟨.quoted q, Place.ofEnd read, byteLength w⟩] := by
  cases h with
  | quoted _ hstart h =>
    obtain ⟨long, ends, noBackslash⟩ := h.holds
    obtain ⟨u, rfl⟩ := List.getLast?_eq_some_iff.mp ends
    obtain ⟨v, rfl⟩ : ∃ v, u = q.mark :: v := by
      cases u with
      | nil => simp at long
      | cons c v =>
        obtain ⟨rfl⟩ : q.mark = c := by simpa using hstart
        exact ⟨v, rfl⟩
    rw [List.dropLast_concat] at noBackslash
    have still : ∀ x, x <+: q.mark :: v → ¬ ClosedString q x := fun x hx =>
      h.not_of_length_lt (hx.trans ⟨[q.mark] ++ rest, by simp⟩)
        (by simpa using Nat.lt_succ_of_le hx.length_le)
    have close : Activity.take (.quoted q ⟨Place.ofEnd read, byteLength (q.mark :: v)⟩)
        (read ++ q.mark :: v).getLast? (Place.ofEnd (read ++ q.mark :: v)) q.mark rest.head? =
        .taken [⟨.quoted q, Place.ofEnd read, byteLength (q.mark :: v ++ [q.mark])⟩] .idle := by
      rw [List.getLast?_append_cons, Activity.take, if_pos ⟨rfl, noBackslash⟩, Span.extend_mk]
    rw [List.append_assoc, List.singleton_append, List.cons_append, resume_quoted read still,
      resume_taken close, List.append_assoc]

/-- A string that the text does not close. -/
theorem resume_openString {q : Quote} {read text : List Char} (hstart : [q.mark] <+: text)
    (h : ∀ w, w <+: text → ¬ ClosedString q w) :
    resume read .idle text =
      some (.error (.openString (Place.ofEnd read) (Place.ofLast (read ++ text)) q)) := by
  obtain ⟨v, rfl⟩ := hstart
  have run := resume_quoted read h []
  rw [List.append_nil, resume_nil] at run
  exact run

/-! ## Block comments -/

/-- In a block comment that starts at a place and of which `u` was read, inside `outer` others and
with no mark begun. -/
def Activity.inComment (outer : Nat) (place : Place) (u : List Char) : Activity :=
  .blockComment .body outer ⟨place, byteLength u⟩

section comment

variable {read rest : List Char} {outer : Nat} {place : Place} {u : List Char}

theorem resume_inComment_opens :
    resume read (.inComment outer place u) ('#' :: '|' :: rest) =
      resume (read ++ ['#', '|']) (.inComment (outer + 1) place (u ++ ['#', '|'])) rest := by
  rw [Activity.inComment, resume_taken rfl, resume_taken rfl,
    Span.extend_mk, Span.extend_mk, List.append_assoc, List.append_assoc]
  simp only [Outcome.behind_nil]
  rfl

theorem resume_inComment_closes :
    resume read (.inComment (outer + 1) place u) ('|' :: '#' :: rest) =
      resume (read ++ ['|', '#']) (.inComment outer place (u ++ ['|', '#'])) rest := by
  rw [Activity.inComment, resume_taken rfl, resume_taken rfl,
    Span.extend_mk, Span.extend_mk, List.append_assoc, List.append_assoc]
  simp only [Outcome.behind_nil]
  rfl

theorem resume_inComment_ends :
    resume read (.inComment 0 place u) ('|' :: '#' :: rest) =
      (resume (read ++ ['|', '#']) .idle rest).behind
        [⟨.blockComment, place, byteLength (u ++ ['|', '#'])⟩] := by
  rw [Activity.inComment, resume_taken rfl, resume_taken rfl, Span.extend_mk,
    Span.extend_mk, List.append_assoc, List.append_assoc]
  simp only [Outcome.behind_nil]
  rfl

theorem resume_inComment_cons {c : Char} (h : ¬ BeginsMark c rest) :
    resume read (.inComment outer place u) (c :: rest) =
      resume (read ++ [c]) (.inComment outer place (u ++ [c])) rest := by
  have opens : opensComment c rest.head? = false := by
    simpa [opensComment] using not_and.mp (not_or.mp h).1
  have closes : closesComment c rest.head? = false := by
    simpa [closesComment] using not_and.mp (not_or.mp h).2
  rw [Activity.inComment, resume_taken, Outcome.behind_nil]
  simp only [Activity.take, opens, closes, Span.extend_mk]
  rfl

/-- A block comment up to where all that was opened is closed. -/
theorem resume_inComment_closed {w : List Char} (hclosed : commentDepth (outer + 1) w = 0)
    (hfirst : ∀ v, v <+: w → v.length < w.length → commentDepth (outer + 1) v ≠ 0) :
    resume read (.inComment outer place u) (w ++ rest) =
      (resume (read ++ w) .idle rest).behind
        [⟨.blockComment, place, byteLength (u ++ w)⟩] := by
  generalize hdepth : outer + 1 = depth at hclosed hfirst
  fun_induction commentDepth depth w generalizing read outer u with
  | case1 depth w ih =>
    subst hdepth
    have first : ∀ v, v <+: w → v.length < w.length → commentDepth (outer + 1 + 1) v ≠ 0 := by
      intro v hv hlt
      rw [← commentDepth_opens]
      exact hfirst _ (by simpa using hv) (by simpa using hlt)
    rw [List.cons_append, List.cons_append, resume_inComment_opens, ih rfl hclosed first]
    simp
  | case2 depth w ih =>
    subst hdepth
    cases outer with
    | zero =>
      -- the mark closes the comment, and a first close has nothing behind it
      obtain rfl : w = [] := by
        by_contra hne
        have := List.length_pos_iff.mpr hne
        exact hfirst ['|', '#'] (by simp) (by simpa using this) rfl
      exact resume_inComment_ends
    | succ outer =>
      have first : ∀ v, v <+: w → v.length < w.length → commentDepth (outer + 1) v ≠ 0 := by
        intro v hv hlt
        have := hfirst ('|' :: '#' :: v) (by simpa using hv) (by simpa using hlt)
        rwa [commentDepth_closes] at this
      rw [List.cons_append, List.cons_append, resume_inComment_closes, ih rfl hclosed first]
      simp
  | case3 depth c w hopens hcloses ih =>
    subst hdepth
    have plain := not_beginsMark hopens hcloses
    have first : ∀ v, v <+: w → v.length < w.length → commentDepth (outer + 1) v ≠ 0 := by
      intro v hv hlt
      have := hfirst (c :: v) (by simpa using hv) (by simpa using hlt)
      rwa [commentDepth_cons _ (mt (BeginsMark.mono hv) plain)] at this
    -- the lookahead sees the comment's own text, for the comment is not complete here
    have next : ¬ BeginsMark c (w ++ rest) := by
      cases w with
      | nil => simp at hclosed
      | cons d w => exact plain
    rw [List.cons_append, resume_inComment_cons next, ih rfl hclosed first]
    simp
  | case4 depth => omega

/-- A block comment that the text does not close. -/
theorem resume_inComment_open {text : List Char}
    (hopen : ∀ v, v <+: text → commentDepth (outer + 1) v ≠ 0) :
    resume read (.inComment outer place u) text =
      some (.error (.openComment place (Place.ofLast (read ++ text))
        (commentDepth (outer + 1) text))) := by
  generalize hdepth : outer + 1 = depth at hopen ⊢
  fun_induction commentDepth depth text generalizing read outer u with
  | case1 depth t ih =>
    subst hdepth
    rw [resume_inComment_opens, ih rfl fun v hv => ?_, List.append_assoc, List.cons_append,
      List.cons_append, List.nil_append]
    rw [← commentDepth_opens]
    exact hopen _ (by simpa using hv)
  | case2 depth t ih =>
    subst hdepth
    cases outer with
    | zero => exact absurd rfl (hopen ['|', '#'] (by simp))
    | succ outer =>
      rw [resume_inComment_closes, ih rfl fun v hv => ?_, List.append_assoc, List.cons_append,
        List.cons_append, List.nil_append]
      have := hopen ('|' :: '#' :: v) (by simpa using hv)
      rwa [commentDepth_closes] at this
  | case3 depth c t hopens hcloses ih =>
    subst hdepth
    have plain := not_beginsMark hopens hcloses
    rw [resume_inComment_cons plain, ih rfl fun v hv => ?_, List.append_assoc,
      List.singleton_append]
    have := hopen (c :: v) (by simpa using hv)
    rwa [commentDepth_cons _ (mt (BeginsMark.mono hv) plain)] at this
  | case4 depth =>
    subst hdepth
    rw [resume_nil, List.append_nil]
    rfl

end comment

/-- The mark that opens a block comment. -/
theorem resume_comment (read rest : List Char) :
    resume read .idle ('#' :: '|' :: rest) =
      resume (read ++ ['#', '|']) (.inComment 0 (Place.ofEnd read) ['#', '|']) rest := by
  rw [resume_start (start_hash _), resume_taken rfl, Outcome.behind_nil, Span.extend_mk,
    List.append_assoc]
  rfl

/-- A block comment, from mark to mark. -/
theorem resume_splits_blockComment {read w rest : List Char}
    (h : Splits (w ++ rest) .blockComment w) :
    resume read .idle (w ++ rest) =
      (resume (read ++ w) .idle rest).behind
        [⟨.blockComment, Place.ofEnd read, byteLength w⟩] := by
  cases h with
  | blockComment h =>
    obtain ⟨⟨v, rfl⟩, hclosed⟩ := h.holds
    have first : ∀ x, x <+: v → x.length < v.length → commentDepth 1 x ≠ 0 := by
      intro x hx hlt hx0
      refine h.not_of_length_lt (s := '#' :: '|' :: x) ?_ (by simpa using hlt) ?_
      · simpa using hx.trans (List.prefix_append v rest)
      · exact ⟨by simp, by simpa using hx0⟩
    have run := resume_comment read (v ++ rest)
    rw [resume_inComment_closed (by simpa using hclosed) first] at run
    simpa using run

/-- A block comment that the text does not close. -/
theorem resume_openComment {read text : List Char} (hstart : ['#', '|'] <+: text)
    (h : ∀ w, w <+: text → ¬ ClosedComment w) :
    resume read .idle text =
      some (.error (.openComment (Place.ofEnd read) (Place.ofLast (read ++ text))
        (commentDepth 0 text))) := by
  obtain ⟨v, rfl⟩ := hstart
  have still : ∀ x, x <+: v → commentDepth 1 x ≠ 0 := by
    intro x hx hx0
    exact h ('#' :: '|' :: x) (by simpa using hx) ⟨by simp, by simpa using hx0⟩
  have run := resume_comment read v
  rw [resume_inComment_open still] at run
  simpa using run

/-! ## Any lexeme -/

/-- A lexeme at the start of what remains is the next one that the lexer gives out. -/
theorem resume_splits {shape : Shape} {read w rest : List Char}
    (h : Splits (w ++ rest) shape w) :
    resume read .idle (w ++ rest) =
      (resume (read ++ w) .idle rest).behind [⟨shape, Place.ofEnd read, byteLength w⟩] := by
  cases shape with
  | blank => exact resume_splits_blank h
  | word => exact resume_splits_word h
  | quoted q => exact resume_splits_quoted h
  | opener b =>
    cases h
    exact resume_taken (start_opener _ _ b)
  | closer b =>
    cases h
    exact resume_taken (start_closer _ _ b)
  | lineComment => exact resume_splits_lineComment h
  | blockComment => exact resume_splits_blockComment h

/-- Where no lexeme can be split off, the lexer comes to the flaw that says why. -/
theorem resume_stuck {read text : List Char} {flaw : Flaw}
    (h : Stuck (Place.ofLast (read ++ text)) (Place.ofEnd read) text flaw) :
    resume read .idle text = some (.error flaw) := by
  cases h with
  | strayCommentEnd hstart =>
    obtain ⟨rest, rfl⟩ := hstart
    rw [List.cons_append, resume_cons]
    rfl
  | openString q hstart h => exact resume_openString hstart h
  | openComment hstart h => exact resume_openComment hstart h

end Lexer

end Bracketry
