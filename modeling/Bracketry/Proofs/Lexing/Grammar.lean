import Bracketry.Fault
import Bracketry.Lexeme
import Bracketry.Text.Blank
import Mathlib.Data.Nat.Find

/-!
# The grammar of lexemes

What a text is made of, said of whole lexemes and not of characters one after the other. A lexeme
is a start of the text that remains (`Lexeme.Splits`): the longest one of its kind for blank space
and words, and the shortest one that is complete for strings and comments. Where no lexeme can be
split off, the text is stuck (`Lexeme.Stuck`). Reading is splitting as long as it goes
(`Lexeme.Reads`).

Nothing here knows of states, of a character of lookahead or of a character looked back on. That
every text has a reading is shown here (`Lexeme.exists_reads`); that the lexer finds it is shown in
`Bracketry.Proofs.Lexing.Agreement`, and then there is only one.
-/

namespace Bracketry

open Text

/-! ## Longest and shortest starts -/

namespace Text

/-- A start of a text with a property, and no longer start has it. -/
structure Longest (P : List Char → Prop) (text start : List Char) : Prop where
  isStart : start <+: text
  holds : P start
  length_le : ∀ s, s <+: text → P s → s.length ≤ start.length

/-- A start of a text with a property, and no shorter start has it. -/
structure Shortest (P : List Char → Prop) (text start : List Char) : Prop where
  isStart : start <+: text
  holds : P start
  le_length : ∀ s, s <+: text → P s → start.length ≤ s.length

theorem exists_longest {P : List Char → Prop} {text start : List Char} (h : start <+: text)
    (hP : P start) : ∃ s, Longest P text s := by
  classical
  let lengths (n : Nat) : Prop := P (text.take n)
  have of_start {s : List Char} (hs : s <+: text) (hPs : P s) : lengths s.length := by
    rw [List.prefix_iff_eq_take.mp hs] at hPs
    exact hPs
  let n := Nat.findGreatest lengths text.length
  have hn : n ≤ text.length := Nat.findGreatest_le _
  refine ⟨text.take n, List.take_prefix _ _,
    Nat.findGreatest_spec h.length_le (of_start h hP), fun s hs hPs => ?_⟩
  rw [List.length_take_of_le hn]
  exact Nat.le_findGreatest hs.length_le (of_start hs hPs)

theorem exists_shortest {P : List Char → Prop} {text start : List Char} (h : start <+: text)
    (hP : P start) : ∃ s, Shortest P text s := by
  classical
  have some_length : ∃ n, ∃ s, s <+: text ∧ P s ∧ s.length = n := ⟨_, start, h, hP, rfl⟩
  obtain ⟨s, hs, hPs, hlen⟩ := Nat.find_spec some_length
  exact ⟨s, hs, hPs, fun t ht hPt => hlen ▸ Nat.find_min' some_length ⟨t, ht, hPt, rfl⟩⟩

theorem Longest.not_concat {P : List Char → Prop} {start rest : List Char} {c : Char}
    (h : Longest P (start ++ c :: rest) start) : ¬ P (start ++ [c]) := by
  intro hP
  have longer := h.length_le (start ++ [c]) ⟨rest, by simp⟩ hP
  rw [List.length_append, List.length_singleton] at longer
  omega

/-- What is shorter than a shortest start does not have its property. -/
theorem Shortest.not_of_length_lt {P : List Char → Prop} {text start s : List Char}
    (h : Shortest P text start) (hs : s <+: text) (hlt : s.length < start.length) : ¬ P s :=
  fun hP => Nat.not_lt.mpr (h.le_length s hs hP) hlt

/-- A shortest start depends on nothing behind it. -/
theorem shortest_append_iff {P : List Char → Prop} {w rest : List Char} :
    Shortest P (w ++ rest) w ↔ Shortest P w w := by
  constructor
  · intro h
    exact ⟨List.prefix_refl w, h.holds, fun s hs => h.le_length s (hs.trans ⟨rest, rfl⟩)⟩
  · intro h
    refine ⟨List.prefix_append w rest, h.holds, fun s hs hP => ?_⟩
    by_contra shorter
    have within : s <+: w :=
      List.prefix_of_prefix_length_le hs (List.prefix_append w rest) (by omega)
    exact shorter (h.le_length s within hP)

end Text

/-! ## Lexemes -/

namespace Lexeme

/-- Whether a character in front of a text begins `#|` or `|#`. -/
def BeginsMark (c : Char) (rest : List Char) : Prop :=
  (c = '#' ∧ rest.head? = some '|') ∨ (c = '|' ∧ rest.head? = some '#')

/-- Whether a text starts with something that ends a word: blank space, a line comment, a quote, a
bracket, or the first character of `#|` or `|#`. -/
def EndsWord : List Char → Prop
  | [] => False
  | c :: rest =>
    isBlank c = true ∨ c = ';' ∨ (∃ q : Quote, c = q.mark) ∨ (∃ b : Bracket, c = b.opener) ∨
      (∃ b : Bracket, c = b.closer) ∨ BeginsMark c rest

/-- How many block comments are open behind a text that starts inside `depth` of them. Marks are
read from left to right and do not overlap. -/
def commentDepth (depth : Nat) : List Char → Nat
  | '#' :: '|' :: rest => commentDepth (depth + 1) rest
  | '|' :: '#' :: rest => commentDepth (depth - 1) rest
  | _ :: rest => commentDepth depth rest
  | [] => depth

@[simp] theorem commentDepth_nil (depth : Nat) : commentDepth depth [] = depth := by
  rw [commentDepth]

@[simp] theorem commentDepth_opens (depth : Nat) (rest : List Char) :
    commentDepth depth ('#' :: '|' :: rest) = commentDepth (depth + 1) rest := by
  rw [commentDepth]

@[simp] theorem commentDepth_closes (depth : Nat) (rest : List Char) :
    commentDepth depth ('|' :: '#' :: rest) = commentDepth (depth - 1) rest := by
  rw [commentDepth]

/-- What begins a mark in front of a start of a text begins it in front of the whole. -/
theorem BeginsMark.mono {c : Char} {v w : List Char} (hv : v <+: w) (h : BeginsMark c v) :
    BeginsMark c w := by
  simp only [BeginsMark, ← List.singleton_prefix_iff_head?_eq_some] at h ⊢
  exact h.imp (And.imp_right (·.trans hv)) (And.imp_right (·.trans hv))

theorem not_beginsMark {c : Char} {rest : List Char}
    (hopens : ∀ t, c = '#' → rest = '|' :: t → False)
    (hcloses : ∀ t, c = '|' → rest = '#' :: t → False) : ¬ BeginsMark c rest := by
  rintro (⟨hc, hnext⟩ | ⟨hc, hnext⟩)
  · obtain ⟨t, ht⟩ := List.head?_eq_some_iff.mp hnext
    exact hopens t hc ht
  · obtain ⟨t, ht⟩ := List.head?_eq_some_iff.mp hnext
    exact hcloses t hc ht

/-- A character that begins neither mark leaves the depth alone. -/
theorem commentDepth_cons {c : Char} {rest : List Char} (depth : Nat)
    (h : ¬ BeginsMark c rest) : commentDepth depth (c :: rest) = commentDepth depth rest := by
  rw [commentDepth]
  · rintro t rfl rfl
    exact h (.inl ⟨rfl, rfl⟩)
  · rintro t rfl rfl
    exact h (.inr ⟨rfl, rfl⟩)

/-- A text that starts with `#|` and closes all that it opens. -/
def ClosedComment (text : List Char) : Prop := ['#', '|'] <+: text ∧ commentDepth 0 text = 0

/-- A text of two characters or more that ends in a quote, with no backslash right before it. -/
def ClosedString (q : Quote) (text : List Char) : Prop :=
  2 ≤ text.length ∧ text.getLast? = some q.mark ∧ text.dropLast.getLast? ≠ some '\\'

/-- The lexeme at the start of a text: its shape and its characters. -/
inductive Splits (text : List Char) : Shape → List Char → Prop
  | opener (b : Bracket) (h : [b.opener] <+: text) : Splits text (.opener b) [b.opener]
  | closer (b : Bracket) (h : [b.closer] <+: text) : Splits text (.closer b) [b.closer]
  | blank {w : List Char} (hne : w ≠ []) (h : Longest (∀ c ∈ ·, isBlank c = true) text w) :
    Splits text .blank w
  /-- A line comment takes the line feed that ends it. -/
  | lineComment {w : List Char} (hstart : [';'] <+: text)
    (h : Shortest (·.getLast? = some '\n') text w) : Splits text .lineComment w
  /-- A line comment on the last line takes all that remains. -/
  | lastLineComment (hstart : [';'] <+: text) (h : '\n' ∉ text) : Splits text .lineComment text
  | blockComment {w : List Char} (h : Shortest ClosedComment text w) : Splits text .blockComment w
  | quoted (q : Quote) {w : List Char} (hstart : [q.mark] <+: text)
    (h : Shortest (ClosedString q) text w) : Splits text (.quoted q) w
  /-- A word is any other first character and the longest run behind it that nothing ends. -/
  | word {c : Char} {rest w : List Char} (htext : text = c :: rest) (hc : ¬ EndsWord text)
    (h : Longest (fun v => ∀ i < v.length, ¬ EndsWord (rest.drop i)) rest w) :
    Splits text .word (c :: w)

/-- No lexeme can be split off a text that starts at `place`, and why. The last character of the
whole text stands at `last`. -/
inductive Stuck (last place : Place) (text : List Char) : Flaw → Prop
  | strayCommentEnd (h : ['|', '#'] <+: text) : Stuck last place text (.strayCommentEnd place)
  | openString (q : Quote) (hstart : [q.mark] <+: text)
    (h : ∀ w, w <+: text → ¬ ClosedString q w) : Stuck last place text (.openString place last q)
  | openComment (hstart : ['#', '|'] <+: text) (h : ∀ w, w <+: text → ¬ ClosedComment w) :
    Stuck last place text (.openComment place last (commentDepth 0 text))

/-- The reading of a text that starts at a place: its lexemes, split off one after the other until
nothing remains, or the flaw where it is stuck. -/
inductive Reads (last : Place) : Place → List Char → Except Flaw (List Lexeme) → Prop
  | done (place : Place) : Reads last place [] (.ok [])
  | split {place : Place} {shape : Shape} {w rest : List Char}
    {result : Except Flaw (List Lexeme)} (h : Splits (w ++ rest) shape w)
    (hrest : Reads last (place.after w) rest result) :
    Reads last place (w ++ rest) (result.map (⟨shape, place, byteLength w⟩ :: ·))
  | stuck {place : Place} {text : List Char} {flaw : Flaw} (h : Stuck last place text flaw) :
    Reads last place text (.error flaw)

/-! ## Where blanks and words end -/

section ends

variable {w rest : List Char}

/-- A blank is blank throughout and goes as far as the text is. -/
theorem splits_blank_iff : Splits (w ++ rest) .blank w ↔
    w ≠ [] ∧ (∀ c ∈ w, isBlank c = true) ∧ ∀ c ∈ rest.head?, isBlank c = false := by
  constructor
  · intro h
    cases h with
    | blank hne h =>
      refine ⟨hne, h.holds, fun c hc => ?_⟩
      obtain ⟨more, rfl⟩ := List.head?_eq_some_iff.mp hc
      by_contra hblank
      refine h.not_concat fun d hd => ?_
      rcases List.mem_append.mp hd with hd | hd
      · exact h.holds d hd
      · rw [List.mem_singleton.mp hd]
        exact eq_true_of_ne_false hblank
  · rintro ⟨hne, blank, next⟩
    refine .blank hne ⟨List.prefix_append w rest, blank, fun s hs hblank => ?_⟩
    by_contra longer
    -- the character right behind `w` is blank, being in `s`
    obtain ⟨u, rfl⟩ : w <+: s :=
      List.prefix_of_prefix_length_le (List.prefix_append w rest) hs (by omega)
    obtain ⟨c, u, rfl⟩ := List.exists_cons_of_ne_nil (l := u) (by rintro rfl; simp at longer)
    have behind : c :: u <+: rest := (List.prefix_append_right_inj w).mp hs
    obtain ⟨more, rfl⟩ := behind
    have := next c rfl
    rw [hblank c (by simp)] at this
    cases this

/-- A word goes on to the first place where something ends it, or to the end of the text. -/
theorem splits_word_iff : Splits (w ++ rest) .word w ↔
    w ≠ [] ∧ (∀ i < w.length, ¬ EndsWord ((w ++ rest).drop i)) ∧ (rest ≠ [] → EndsWord rest) := by
  constructor
  · intro h
    obtain ⟨c, v, tail, rfl, htext, hc, h⟩ : ∃ c v tail, w = c :: v ∧ w ++ rest = c :: tail ∧
        ¬ EndsWord (w ++ rest) ∧
        Longest (fun v => ∀ i < v.length, ¬ EndsWord (tail.drop i)) tail v := by
      cases h with
      | word htext hc h => exact ⟨_, _, _, rfl, htext, hc, h⟩
    obtain rfl : v ++ rest = tail := (List.cons.inj htext).2
    refine ⟨List.cons_ne_nil c v, fun i hi => ?_, fun hne => ?_⟩
    · cases i with
      | zero => exact hc
      | succ i => exact h.holds i (by simpa using hi)
    · obtain ⟨d, more, rfl⟩ := List.exists_cons_of_ne_nil hne
      by_contra hends
      refine h.not_concat fun i hi => ?_
      rcases Nat.lt_succ_iff_lt_or_eq.mp (by simpa using hi) with hi | rfl
      · exact h.holds i hi
      · rwa [List.drop_left]
  · rintro ⟨hne, holds, ends⟩
    obtain ⟨c, v, rfl⟩ := List.exists_cons_of_ne_nil hne
    have still : ∀ i < v.length, ¬ EndsWord ((v ++ rest).drop i) := fun i hi =>
      holds (i + 1) (by simpa using hi)
    have htext : c :: v ++ rest = c :: (v ++ rest) := rfl
    refine .word htext (holds 0 (by simp))
      ⟨List.prefix_append v rest, still, fun s hs hholds => ?_⟩
    by_contra longer
    have here := hholds v.length (by omega)
    rw [List.drop_left] at here
    refine here (ends ?_)
    rintro rfl
    have := hs.length_le
    rw [List.append_nil] at this
    omega

end ends

/-! ## Every text has a reading -/

theorem Splits.isStart {text w : List Char} {shape : Shape} (h : Splits text shape w) :
    w <+: text := by
  cases h with
  | opener b h => exact h
  | closer b h => exact h
  | blank _ h => exact h.isStart
  | lineComment _ h => exact h.isStart
  | lastLineComment _ _ => exact List.prefix_refl _
  | blockComment h => exact h.isStart
  | quoted _ _ h => exact h.isStart
  | word htext _ h => exact htext ▸ List.cons_prefix_cons.mpr ⟨rfl, h.isStart⟩

/-- A lexeme has a character at least, so that splitting comes to an end. -/
theorem Splits.ne_nil {text w : List Char} {shape : Shape} (h : Splits text shape w) :
    w ≠ [] := by
  cases h with
  | opener | closer | word => exact List.cons_ne_nil _ _
  | blank hne _ => exact hne
  | lineComment _ h => rintro rfl; simpa using h.holds
  | lastLineComment hstart _ => rintro rfl; simp at hstart
  | blockComment h => rintro rfl; simpa using h.holds.1
  | quoted _ _ h => rintro rfl; simpa using h.holds.1

theorem pair_isStart {c d : Char} {rest : List Char} (h : rest.head? = some d) :
    [c, d] <+: c :: rest :=
  List.cons_prefix_cons.mpr ⟨rfl, List.singleton_prefix_iff_head?_eq_some.mpr h⟩

theorem exists_splits_blank {c : Char} (h : isBlank c = true) (rest : List Char) :
    ∃ w, Splits (c :: rest) .blank w := by
  have start : [c] <+: c :: rest := ⟨rest, rfl⟩
  have blank : ∀ x ∈ [c], isBlank x = true := by simpa using h
  obtain ⟨w, hw⟩ := exists_longest (P := (∀ x ∈ ·, isBlank x = true)) start blank
  refine ⟨w, .blank ?_ hw⟩
  rintro rfl
  exact absurd (hw.length_le [c] start blank) (by simp)

theorem exists_splits_lineComment (rest : List Char) :
    ∃ w, Splits (';' :: rest) .lineComment w := by
  have start : [';'] <+: ';' :: rest := ⟨rest, rfl⟩
  by_cases hfeed : '\n' ∈ ';' :: rest
  · obtain ⟨s, t, hst⟩ := List.append_of_mem hfeed
    have upto : s ++ ['\n'] <+: ';' :: rest := ⟨t, by simp [hst]⟩
    obtain ⟨w, hw⟩ := exists_shortest (P := (·.getLast? = some '\n')) upto List.getLast?_concat
    exact ⟨w, .lineComment start hw⟩
  · exact ⟨_, .lastLineComment start hfeed⟩

theorem exists_splits_word {text : List Char} (hne : text ≠ []) (h : ¬ EndsWord text) :
    ∃ w, Splits text .word w := by
  obtain ⟨c, rest, rfl⟩ := List.exists_cons_of_ne_nil hne
  obtain ⟨w, hw⟩ := exists_longest (P := fun v => ∀ i < v.length, ¬ EndsWord (rest.drop i))
    List.nil_prefix (by simp)
  exact ⟨_, .word rfl h hw⟩

theorem splits_or_stuck_quoted (last place : Place) (q : Quote) (rest : List Char) :
    (∃ w, Splits (q.mark :: rest) (.quoted q) w) ∨
      ∃ flaw, Stuck last place (q.mark :: rest) flaw := by
  have start : [q.mark] <+: q.mark :: rest := ⟨rest, rfl⟩
  by_cases hclosed : ∃ w, w <+: q.mark :: rest ∧ ClosedString q w
  · obtain ⟨v, hv, hclosed⟩ := hclosed
    obtain ⟨w, hw⟩ := exists_shortest hv hclosed
    exact .inl ⟨w, .quoted q start hw⟩
  · exact .inr ⟨_, .openString q start fun w hw h => hclosed ⟨w, hw, h⟩⟩

theorem splits_or_stuck_blockComment (last place : Place) {rest : List Char}
    (h : rest.head? = some '|') :
    (∃ w, Splits ('#' :: rest) .blockComment w) ∨
      ∃ flaw, Stuck last place ('#' :: rest) flaw := by
  by_cases hclosed : ∃ w, w <+: '#' :: rest ∧ ClosedComment w
  · obtain ⟨v, hv, hclosed⟩ := hclosed
    obtain ⟨w, hw⟩ := exists_shortest hv hclosed
    exact .inl ⟨w, .blockComment hw⟩
  · exact .inr ⟨_, .openComment (pair_isStart h) fun w hw h => hclosed ⟨w, hw, h⟩⟩

/-- Where something remains, it has a lexeme at its start or is stuck. -/
theorem exists_splits_or_stuck (last place : Place) {text : List Char} (hne : text ≠ []) :
    (∃ shape w, Splits text shape w) ∨ ∃ flaw, Stuck last place text flaw := by
  by_cases hends : EndsWord text
  · obtain ⟨c, rest, rfl⟩ := List.exists_cons_of_ne_nil hne
    have start : [c] <+: c :: rest := ⟨rest, rfl⟩
    rcases hends with hblank | rfl | ⟨q, rfl⟩ | ⟨b, rfl⟩ | ⟨b, rfl⟩ | ⟨rfl, hnext⟩ | ⟨rfl, hnext⟩
    · exact .inl ⟨_, exists_splits_blank hblank rest⟩
    · exact .inl ⟨_, exists_splits_lineComment rest⟩
    · exact (splits_or_stuck_quoted last place q rest).imp_left fun h => ⟨_, h⟩
    · exact .inl ⟨_, _, .opener b start⟩
    · exact .inl ⟨_, _, .closer b start⟩
    · exact (splits_or_stuck_blockComment last place hnext).imp_left fun h => ⟨_, h⟩
    · exact .inr ⟨_, .strayCommentEnd (pair_isStart hnext)⟩
  · exact .inl ⟨_, exists_splits_word hne hends⟩

/-- Every text has a reading, to its end or to where it is stuck. -/
theorem exists_reads (last place : Place) (text : List Char) :
    ∃ result, Reads last place text result := by
  induction hn : text.length using Nat.strongRecOn generalizing place text with
  | ind n ih =>
    by_cases hne : text = []
    · subst hne
      exact ⟨_, .done place⟩
    rcases exists_splits_or_stuck last place hne with ⟨shape, w, h⟩ | ⟨flaw, h⟩
    · obtain ⟨rest, rfl⟩ := h.isStart
      have shorter : rest.length < n := by
        have := List.length_pos_iff.mpr h.ne_nil
        rw [← hn, List.length_append]
        omega
      obtain ⟨result, hrest⟩ := ih _ shorter (place.after w) rest rfl
      exact ⟨_, .split h hrest⟩
    · exact ⟨_, .stuck h⟩

end Lexeme

end Bracketry
