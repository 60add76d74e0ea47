import Bracketry.Proofs.Lexing.Joining

/-!
# Texts that go on

What is read of a text when more is written behind it. A lexeme that has something behind it stays
what it is (`Lexeme.Splits.append_of_ne_nil`), so of the lexemes that are split off in front of a
text (`Lexeme.Leads`) all stay as soon as that text is not empty (`Lexeme.Leads.append`).

Two ends of a text need a closer look. Where the text is stuck, the lexemes before that point are
settled, and only the text from there on has to be read anew (`Lexeme.Reads.exists_stuck`). Where
the text is read to its end, the last lexeme may still go on, but only if it is a blank, a word or a
line comment (`Lexeme.OpenEnd`); brackets never move (`Lexeme.Reads.exists_openEnd`).

The sections at the end write behind a text what its flaw says is missing: the ends of block
comments, a quote, and closers on a line of their own.
-/

namespace Bracketry

open Text

namespace Lexeme

variable {last last' place : Place} {text u v w rest more : List Char} {shape : Shape}

/-! ## Lexemes with something behind them -/

theorem EndsWord.append (h : EndsWord text) (more : List Char) : EndsWord (text ++ more) := by
  cases text with
  | nil => exact h.elim
  | cons c text => exact endsWord_append_iff.mpr (.inl h)

/-- Of what follows it, a lexeme depends on no more than the first character and on whether a word
would end there. -/
theorem Splits.congr_rest {rest' : List Char} (h : Splits (w ++ rest) shape w)
    (next : rest'.head? = rest.head?) (ends : EndsWord rest → EndsWord rest') :
    Splits (w ++ rest') shape w := by
  have start {c : Char} (hc : [c] <+: w ++ rest) : [c] <+: w ++ rest' :=
    (List.prefix_of_prefix_length_le hc (List.prefix_append w rest)
      (List.length_pos_iff.mpr h.ne_nil)).trans (List.prefix_append w rest')
  cases shape with
  | opener b => cases h; exact .opener b ⟨_, rfl⟩
  | closer b => cases h; exact .closer b ⟨_, rfl⟩
  | blank =>
    obtain ⟨hw, blank, notBlank⟩ := splits_blank_iff.mp h
    exact splits_blank_iff.mpr ⟨hw, blank, by rwa [next]⟩
  | word =>
    obtain ⟨hw, still, behind⟩ := splits_word_iff.mp h
    refine splits_word_iff.mpr ⟨hw, fun i hi => ?_, fun hne => ends (behind ?_)⟩
    · have here := still i hi
      rw [List.drop_append_of_le_length (by omega)] at here ⊢
      obtain ⟨c, x, hx⟩ := List.exists_cons_of_ne_nil (l := w.drop i) (by simpa using hi)
      rw [hx, endsWord_append_iff] at here ⊢
      rwa [BeginsMark, next]
    · rintro rfl
      exact hne (List.head?_eq_none_iff.mp next)
  | quoted q =>
    cases h with
    | quoted _ hstart h =>
      exact .quoted q (start hstart) (shortest_append_iff.mpr (shortest_append_iff.mp h))
  | blockComment =>
    cases h with
    | blockComment h => exact .blockComment (shortest_append_iff.mpr (shortest_append_iff.mp h))
  | lineComment =>
    generalize htext : w ++ rest = text at h
    cases h with
    | lineComment hstart h =>
      rw [← htext] at hstart h
      exact .lineComment (start hstart) (shortest_append_iff.mpr (shortest_append_iff.mp h))
    | lastLineComment hstart h =>
      -- nothing follows, before and after
      obtain rfl := List.append_right_eq_self.mp htext
      obtain rfl := List.head?_eq_none_iff.mp next
      rw [List.append_nil]
      exact .lastLineComment hstart h

/-- A lexeme with something behind it stays what it is when the text goes on: one character of
lookahead is all that it depends on. -/
theorem Splits.append_of_ne_nil (h : Splits (w ++ rest) shape w) (hne : rest ≠ [])
    (more : List Char) : Splits (w ++ (rest ++ more)) shape w :=
  h.congr_rest (List.head?_append_of_ne_nil _ hne) (·.append more)

/-! ## Lexemes in front of a text -/

/-- The lexemes of a text that stands in front of `rest`, split off one after the other from a place
on. -/
inductive Leads (rest : List Char) : Place → List Char → List Lexeme → Prop
  | nil (place : Place) : Leads rest place [] []
  | cons {place : Place} {shape : Shape} {w u : List Char} {done : List Lexeme}
    (h : Splits (w ++ (u ++ rest)) shape w) (hu : Leads rest (place.after w) u done) :
    Leads rest place (w ++ u) (⟨shape, place, byteLength w⟩ :: done)

namespace Leads

variable {done : List Lexeme}

/-- What stands in front of a text that is not empty is read the same when that text goes on. -/
theorem append (h : Leads rest place u done) (hne : rest ≠ []) (more : List Char) :
    Leads (rest ++ more) place u done := by
  induction h with
  | nil place => exact .nil place
  | @cons place shape w u done h _ ih =>
    refine .cons ?_ ih
    have behind : u ++ rest ≠ [] := by simp [hne]
    rw [← List.append_assoc u]
    exact h.append_of_ne_nil behind more

theorem eq_nil (h : Leads rest place [] done) : done = [] := by
  generalize hu : ([] : List Char) = u at h
  cases h with
  | nil => rfl
  | cons h _ => exact absurd (List.append_eq_nil_iff.mp hu.symm).1 h.ne_nil

/-- Reading goes on behind what was split off. -/
theorem reads (h : Leads rest place u done) {result : Except Flaw (List Lexeme)}
    (hrest : Reads last (place.after u) rest result) :
    Reads last place (u ++ rest) (result.map (done ++ ·)) := by
  induction h with
  | nil place =>
    have same : result.map ([] ++ ·) = result := by cases result <;> rfl
    rwa [same]
  | @cons place shape w u done h _ ih =>
    rw [Place.after_append] at hrest
    have behind := Reads.split h (ih hrest)
    have same : (result.map (done ++ ·)).map (⟨shape, place, byteLength w⟩ :: ·) =
        result.map (⟨shape, place, byteLength w⟩ :: done ++ ·) := by
      cases result <;> rfl
    rwa [same, ← List.append_assoc] at behind

end Leads

/-- A lexeme on its own is read as itself. -/
theorem Splits.reads_alone (h : Splits w shape w) (last place : Place) :
    Reads last place w (.ok [⟨shape, place, byteLength w⟩]) := by
  have alone : Splits (w ++ []) shape w := by rwa [List.append_nil]
  have ends : Reads last (place.after w) [] (.ok []) := .done _
  have reads := Reads.split alone ends
  rwa [List.append_nil] at reads

/-! ## Where a text is stuck -/

theorem Stuck.ne_nil {flaw : Flaw} (h : Stuck last place text flaw) : text ≠ [] := by
  cases h with
  | strayCommentEnd hstart => rintro rfl; simp at hstart
  | openString q hstart _ => rintro rfl; simp at hstart
  | openComment hstart _ => rintro rfl; simp at hstart

/-- A text that is refused is stuck behind lexemes that stay as they are however it goes on. -/
theorem Reads.exists_stuck {result : Except Flaw (List Lexeme)}
    (h : Reads last place text result) {flaw : Flaw} (hresult : result = .error flaw) :
    ∃ u v done, text = u ++ v ∧ Stuck last (place.after u) v flaw ∧
      ∀ more, Leads (v ++ more) place u done := by
  suffices split : ∃ u v done, text = u ++ v ∧ Stuck last (place.after u) v flaw ∧
      Leads v place u done by
    obtain ⟨u, v, done, rfl, hstuck, hleads⟩ := split
    exact ⟨u, v, done, rfl, hstuck, hleads.append hstuck.ne_nil⟩
  induction h with
  | done place => cases hresult
  | @split place shape w rest result h _ ih =>
    cases result with
    | ok lexemes => cases hresult
    | error flaw' =>
      cases hresult
      obtain ⟨u, v, done, rfl, hstuck, hleads⟩ := ih rfl
      refine ⟨w ++ u, v, ⟨shape, place, byteLength w⟩ :: done, (List.append_assoc w u v).symm, ?_,
        .cons h hleads⟩
      rwa [Place.after_append]
  | @stuck place text flaw' h =>
    cases hresult
    exact ⟨[], text, [], rfl, h, .nil place⟩

/-! ## Where a text ends -/

/-- The end of a text that may still go on: a blank, a word, or a line comment without its line
feed. An empty end goes on as a lexeme of its own. -/
inductive OpenEnd : List Char → Prop
  | nil : OpenEnd []
  | blank {w : List Char} (h : Splits w .blank w) : OpenEnd w
  | word {w : List Char} (h : Splits w .word w) : OpenEnd w
  | lineComment {w : List Char} (hstart : [';'] <+: w) (h : '\n' ∉ w) : OpenEnd w

/-- A lexeme at the end of a text is settled, or may go on and is no bracket. -/
theorem Splits.settled_or_openEnd (h : Splits w shape w) :
    (∀ more, Splits (w ++ more) shape w) ∨ (OpenEnd w ∧ shape.kind.isDelimiter = false) := by
  cases shape with
  | opener b => cases h; exact .inl fun _ => .opener b ⟨_, rfl⟩
  | closer b => cases h; exact .inl fun _ => .closer b ⟨_, rfl⟩
  | blank => exact .inr ⟨.blank h, rfl⟩
  | word => exact .inr ⟨.word h, rfl⟩
  | quoted q =>
    cases h with
    | quoted _ hstart h =>
      exact .inl fun more =>
        .quoted q (hstart.trans (List.prefix_append _ more)) (shortest_append_iff.mpr h)
  | blockComment =>
    cases h with
    | blockComment h => exact .inl fun _ => .blockComment (shortest_append_iff.mpr h)
  | lineComment =>
    cases h with
    | lineComment hstart h =>
      exact .inl fun more =>
        .lineComment (hstart.trans (List.prefix_append _ more)) (shortest_append_iff.mpr h)
    | lastLineComment hstart h => exact .inr ⟨.lineComment hstart h, rfl⟩

/-- However a text goes on, it is read in the same way up to an end that may go on with it, and in
that end are no brackets. -/
theorem Reads.exists_openEnd {result : Except Flaw (List Lexeme)}
    (h : Reads last place text result) {lexemes : List Lexeme} (hresult : result = .ok lexemes) :
    ∃ u w done tail, text = u ++ w ∧ OpenEnd w ∧ (∀ more, Leads (w ++ more) place u done) ∧
      lexemes = done ++ tail ∧ ∀ l ∈ tail, l.shape.kind.isDelimiter = false := by
  induction h generalizing lexemes with
  | done place =>
    cases hresult
    exact ⟨[], [], [], [], rfl, .nil, fun more => .nil place, rfl, by simp⟩
  | @split place shape w rest result h hrest ih =>
    cases result with
    | error flaw => cases hresult
    | ok more =>
      cases hresult
      obtain ⟨u, x, done, tail, rfl, hx, hleads, rfl, plain⟩ := ih rfl
      by_cases hne : u ++ x = []
      · -- the lexeme is the last of the text
        obtain ⟨rfl, rfl⟩ := List.append_eq_nil_iff.mp hne
        rw [hne, List.append_nil] at h
        obtain rfl := (hleads []).eq_nil
        rcases h.settled_or_openEnd with settled | ⟨openEnd, notDelimiter⟩
        · refine ⟨w, [], [⟨shape, place, byteLength w⟩], tail, rfl, .nil, fun more => ?_, rfl,
            plain⟩
          have alone : Leads ([] ++ more) place (w ++ []) [⟨shape, place, byteLength w⟩] :=
            .cons (settled more) (.nil _)
          rwa [List.append_nil] at alone
        · refine ⟨[], w, [], ⟨shape, place, byteLength w⟩ :: tail, by simp, openEnd,
            fun more => .nil place, rfl, ?_⟩
          intro l hl
          rcases List.mem_cons.mp hl with rfl | hl
          · exact notDelimiter
          · exact plain l hl
      · refine ⟨w ++ u, x, _, tail, (List.append_assoc w u x).symm, hx,
          fun more => .cons ?_ (hleads more), rfl, plain⟩
        rw [← List.append_assoc u]
        exact h.append_of_ne_nil hne more
  | stuck h => cases hresult

/-! ## Missing ends of comments -/

/-- A start of a text with a space in it ends before the space or goes on behind it. -/
theorem prefix_or_of_prefix_space {x t : List Char} (h : x <+: v ++ ' ' :: t) :
    x <+: v ∨ ∃ y, y <+: t ∧ x = v ++ ' ' :: y := by
  rcases List.prefix_or_prefix_of_prefix h (List.prefix_append v _) with hx | ⟨z, rfl⟩
  · exact .inl hx
  · cases z with
    | nil => exact .inl (by simp)
    | cons c y =>
      obtain ⟨rfl, hy⟩ := List.cons_prefix_cons.mp ((List.prefix_append_right_inj v).mp h)
      exact .inr ⟨y, hy, rfl⟩

/-- No mark reaches over a space, so the depth behind it starts from the depth before it. -/
theorem commentDepth_append_space (depth : Nat) (v t : List Char) :
    commentDepth depth (v ++ ' ' :: t) = commentDepth (commentDepth depth v) t := by
  fun_induction commentDepth depth v with
  | case1 depth v ih => simpa using ih
  | case2 depth v ih => simpa using ih
  | case3 depth c v hopens hcloses ih =>
    have plain := not_beginsMark hopens hcloses
    have still : ¬ BeginsMark c (v ++ ' ' :: t) := by
      cases v with
      | nil => simp [BeginsMark]
      | cons d v => exact plain
    rw [List.cons_append, commentDepth_cons _ still, ih]
  | case4 depth =>
    have plain : ¬ BeginsMark ' ' t := by simp [BeginsMark]
    rw [List.nil_append, commentDepth_cons _ plain]

/-- So many ends of comments. -/
def commentEnds : Nat → List Char
  | 0 => []
  | k + 1 => '|' :: '#' :: commentEnds k

@[simp] theorem length_commentEnds (k : Nat) : (commentEnds k).length = 2 * k := by
  induction k with
  | zero => rfl
  | succ k ih => simp [commentEnds, ih]; omega

theorem commentEnds_add (j k : Nat) : commentEnds (j + k) = commentEnds j ++ commentEnds k := by
  induction j with
  | zero => simp [commentEnds]
  | succ j ih => rw [Nat.succ_add, commentEnds, ih, commentEnds]; rfl

/-- Among ends of comments, every second character closes one. -/
theorem commentDepth_of_prefix_commentEnds {k : Nat} {y : List Char} (depth : Nat)
    (h : y <+: commentEnds k) : commentDepth depth y = depth - y.length / 2 := by
  induction k generalizing depth y with
  | zero =>
    obtain rfl := List.prefix_nil.mp h
    simp
  | succ k ih =>
    rcases y with _ | ⟨c, _ | ⟨d, y⟩⟩
    · simp
    · rw [commentDepth_cons _ (by simp [BeginsMark])]
      simp
    · simp only [commentEnds, List.cons_prefix_cons] at h
      obtain ⟨rfl, rfl, h⟩ := h
      rw [commentDepth_closes, ih _ h, List.length_cons, List.length_cons]
      omega

/-- The first end of comment that is too many is where the text is stuck. -/
theorem stuck_commentEnds_succ (k : Nat) :
    Stuck last place (commentEnds (k + 1)) (.strayCommentEnd place) :=
  .strayCommentEnd ⟨commentEnds k, rfl⟩

section comments

variable (hstart : ['#', '|'] <+: v) (h : ∀ x, x <+: v → ¬ ClosedComment x)

include h in
/-- An open comment with a space behind it is closed by what closes its depth. -/
theorem exists_of_closedComment {x t : List Char} (hx : x <+: v ++ ' ' :: t)
    (closed : ClosedComment x) :
    ∃ y, y <+: t ∧ x = v ++ ' ' :: y ∧ commentDepth (commentDepth 0 v) y = 0 := by
  rcases prefix_or_of_prefix_space hx with hx | ⟨y, hy, rfl⟩
  · exact absurd closed (h x hx)
  · exact ⟨y, hy, rfl, by rw [← commentDepth_append_space]; exact closed.2⟩

include hstart h in
/-- Too few ends leave a comment open. -/
theorem stuck_commentEnds {k : Nat} (hk : k < commentDepth 0 v) :
    Stuck last place (v ++ ' ' :: commentEnds k)
      (.openComment place last (commentDepth 0 v - k)) := by
  have depth : commentDepth 0 (v ++ ' ' :: commentEnds k) = commentDepth 0 v - k := by
    rw [commentDepth_append_space,
      commentDepth_of_prefix_commentEnds _ (List.prefix_refl (commentEnds k)),
      length_commentEnds, Nat.mul_div_cancel_left k Nat.two_pos]
  rw [← depth]
  refine .openComment (hstart.trans (List.prefix_append v _)) fun x hx closed => ?_
  obtain ⟨y, hy, -, zero⟩ := exists_of_closedComment h hx closed
  have short := hy.length_le
  rw [length_commentEnds] at short
  rw [commentDepth_of_prefix_commentEnds _ hy] at zero
  omega

include hstart h in
/-- As many ends as are missing close a comment, and no fewer do. -/
theorem splits_commentEnds (rest : List Char) :
    Splits (v ++ ' ' :: commentEnds (commentDepth 0 v) ++ rest) .blockComment
      (v ++ ' ' :: commentEnds (commentDepth 0 v)) := by
  refine .blockComment (shortest_append_iff.mpr ⟨List.prefix_refl _, ⟨?_, ?_⟩, ?_⟩)
  · exact hstart.trans (List.prefix_append v _)
  · rw [commentDepth_append_space, commentDepth_of_prefix_commentEnds _ (List.prefix_refl _),
      length_commentEnds]
    omega
  · intro x hx closed
    obtain ⟨y, hy, rfl, zero⟩ := exists_of_closedComment h hx closed
    rw [commentDepth_of_prefix_commentEnds _ hy] at zero
    simp only [List.length_append, List.length_cons, length_commentEnds]
    omega

end comments

/-! ## A missing quote -/

/-- The quote behind a space closes a string. -/
theorem splits_quote {q : Quote} (hstart : [q.mark] <+: v)
    (h : ∀ x, x <+: v → ¬ ClosedString q x) :
    Splits (v ++ [' ', q.mark]) (.quoted q) (v ++ [' ', q.mark]) := by
  refine .quoted q (hstart.trans (List.prefix_append v _)) ⟨List.prefix_refl _, ⟨?_, ?_, ?_⟩, ?_⟩
  · simp
  · simp
  · have last : (v ++ [' ', q.mark]).dropLast = v ++ [' '] := by
      rw [List.dropLast_append_of_ne_nil (by simp)]
      rfl
    rw [last, List.getLast?_concat]
    simp
  · intro x hx closed
    rcases prefix_or_of_prefix_space hx with hx | ⟨y, hy, rfl⟩
    · exact absurd closed (h x hx)
    · cases y with
      | nil =>
        have last := closed.2.1
        rw [List.getLast?_concat, Option.some.injEq] at last
        cases q <;> cases last
      | cons c y => simp

/-! ## Closers on a line of their own -/

/-- A line feed ends a blank, a word or a line comment at the end of a text, if what follows is not
blank, and no bracket comes of it. -/
theorem OpenEnd.leads_lineFeed (h : OpenEnd w) (place : Place)
    (hrest : ∀ c ∈ rest.head?, isBlank c = false) :
    ∃ tail, Leads rest place (w ++ ['\n']) tail ∧
      ∀ l ∈ tail, l.shape.kind.isDelimiter = false := by
  have lineFeed : Splits (['\n'] ++ rest) .blank ['\n'] :=
    splits_blank_iff.mpr ⟨List.cons_ne_nil _ _, List.forall_mem_singleton.mpr rfl, hrest⟩
  have ends : EndsWord (['\n'] ++ rest) := .inl rfl
  have one {place : Place} {shape : Shape} {x : List Char} (hx : Splits (x ++ rest) shape x) :
      Leads rest place x [⟨shape, place, byteLength x⟩] := by
    have alone : Leads rest place (x ++ []) [⟨shape, place, byteLength x⟩] :=
      .cons (by simpa using hx) (.nil _)
    rwa [List.append_nil] at alone
  cases h with
  | nil => exact ⟨_, one lineFeed, by simp [Shape.kind, Token.Kind.isDelimiter]⟩
  | blank h =>
    have alone : Splits (w ++ []) .blank w := by rwa [List.append_nil]
    obtain ⟨-, blank, -⟩ := splits_blank_iff.mp alone
    refine ⟨_, one (splits_blank_iff.mpr ⟨by simp, fun c hc => ?_, hrest⟩),
      by simp [Shape.kind, Token.Kind.isDelimiter]⟩
    rcases List.mem_append.mp hc with hc | hc
    · exact blank c hc
    · rw [List.mem_singleton.mp hc]
      decide
  | word h =>
    have word : Splits (w ++ (['\n'] ++ rest)) .word w :=
      h.word_append_of_alone ends fun c _ => by simp [BeginsMark]
    exact ⟨_, .cons word (one lineFeed), by simp [Shape.kind, Token.Kind.isDelimiter]⟩
  | lineComment hstart h =>
    have comment : Splits (w ++ ['\n'] ++ rest) .lineComment (w ++ ['\n']) := by
      refine .lineComment ?_ (shortest_append_iff.mpr ⟨List.prefix_refl _, by simp, ?_⟩)
      · rw [List.append_assoc]
        exact hstart.trans (List.prefix_append w _)
      · intro x hx hlast
        rcases List.prefix_concat_iff.mp hx with rfl | hx
        · exact Nat.le_refl _
        · exact absurd (hx.subset (List.mem_of_getLast? hlast)) h
    exact ⟨_, one comment, by simp [Shape.kind, Token.Kind.isDelimiter]⟩

/-- Closers are read as themselves. -/
theorem exists_reads_closers (last place : Place) (bs : List Bracket) :
    ∃ closers : List Lexeme, Reads last place (bs.map Bracket.closer) (.ok closers) ∧
      closers.map Lexeme.shape = bs.map Shape.closer := by
  induction bs generalizing place with
  | nil => exact ⟨[], .done place, rfl⟩
  | cons b bs ih =>
    obtain ⟨closers, hreads, hshapes⟩ := ih (place.after [b.closer])
    have first : Splits ([b.closer] ++ bs.map Bracket.closer) (.closer b) [b.closer] :=
      .closer b ⟨_, rfl⟩
    exact ⟨_, .split first hreads, by rw [List.map_cons, hshapes, List.map_cons]⟩

theorem head?_closers {bs : List Bracket} {c : Char} (h : c ∈ (bs.map Bracket.closer).head?) :
    isBlank c = false := by
  cases bs with
  | nil => simp at h
  | cons b bs =>
    obtain rfl : b.closer = c := by simpa using h
    cases b <;> decide

end Lexeme

/-! ## Whole texts -/

open Lexeme

variable {text : List Char} {lexemes : List Lexeme}

/-- A text is read behind lexemes that are split off in front of the rest. -/
theorem lex_of_leads {u rest : List Char} {done : List Lexeme} (h : Leads rest {} u done)
    {result : Except Flaw (List Lexeme)}
    (hrest : Reads (.ofLast (u ++ rest)) (.ofEnd u) rest result) :
    lex (u ++ rest) = result.map (done ++ ·) :=
  lex_eq_iff_reads.mpr (h.reads hrest)

/-- What a text is not read for: an end of comment that closes nothing, or its own end in a string
or in a comment. -/
theorem flaw_of_lex {flaw : Flaw} (h : lex text = .error flaw) :
    (∃ place, flaw = .strayCommentEnd place) ∨ (∃ start last q, flaw = .openString start last q) ∨
      ∃ start last depth, flaw = .openComment start last depth := by
  obtain ⟨u, v, done, rfl, hstuck, -⟩ := (lex_eq_iff_reads.mp h).exists_stuck rfl
  cases hstuck with
  | strayCommentEnd _ => exact .inl ⟨_, rfl⟩
  | openString _ _ _ => exact .inr (.inl ⟨_, _, _, rfl⟩)
  | openComment _ _ => exact .inr (.inr ⟨_, _, _, rfl⟩)

/-- A text that ends inside block comments is mended by as many ends as are missing. Fewer leave it
open, and of more the first that is too many is refused. -/
theorem lex_append_commentEnds {start last : Place} {depth : Nat}
    (h : lex text = .error (.openComment start last depth)) (k : Nat) :
    ((∃ lexemes, lex (text ++ ' ' :: commentEnds k) = .ok lexemes) ↔ k = depth) ∧
    (k < depth → lex (text ++ ' ' :: commentEnds k) =
      .error (.openComment start (.ofLast (text ++ ' ' :: commentEnds k)) (depth - k))) ∧
    (depth < k → lex (text ++ ' ' :: commentEnds k) =
      .error (.strayCommentEnd (.ofEnd (text ++ ' ' :: commentEnds depth)))) := by
  obtain ⟨u, v, done, rfl, hstuck, hleads⟩ := (lex_eq_iff_reads.mp h).exists_stuck rfl
  cases hstuck with
  | openComment hstart hopen =>
    have closed := splits_commentEnds hstart hopen
    simp only [List.append_assoc]
    have few (hk : k < commentDepth 0 v) := lex_of_leads (hleads (' ' :: commentEnds k))
      (.stuck (stuck_commentEnds hstart hopen hk))
    have many (hk : commentDepth 0 v < k) : lex (u ++ (v ++ ' ' :: commentEnds k)) =
        .error (.strayCommentEnd
          (.ofEnd (u ++ (v ++ ' ' :: commentEnds (commentDepth 0 v))))) := by
      obtain ⟨j, rfl⟩ := Nat.exists_eq_add_of_lt hk
      have apart : v ++ ' ' :: commentEnds (commentDepth 0 v + j + 1) =
          v ++ ' ' :: commentEnds (commentDepth 0 v) ++ commentEnds (j + 1) := by
        rw [Nat.add_assoc, commentEnds_add, List.append_assoc, List.cons_append]
      have leads := hleads (' ' :: commentEnds (commentDepth 0 v + j + 1))
      rw [apart] at leads ⊢
      rw [Place.ofEnd_append]
      exact lex_of_leads leads (.split (closed _) (.stuck (stuck_commentEnds_succ j)))
    refine ⟨⟨?_, ?_⟩, few, many⟩
    · rintro ⟨lexemes, read⟩
      rcases Nat.lt_trichotomy k (commentDepth 0 v) with hk | hk | hk
      · rw [few hk] at read
        cases read
      · exact hk
      · rw [many hk] at read
        cases read
    · rintro rfl
      have alone := closed []
      rw [List.append_nil] at alone
      exact ⟨_, lex_of_leads (hleads _) (alone.reads_alone _ _)⟩

/-- A text that ends inside a string is mended by its quote behind a space. -/
theorem exists_lex_append_quote {start last : Place} {q : Quote}
    (h : lex text = .error (.openString start last q)) :
    ∃ lexemes, lex (text ++ [' ', q.mark]) = .ok lexemes := by
  obtain ⟨u, v, done, rfl, hstuck, hleads⟩ := (lex_eq_iff_reads.mp h).exists_stuck rfl
  cases hstuck with
  | openString q hstart hopen =>
    rw [List.append_assoc]
    exact ⟨_, lex_of_leads (hleads _) ((splits_quote hstart hopen).reads_alone _ _)⟩

/-- An end of comment where none is open is refused at the same place whatever follows. -/
theorem lex_append_of_strayCommentEnd {place : Place}
    (h : lex text = .error (.strayCommentEnd place)) (more : List Char) : lex (text ++ more) = .error (.strayCommentEnd place) := by
  obtain ⟨u, v, done, rfl, hstuck, hleads⟩ := (lex_eq_iff_reads.mp h).exists_stuck rfl
  cases hstuck with
  | strayCommentEnd hstart =>
    have stray : Stuck (.ofLast (u ++ (v ++ more))) ((Place.ofEnd u)) (v ++ more)
        (.strayCommentEnd (Place.ofEnd u)) :=
      .strayCommentEnd (hstart.trans (List.prefix_append v more))
    rw [List.append_assoc]
    exact lex_of_leads (hleads more) (.stuck stray)

/-- However a text goes on, its lexemes stay, but for some at its end that are no brackets. -/
theorem exists_settled (h : lex text = .ok lexemes) :
    ∃ done tail, lexemes = done ++ tail ∧ (∀ l ∈ tail, l.shape.kind.isDelimiter = false) ∧
      ∀ more lexemes', lex (text ++ more) = .ok lexemes' → done <+: lexemes' := by
  obtain ⟨u, w, done, tail, rfl, -, hleads, rfl, plain⟩ :=
    (lex_eq_iff_reads.mp h).exists_openEnd rfl
  refine ⟨done, tail, rfl, plain, fun more lexemes' h' => ?_⟩
  obtain ⟨result, hresult⟩ := exists_reads (.ofLast (u ++ (w ++ more))) (.ofEnd u) (w ++ more)
  rw [List.append_assoc, lex_of_leads (hleads more) hresult] at h'
  cases result with
  | ok rest => cases h'; exact List.prefix_append done rest
  | error flaw => cases h'

/-- Closers on a line of their own are read as themselves behind what was read before, but for some
lexemes at its end that are no brackets. -/
theorem exists_lex_append_closers (h : lex text = .ok lexemes) (bs : List Bracket) :
    ∃ done tail tail' closers, lexemes = done ++ tail ∧
      lex (text ++ '\n' :: bs.map Bracket.closer) = .ok (done ++ (tail' ++ closers)) ∧
      (∀ l ∈ tail ++ tail', l.shape.kind.isDelimiter = false) ∧
      closers.map Lexeme.shape = bs.map Shape.closer := by
  obtain ⟨u, w, done, tail, rfl, hw, hleads, rfl, plain⟩ :=
    (lex_eq_iff_reads.mp h).exists_openEnd rfl
  have notBlank : ∀ c ∈ (bs.map Bracket.closer).head?, isBlank c = false := fun c hc =>
    head?_closers hc
  obtain ⟨tail', hlineFeed, plain'⟩ := hw.leads_lineFeed (.ofEnd u) notBlank
  obtain ⟨closers, hclosers, shapes⟩ :=
    exists_reads_closers (.ofLast (u ++ (w ++ ['\n'] ++ bs.map Bracket.closer)))
      ((Place.ofEnd u).after (w ++ ['\n'])) bs
  refine ⟨done, tail, tail', closers, rfl, ?_, fun l hl => ?_, shapes⟩
  · have reads := hlineFeed.reads hclosers
    rw [List.append_assoc w] at reads
    rw [List.append_assoc]
    exact lex_of_leads (hleads _) reads
  · rcases List.mem_append.mp hl with hl | hl
    · exact plain l hl
    · exact plain' l hl

end Bracketry
