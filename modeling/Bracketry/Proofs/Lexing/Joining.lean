import Bracketry.Proofs.Lexing.Agreement
import Mathlib.Data.List.Chain

/-!
# Texts put together from lexemes

Lexemes that are each read on their own need not be read as themselves when they are written one
behind the other. Two of them clash (`Piece.Clashes`) in four ways: two words, or two blanks, run
together; a line comment without its line feed takes in what follows; and a word that ends in `|`
makes an end of comment with the `#` of a block comment. Nothing else does, however many lexemes
there are (`tokenize_join_iff`).

The rule is one of neighbours because a lexeme of the grammar is told by its own characters and the
first of what follows (`Lexeme.Splits.append_of_alone`), and the first character of a lexeme tells
its shape (`Lexeme.Splits.first`).
-/

namespace Bracketry

open Text Lexeme

/-! ## A lexeme and what follows it -/

namespace Lexeme

variable {w rest : List Char}

/-- What ends a word ends it whatever follows; and behind one character, what follows can make a
mark with it. -/
theorem endsWord_append_iff {c : Char} {v : List Char} :
    EndsWord (c :: v ++ rest) ↔ EndsWord (c :: v) ∨ (v = [] ∧ BeginsMark c rest) := by
  cases v with
  | nil => simp [EndsWord, BeginsMark, or_assoc]
  | cons d v => simp [EndsWord, BeginsMark]

/-- The first character of a lexeme tells its shape, together with the second of a comment's
mark. -/
theorem Splits.first {c : Char} {text : List Char} {shape : Shape}
    (h : Splits (c :: text) shape w) :
    match shape with
    | .opener b => c = b.opener
    | .closer b => c = b.closer
    | .blank => isBlank c = true
    | .lineComment => c = ';'
    | .blockComment => c = '#' ∧ text.head? = some '|'
    | .quoted q => c = q.mark
    | .word => ¬ EndsWord (c :: text) := by
  cases h with
  | opener b h => exact (List.cons_prefix_cons.mp h).1.symm
  | closer b h => exact (List.cons_prefix_cons.mp h).1.symm
  | blank hne h =>
    obtain ⟨d, w, rfl⟩ := List.exists_cons_of_ne_nil hne
    obtain rfl := (List.cons_prefix_cons.mp h.isStart).1
    exact h.holds d List.mem_cons_self
  | lineComment hstart _ => exact (List.cons_prefix_cons.mp hstart).1.symm
  | lastLineComment hstart _ => exact (List.cons_prefix_cons.mp hstart).1.symm
  | blockComment h =>
    obtain ⟨rfl, next⟩ := List.cons_prefix_cons.mp (h.holds.1.trans h.isStart)
    exact ⟨rfl, List.singleton_prefix_iff_head?_eq_some.mp next⟩
  | quoted q hstart _ => exact (List.cons_prefix_cons.mp hstart).1.symm
  | word _ hc _ => exact hc

/-- All lexemes but words end a word in front of them. -/
theorem Splits.endsWord_iff {text : List Char} {shape : Shape} (h : Splits text shape w) :
    EndsWord text ↔ shape ≠ .word := by
  obtain ⟨c, text, rfl⟩ := List.exists_cons_of_ne_nil (l := text) (by
    rintro rfl
    exact h.ne_nil (List.prefix_nil.mp h.isStart))
  have first := h.first
  cases shape with
  | word => exact iff_of_false first (by simp)
  | _ => refine iff_of_true ?_ (by simp); simp_all [EndsWord, BeginsMark]

theorem Splits.isBlank_eq_false {c : Char} {text : List Char} {shape : Shape}
    (h : Splits (c :: text) shape w) (hne : shape ≠ .blank) : isBlank c = false := by
  have first := h.first
  cases shape with
  | blank => exact absurd rfl hne
  | word => exact eq_false_of_ne_true (mt Or.inl first)
  | opener b =>
    obtain rfl : c = b.opener := first
    cases b <;> decide
  | closer b =>
    obtain rfl : c = b.closer := first
    cases b <;> decide
  | quoted q =>
    obtain rfl : c = q.mark := first
    cases q <;> decide
  | lineComment =>
    obtain rfl : c = ';' := first
    decide
  | blockComment =>
    obtain rfl : c = '#' := first.1
    decide

/-- Only words and block comments begin with a character of a comment's marks. -/
theorem Splits.shape_of_mark {c : Char} {text : List Char} {shape : Shape}
    (h : Splits (c :: text) shape w) (hc : c = '#' ∨ c = '|') :
    shape = .word ∨ (shape = .blockComment ∧ c = '#') := by
  have first := h.first
  have other : isBlank c = false := by rcases hc with rfl | rfl <;> decide
  cases shape with
  | word => exact .inl rfl
  | blockComment => exact .inr ⟨rfl, first.1⟩
  | blank => exact absurd first (by simp [other])
  | opener b =>
    obtain rfl : c = b.opener := first
    cases b <;> simp [Bracket.opener] at hc
  | closer b =>
    obtain rfl : c = b.closer := first
    cases b <;> simp [Bracket.closer] at hc
  | quoted q =>
    obtain rfl : c = q.mark := first
    cases q <;> simp [Quote.mark] at hc
  | lineComment =>
    obtain rfl : c = ';' := first
    simp at hc

/-- A word on its own is a word in front of what ends it, unless they make a mark together. -/
theorem Splits.word_append_of_alone (h : Splits w .word w) (ends : EndsWord rest)
    (hmark : ∀ c, w.getLast? = some c → ¬ BeginsMark c rest) : Splits (w ++ rest) .word w := by
  have alone : Splits (w ++ []) .word w := by rwa [List.append_nil]
  obtain ⟨hne, still, -⟩ := splits_word_iff.mp alone
  refine splits_word_iff.mpr ⟨hne, fun i hi => ?_, fun _ => ends⟩
  have here := still i hi
  rw [List.append_nil] at here
  rw [List.drop_append_of_le_length (by omega)]
  obtain ⟨c, v, hv⟩ := List.exists_cons_of_ne_nil (l := w.drop i) (by simpa using hi)
  rw [hv] at here ⊢
  rw [endsWord_append_iff]
  rintro (hends | ⟨rfl, hmarks⟩)
  · exact here hends
  · refine hmark c ?_ hmarks
    have last := List.getLast?_drop (i := i) (l := w)
    rw [hv, if_neg (by omega)] at last
    exact last.symm

/-- A lexeme on its own is a lexeme in front of another that is one on its own, whatever follows,
but for the four ways in which two can clash. -/
theorem Splits.append_of_alone {v : List Char} {s t : Shape} (h : Splits w s w) (hv : Splits v t v)
    (words : s = .word → t ≠ .word) (blanks : s = .blank → t ≠ .blank)
    (lineComment : s = .lineComment → w.getLast? = some '\n')
    (commentEnd : s = .word → t = .blockComment → w.getLast? ≠ some '|') :
    Splits (w ++ (v ++ rest)) s w := by
  obtain ⟨c, v, rfl⟩ := List.exists_cons_of_ne_nil hv.ne_nil
  generalize htext : w = text at h ⊢
  cases h with
  | opener b h => exact .opener b ⟨_, rfl⟩
  | closer b h => exact .closer b ⟨_, rfl⟩
  | quoted q hstart h =>
    exact .quoted q (hstart.trans (List.prefix_append _ _)) (shortest_append_iff.mpr h)
  | blockComment h => exact .blockComment (shortest_append_iff.mpr h)
  | lineComment hstart h =>
    exact .lineComment (hstart.trans (List.prefix_append _ _)) (shortest_append_iff.mpr h)
  | lastLineComment hstart h =>
    subst htext
    exact absurd (List.mem_of_getLast? (lineComment rfl)) h
  | @blank _ hne h =>
    refine splits_blank_iff.mpr ⟨hne, h.holds, ?_⟩
    rintro d ⟨⟩
    exact hv.isBlank_eq_false (blanks rfl)
  | word hcons hc h =>
    subst htext
    refine Splits.word_append_of_alone (.word hcons hc h) ?_ fun d hd hmark => ?_
    · exact endsWord_append_iff.mpr (.inl (hv.endsWord_iff.mpr (words rfl)))
    · rcases hmark with ⟨rfl, next⟩ | ⟨rfl, next⟩
      · obtain rfl : c = '|' := Option.some.inj next
        rcases hv.shape_of_mark (.inr rfl) with ht | ⟨-, hc⟩
        · exact words rfl ht
        · exact absurd hc (by decide)
      · obtain rfl : c = '#' := Option.some.inj next
        rcases hv.shape_of_mark (.inl rfl) with ht | ⟨ht, -⟩
        · exact words rfl ht
        · exact commentEnd rfl ht hd

end Lexeme

/-! ## Pieces -/

/-- A kind of token, and characters for it. -/
structure Piece where
  kind : Token.Kind
  text : String
deriving DecidableEq

/-- A token with the characters that it has in a source. -/
def Token.piece? (source : String) (t : Token) : Option Piece :=
  (t.lexeme? source.toList).map fun w => ⟨t.kind, String.ofList w⟩

namespace Piece

/-- The characters are one token of the kind, if nothing is around them. -/
def IsToken (p : Piece) : Prop := ∃ t, tokenize p.text = .ok [t] ∧ t.kind = p.kind

/-- Pieces written one behind the other. -/
def join (ps : List Piece) : String := String.join (ps.map text)

/-- Two pieces that cannot stand side by side. -/
inductive Clashes : Piece → Piece → Prop
  | words (u v : String) : Clashes ⟨.word, u⟩ ⟨.word, v⟩
  | blanks (u v : String) : Clashes ⟨.blank, u⟩ ⟨.blank, v⟩
  /-- A line comment goes on to the end of its line. -/
  | lineComment {u : String} (h : u.toList.getLast? ≠ some '\n') (q : Piece) :
    Clashes ⟨.lineComment, u⟩ q
  /-- The last character of the word and the first of the comment are `|#`. -/
  | commentEnd {u : String} (h : u.toList.getLast? = some '|') (v : String) :
    Clashes ⟨.word, u⟩ ⟨.blockComment, v⟩

/-- The characters of pieces written one behind the other. -/
def chars (ps : List Piece) : List Char := ps.flatMap (·.text.toList)

@[simp] theorem chars_cons (p : Piece) (ps : List Piece) :
    chars (p :: ps) = p.text.toList ++ chars ps :=
  List.flatMap_cons

theorem toList_join (ps : List Piece) : (join ps).toList = chars ps := by
  rw [join, String.toList_join, List.flatMap_map]
  rfl

/-- A piece is the lexeme at the start of its characters, with more behind them. -/
def Begins (p : Piece) (rest : List Char) : Prop :=
  ∃ shape : Shape, shape.kind = p.kind ∧ Splits (p.text.toList ++ rest) shape p.text.toList

/-- Each of some pieces is the next lexeme of what remains. -/
def Cut : List Piece → Prop
  | [] => True
  | p :: ps => p.Begins (chars ps) ∧ Cut ps

/-! ## Neighbours -/

variable {p q : Piece} {ps : List Piece} {more : List Char}

theorem Begins.text_ne_nil (h : p.Begins more) : p.text.toList ≠ [] := by
  obtain ⟨_, -, h⟩ := h
  exact h.ne_nil

/-- Pieces that are read side by side do not clash. -/
theorem Begins.not_clashes (hp : p.Begins (q.text.toList ++ more)) (hq : q.Begins more) :
    ¬ Clashes p q := by
  intro clash
  have hne := hq.text_ne_nil
  obtain ⟨s, hs, hp⟩ := hp
  obtain ⟨t, ht, hq⟩ := hq
  cases clash with
  | words u v =>
    obtain rfl : s = .word := by cases s <;> simp_all [Shape.kind]
    obtain rfl : t = .word := by cases t <;> simp_all [Shape.kind]
    have ends := (splits_word_iff.mp hp).2.2 (by simp [hne])
    exact hq.endsWord_iff.mp ends rfl
  | blanks u v =>
    obtain rfl : s = .blank := by cases s <;> simp_all [Shape.kind]
    obtain rfl : t = .blank := by cases t <;> simp_all [Shape.kind]
    obtain ⟨c, w, hw⟩ := List.exists_cons_of_ne_nil hne
    simp only at hw
    simp only [hw] at hp hq
    have blank : isBlank c = true := hq.first
    have := (splits_blank_iff.mp hp).2.2 c rfl
    rw [blank] at this
    cases this
  | lineComment h q =>
    obtain rfl : s = .lineComment := by cases s <;> simp_all [Shape.kind]
    generalize htext : _ ++ (q.text.toList ++ more) = text at hp
    cases hp with
    | lineComment _ hends => exact h hends.holds
    | lastLineComment => simp_all
  | commentEnd h v =>
    obtain rfl : s = .word := by cases s <;> simp_all [Shape.kind]
    obtain rfl : t = .blockComment := by cases t <;> simp_all [Shape.kind]
    obtain ⟨u, hu⟩ := List.getLast?_eq_some_iff.mp h
    obtain ⟨c, w, hw⟩ := List.exists_cons_of_ne_nil hne
    simp only at hu hw
    simp only [hu, hw] at hp hq
    obtain rfl : c = '#' := hq.first.1
    refine (splits_word_iff.mp hp).2.1 u.length (by simp) ?_
    rw [List.append_assoc, List.drop_left]
    exact .inr (.inr (.inr (.inr (.inr (.inr ⟨rfl, rfl⟩)))))

/-- Pieces that do not clash are read side by side, if each is on its own. -/
theorem begins_of_not_clashes (hp : p.Begins []) (hq : q.Begins []) (h : ¬ Clashes p q)
    (more : List Char) : p.Begins (q.text.toList ++ more) := by
  obtain ⟨kind, u⟩ := p
  obtain ⟨kind', v⟩ := q
  obtain ⟨s, rfl, hp⟩ := hp
  obtain ⟨t, rfl, hq⟩ := hq
  rw [List.append_nil] at hp hq
  refine ⟨s, rfl, hp.append_of_alone hq ?_ ?_ ?_ ?_⟩
  · rintro rfl rfl
    exact h (.words u v)
  · rintro rfl rfl
    exact h (.blanks u v)
  · rintro rfl
    by_contra hends
    exact h (.lineComment hends _)
  · rintro rfl rfl hbar
    exact h (.commentEnd hbar v)

/-! ## Reading pieces -/

/-- Pieces that can each stand alone are the lexemes of what they make up together just if no two
neighbours clash. -/
theorem cut_iff_isChain {ps : List Piece} (alone : ∀ p ∈ ps, p.Begins []) :
    Cut ps ↔ ps.IsChain fun p q => ¬ Clashes p q := by
  induction ps with
  | nil => exact iff_of_true trivial .nil
  | cons p ps ih =>
    have rest := ih fun q hq => alone q (List.mem_cons_of_mem p hq)
    cases ps with
    | nil => exact iff_of_true ⟨alone p List.mem_cons_self, trivial⟩ (.singleton p)
    | cons q ps =>
      rw [Cut, rest, List.isChain_cons_cons, chars_cons]
      refine and_congr_left fun hchain => ⟨fun hp => ?_, fun h => ?_⟩
      · exact hp.not_clashes (rest.mpr hchain).1
      · exact begins_of_not_clashes (alone p List.mem_cons_self) (alone q (by simp)) h _

/-- The span of a lexeme and its shape make up a piece. -/
theorem piece?_token {source : String} {read w rest : List Char}
    (hsource : source.toList = read ++ (w ++ rest)) (shape : Shape) :
    (Lexeme.token ⟨shape, Place.ofEnd read, byteLength w⟩).piece? source =
      some ⟨shape.kind, String.ofList w⟩ := by
  rw [Token.piece?, Token.lexeme?, Lexeme.token, hsource, Span.text?_ofEnd]
  rfl

/-- A reading to the end of a text cuts it into pieces. -/
theorem exists_cut_of_reads {source : String} {last place : Place} {text : List Char}
    {result : Except Flaw (List Lexeme)} (h : Reads last place text result)
    {lexemes : List Lexeme} (hresult : result = .ok lexemes) {read : List Char}
    (hsource : source.toList = read ++ text) (hplace : place = Place.ofEnd read) :
    ∃ ps, Cut ps ∧ chars ps = text ∧
      (lexemes.map Lexeme.token).map (·.piece? source) = ps.map some := by
  induction h generalizing lexemes read with
  | done place =>
    cases hresult
    exact ⟨[], trivial, rfl, rfl⟩
  | @split place shape w rest result h _ ih =>
    subst hplace
    cases result with
    | error flaw => cases hresult
    | ok more =>
      cases hresult
      obtain ⟨ps, hcut, rfl, hps⟩ := ih rfl (by rw [hsource, List.append_assoc])
        (Place.ofEnd_append read w).symm
      refine ⟨⟨shape.kind, String.ofList w⟩ :: ps, ⟨⟨shape, rfl, ?_⟩, hcut⟩, ?_, ?_⟩
      · rwa [String.toList_ofList]
      · rw [chars_cons, String.toList_ofList]
      · rw [List.map_cons, List.map_cons, hps, piece?_token hsource]
        rfl
  | stuck h => cases hresult

theorem exists_cut_of_tokenize {source : String} {tokens : List Token}
    (h : tokenize source = .ok tokens) :
    ∃ ps, Cut ps ∧ chars ps = source.toList ∧ tokens.map (·.piece? source) = ps.map some := by
  obtain ⟨lexemes, hlex, rfl⟩ := tokenize_eq_ok_iff.mp h
  have start : source.toList = [] ++ source.toList := rfl
  exact exists_cut_of_reads (lex_eq_iff_reads.mp hlex) rfl start Place.ofEnd_nil.symm

/-- What is cut into pieces is read so. -/
theorem Cut.exists_reads {source : String} (last : Place) {ps : List Piece} (h : Cut ps)
    {read : List Char} (hsource : source.toList = read ++ chars ps) :
    ∃ lexemes, Reads last (Place.ofEnd read) (chars ps) (.ok lexemes) ∧
      (lexemes.map Lexeme.token).map (·.piece? source) = ps.map some := by
  induction ps generalizing read with
  | nil => exact ⟨[], .done _, rfl⟩
  | cons p ps ih =>
    obtain ⟨⟨shape, hkind, hp⟩, hps⟩ := h
    rw [chars_cons] at hsource
    have behind : source.toList = (read ++ p.text.toList) ++ chars ps := by
      rw [hsource, List.append_assoc]
    obtain ⟨lexemes, hreads, hlexemes⟩ := ih hps behind
    rw [Place.ofEnd_append] at hreads
    rw [chars_cons]
    refine ⟨_, Reads.split hp hreads, ?_⟩
    rw [List.map_cons, List.map_cons, hlexemes, piece?_token hsource, hkind, String.ofList_toList]
    rfl

/-- A source is read as pieces if it is cut into them. -/
theorem tokenize_eq_pieces_iff {source : String} {ps : List Piece}
    (hsource : source.toList = chars ps) :
    (∃ tokens, tokenize source = .ok tokens ∧ tokens.map (·.piece? source) = ps.map some) ↔
      Cut ps := by
  constructor
  · rintro ⟨tokens, htokens, hps⟩
    obtain ⟨qs, hcut, -, hqs⟩ := exists_cut_of_tokenize htokens
    rw [hps] at hqs
    rwa [(List.map_inj_right fun _ _ => Option.some.inj).mp hqs]
  · intro h
    have start : source.toList = [] ++ chars ps := hsource
    obtain ⟨lexemes, hreads, hps⟩ := h.exists_reads (.ofLast source.toList) start
    rw [← hsource, Place.ofEnd_nil, ← lex_eq_iff_reads] at hreads
    exact ⟨_, tokenize_eq_ok_iff.mpr ⟨lexemes, hreads, rfl⟩, hps⟩

/-- A token on its own is the whole of its text. -/
theorem IsToken.begins {p : Piece} (h : p.IsToken) : p.Begins [] := by
  obtain ⟨t, htokens, hkind⟩ := h
  obtain ⟨ps, hcut, hchars, hps⟩ := exists_cut_of_tokenize htokens
  obtain ⟨q, ps, rfl, hq, hnil⟩ := List.map_eq_cons_iff.mp hps.symm
  obtain rfl : ps = [] := List.map_eq_nil_iff.mp hnil
  obtain ⟨w, -, hw⟩ := Option.map_eq_some_iff.mp hq.symm
  have same : q = p := by
    rw [chars_cons, chars, List.flatMap_nil, List.append_nil, String.toList_inj] at hchars
    obtain ⟨kind, text⟩ := p
    subst hw hkind hchars
    rfl
  exact same ▸ hcut.1

end Piece

/-- **Lexemes written one behind the other are read as themselves just if no two neighbours clash.**
Each of them is to be a token on its own; then the tokens of the whole are of the same kinds and
characters, in the same order, exactly where no word is next to a word, no blank next to a blank, no
line comment without its line feed before anything, and no word that ends in a bar before a block
comment. -/
theorem tokenize_join_iff (ps : List Piece) (alone : ∀ p ∈ ps, p.IsToken) :
    (∃ tokens, tokenize (Piece.join ps) = .ok tokens ∧
      tokens.map (·.piece? (Piece.join ps)) = ps.map some) ↔
    ps.IsChain fun p q => ¬ Piece.Clashes p q := by
  rw [Piece.tokenize_eq_pieces_iff (Piece.toList_join ps)]
  exact Piece.cut_iff_isChain fun p hp => (alone p hp).begins

/-- A word may stand before a block comment, with a line comment behind it, but not if it ends in a
bar. -/
theorem tokenize_join_iff_bar :
    (∃ tokens, tokenize (Piece.join
        [⟨.word, "a"⟩, ⟨.blockComment, "#|b|#"⟩, ⟨.lineComment, ";c"⟩]) = .ok tokens ∧
      tokens.map (·.piece? (Piece.join
        [⟨.word, "a"⟩, ⟨.blockComment, "#|b|#"⟩, ⟨.lineComment, ";c"⟩])) =
        [some ⟨.word, "a"⟩, some ⟨.blockComment, "#|b|#"⟩, some ⟨.lineComment, ";c"⟩]) ∧
    ¬ ∃ tokens, tokenize (Piece.join [⟨.word, "a|"⟩, ⟨.blockComment, "#|b|#"⟩]) = .ok tokens ∧
      tokens.map (·.piece? (Piece.join [⟨.word, "a|"⟩, ⟨.blockComment, "#|b|#"⟩])) =
        [some ⟨.word, "a|"⟩, some ⟨.blockComment, "#|b|#"⟩] := by
  have a : Piece.IsToken ⟨.word, "a"⟩ := ⟨_, rfl, rfl⟩
  have bar : Piece.IsToken ⟨.word, "a|"⟩ := ⟨_, rfl, rfl⟩
  have b : Piece.IsToken ⟨.blockComment, "#|b|#"⟩ := ⟨_, rfl, rfl⟩
  have c : Piece.IsToken ⟨.lineComment, ";c"⟩ := ⟨_, rfl, rfl⟩
  constructor
  · refine (tokenize_join_iff _ ?_).mpr ?_
    · simp [a, b, c]
    · refine .cons_cons ?_ (.cons_cons ?_ (.singleton _))
      · rintro (_ | _ | _ | h)
        exact absurd h (by decide)
      · rintro (_ | _ | _ | _)
  · refine mt (tokenize_join_iff _ ?_).mp fun h => ?_
    · simp [bar, b]
    · exact (List.isChain_cons_cons.mp h).1 (.commentEnd (by decide) _)

end Bracketry
