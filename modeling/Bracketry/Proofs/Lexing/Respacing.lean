import Bracketry.Proofs.Lexing.Joining

/-!
# Texts with other blanks

Blank space may be put in front of any token of a text and behind the last, and blank space may be
put in the place of any comment (`Piece.Respaced`). The tokens of the new text need not be those of
the old and some blanks: what is inserted runs together with a blank that it touches, and behind a
line comment that the text ends with it belongs to the comment, up to its first line feed.

But nothing else happens. Any two neighbours of the new text that were not neighbours before have a
blank or a line comment behind them, and neither clashes with a piece that is closed
(`Piece.Closed.not_clashes`). So the new text is read to its end, and its tokens that are no trivia
are the old ones (`exists_tokenize_of_respaces`).
-/

namespace Bracketry

open Text Lexeme

namespace Lexeme

variable {w rest : List Char}

/-- A lexeme that is read in front of something is read without it. -/
theorem Splits.alone {shape : Shape} (h : Splits (w ++ rest) shape w) : Splits w shape w := by
  have hne := h.ne_nil
  have start {c : Char} (hc : [c] <+: w ++ rest) : [c] <+: w :=
    List.prefix_of_prefix_length_le hc (List.prefix_append w rest)
      (List.length_pos_iff.mpr hne)
  generalize htext : w ++ rest = text at h
  cases h with
  | opener b h => exact .opener b (List.prefix_refl _)
  | closer b h => exact .closer b (List.prefix_refl _)
  | lineComment hstart h =>
    subst htext
    exact .lineComment (start hstart) (shortest_append_iff.mp h)
  | lastLineComment hstart h => exact .lastLineComment hstart h
  | blockComment h =>
    subst htext
    exact .blockComment (shortest_append_iff.mp h)
  | quoted q hstart h =>
    subst htext
    exact .quoted q (start hstart) (shortest_append_iff.mp h)
  | blank _ h =>
    have alone : Splits (w ++ []) .blank w := splits_blank_iff.mpr ⟨hne, h.holds, nofun⟩
    rwa [List.append_nil] at alone
  | @word c tail v hcons hc h =>
    subst htext
    obtain ⟨-, still, -⟩ := splits_word_iff.mp (.word hcons hc h)
    have alone : Splits (c :: v ++ []) .word (c :: v) := by
      refine splits_word_iff.mpr ⟨hne, ?_, absurd rfl⟩
      intro i hi ends
      apply still i hi
      rw [List.append_nil] at ends
      rw [List.drop_append_of_le_length (Nat.le_of_lt hi)]
      obtain ⟨d, u, hu⟩ := List.exists_cons_of_ne_nil (l := (c :: v).drop i) (by simpa using hi)
      rw [hu] at ends ⊢
      exact endsWord_append_iff.mpr (.inl ends)
    rwa [List.append_nil] at alone

/-- A line comment that does not end in a line feed has none. -/
theorem Splits.lineFeed_notMem (h : Splits w .lineComment w) (hends : w.getLast? ≠ some '\n') :
    [';'] <+: w ∧ '\n' ∉ w := by
  cases h with
  | lineComment _ h => exact absurd h.holds hends
  | lastLineComment hstart h => exact ⟨hstart, h⟩

/-- A line comment up to a line feed. -/
theorem splits_lineComment_concat (hstart : [';'] <+: w) (h : '\n' ∉ w) :
    Splits (w ++ ['\n']) .lineComment (w ++ ['\n']) := by
  refine .lineComment (hstart.trans (List.prefix_append _ _))
    ⟨List.prefix_refl _, List.getLast?_concat, ?_⟩
  intro s hs hends
  by_contra shorter
  rw [List.length_append, List.length_singleton] at shorter
  have within : s <+: w :=
    List.prefix_of_prefix_length_le hs (List.prefix_append _ _) (by omega)
  exact h (within.subset (List.mem_of_getLast? hends))

end Lexeme

namespace Piece

/-! ## Blank space put into pieces -/

/-- Nothing but blank space; it may also be nothing at all. -/
def AllBlank (b : List Char) : Prop := ∀ c ∈ b, isBlank c = true

instance (b : List Char) : Decidable (AllBlank b) :=
  decidable_of_iff (b.all isBlank = true) List.all_eq_true

/-- A text that has the characters of some pieces, in their order, with blank space put in front of
each and behind the last, and with blank space in the place of some comments. -/
inductive Respaced : List Piece → List Char → Prop
  | done {b : List Char} (hb : AllBlank b) : Respaced [] b
  | keep {b rest : List Char} {ps : List Piece} (hb : AllBlank b) (p : Piece)
    (h : Respaced ps rest) : Respaced (p :: ps) (b ++ (p.text.toList ++ rest))
  | blank {b w rest : List Char} {p : Piece} {ps : List Piece} (hb : AllBlank b)
    (comment : p.kind.isComment = true) (hw : AllBlank w) (hne : w ≠ [])
    (h : Respaced ps rest) : Respaced (p :: ps) (b ++ (w ++ rest))

/-- A piece that is no trivia. -/
def isSolid (p : Piece) : Bool := !p.kind.isTrivia

theorem filter_isSolid_cons {p : Piece} (h : p.kind.isTrivia = true) (ps : List Piece) :
    (p :: ps).filter isSolid = ps.filter isSolid :=
  List.filter_cons_of_neg (by simp [isSolid, h])

/-- A piece that is no blank and does not go on with what follows. -/
structure Closed (p : Piece) : Prop where
  notBlank : p.kind ≠ .blank
  lineEnds : p.kind = .lineComment → p.text.toList.getLast? = some '\n'

variable {p q : Piece} {ps qs : List Piece} {b rest : List Char}

theorem Closed.not_clashes (h : p.Closed) (hq : q.kind = .blank ∨ q.kind = .lineComment) :
    ¬ Clashes p q := by
  intro clash
  cases clash with
  | words => simp at hq
  | blanks => exact h.notBlank rfl
  | lineComment goesOn => exact goesOn (h.lineEnds rfl)
  | commentEnd => simp at hq

theorem Begins.alone (h : p.Begins rest) : p.Begins [] := by
  obtain ⟨shape, hkind, hp⟩ := h
  refine ⟨shape, hkind, ?_⟩
  rw [List.append_nil]
  exact hp.alone

theorem begins_blank (hb : AllBlank b) (hne : b ≠ []) : Begins ⟨.blank, String.ofList b⟩ [] := by
  refine ⟨.blank, rfl, ?_⟩
  rw [String.toList_ofList]
  exact splits_blank_iff.mpr ⟨hne, hb, nofun⟩

theorem Begins.allBlank (h : p.Begins rest) (hkind : p.kind = .blank) :
    AllBlank p.text.toList ∧ p.text.toList ≠ [] := by
  obtain ⟨shape, hshape, hp⟩ := h
  obtain rfl : shape = .blank := by cases shape <;> simp_all [Shape.kind]
  obtain ⟨hne, blank, -⟩ := splits_blank_iff.mp hp
  exact ⟨blank, hne⟩

/-! ## Pieces in front of others -/

/-- A piece stands in front of others if it can stand alone and does not clash with the first. -/
theorem cut_cons (hp : p.Begins []) (hqs : Cut qs) (h : ∀ q ∈ qs.head?, ¬ Clashes p q) :
    Cut (p :: qs) := by
  cases qs with
  | nil => exact ⟨hp, trivial⟩
  | cons q qs =>
    refine ⟨?_, hqs⟩
    rw [chars_cons]
    exact begins_of_not_clashes hp hqs.1.alone (h q rfl) _

theorem Cut.not_clashes (h : Cut (p :: ps)) : ∀ q ∈ ps.head?, ¬ Clashes p q := by
  intro q hq
  obtain ⟨ps, rfl⟩ := List.head?_eq_some_iff.mp hq
  obtain ⟨hp, hqs, -⟩ := h
  rw [chars_cons] at hp
  exact hp.not_clashes hqs

theorem Cut.eq_nil_of_lineComment (h : Cut (p :: ps)) (hkind : p.kind = .lineComment)
    (hends : p.text.toList.getLast? ≠ some '\n') : ps = [] := by
  cases ps with
  | nil => rfl
  | cons q ps =>
    obtain ⟨kind, u⟩ := p
    obtain rfl : kind = .lineComment := hkind
    exact absurd (.lineComment hends q) (h.not_clashes q rfl)

/-- What can take the place of pieces: it is read as itself, it has the same solid pieces, and what
is closed and could stand in front of the one can stand in front of the other. -/
structure Replaces (ps qs : List Piece) : Prop where
  cut : Cut qs
  solid : qs.filter isSolid = ps.filter isSolid
  behind : ∀ p, p.Closed → (∀ q ∈ ps.head?, ¬ Clashes p q) → ∀ q ∈ qs.head?, ¬ Clashes p q

theorem replaces_nil : Replaces [] [] := ⟨trivial, rfl, fun _ _ before => before⟩

/-- What begins with a blank or a line comment can stand behind any closed piece. -/
theorem replaces_of_trivia (cut : Cut (q :: qs)) (hq : q.kind = .blank ∨ q.kind = .lineComment)
    (solid : qs.filter isSolid = ps.filter isSolid) : Replaces ps (q :: qs) := by
  have trivia : q.kind.isTrivia = true := by rcases hq with hq | hq <;> rw [hq] <;> rfl
  refine ⟨cut, ?_, ?_⟩
  · rw [filter_isSolid_cons trivia, solid]
  · rintro p hp - _ ⟨⟩
    exact hp.not_clashes hq

/-- Blank space in front of pieces is a blank of its own, or runs together with the first. -/
theorem Cut.exists_blank (h : Cut qs) (hb : AllBlank b) (hne : b ≠ [])
    (solid : qs.filter isSolid = ps.filter isSolid) :
    ∃ qs', chars qs' = b ++ chars qs ∧ Replaces ps qs' := by
  by_cases touches : ∃ u rest, qs = ⟨.blank, u⟩ :: rest
  · obtain ⟨u, rest, rfl⟩ := touches
    obtain ⟨blank, -⟩ := h.1.allBlank rfl
    have both : AllBlank (b ++ u.toList) := by
      intro c hc
      exact (List.mem_append.mp hc).elim (hb c) (blank c)
    have begins := begins_blank both (List.append_ne_nil_of_left_ne_nil hne _)
    refine ⟨⟨.blank, String.ofList (b ++ u.toList)⟩ :: rest, ?_, ?_⟩
    · rw [chars_cons, chars_cons, String.toList_ofList, List.append_assoc]
    · refine replaces_of_trivia (cut_cons begins h.2 ?_) (.inl rfl) ?_
      · intro q hq clash
        cases clash with
        | blanks _ v => exact h.not_clashes _ hq (.blanks u v)
      · rwa [filter_isSolid_cons rfl] at solid
  · refine ⟨⟨.blank, String.ofList b⟩ :: qs, ?_, ?_⟩
    · rw [chars_cons, String.toList_ofList]
    · refine replaces_of_trivia (cut_cons (begins_blank hb hne) h ?_) (.inl rfl) solid
      intro q hq clash
      cases clash with
      | blanks _ v =>
        obtain ⟨rest, rfl⟩ := List.head?_eq_some_iff.mp hq
        exact touches ⟨v, rest, rfl⟩

theorem Replaces.exists_blank (h : Replaces ps qs) (hb : AllBlank b) :
    ∃ qs', chars qs' = b ++ chars qs ∧ Replaces ps qs' := by
  by_cases hne : b = []
  · subst hne
    exact ⟨qs, rfl, h⟩
  · exact h.cut.exists_blank hb hne h.solid

/-- A closed piece stays in front of what takes the place of the pieces behind it. -/
theorem Replaces.cons (h : Replaces ps qs) (hcut : Cut (p :: ps)) (closed : p.Closed) :
    Replaces (p :: ps) (p :: qs) := by
  refine ⟨cut_cons hcut.1.alone h.cut (h.behind p closed hcut.not_clashes), ?_, ?_⟩
  · rw [List.filter_cons, List.filter_cons, h.solid]
  · exact fun _ _ before => before

theorem closed_line (w : List Char) : Closed ⟨.lineComment, String.ofList (w ++ ['\n'])⟩ := by
  refine ⟨nofun, fun _ => ?_⟩
  rw [String.toList_ofList, List.getLast?_concat]

/-- Blank space behind a line comment without its line feed: the comment takes it, or the line of it
that there is, and the rest is a blank. -/
theorem exists_of_openLine (hp : p.Begins []) (hkind : p.kind = .lineComment)
    (hends : p.text.toList.getLast? ≠ some '\n') (hb : AllBlank b) :
    ∃ qs, chars qs = p.text.toList ++ b ∧ Replaces [p] qs := by
  obtain ⟨shape, hshape, hp⟩ := hp
  obtain rfl : shape = .lineComment := by cases shape <;> simp_all [Shape.kind]
  rw [List.append_nil] at hp
  obtain ⟨start, whole⟩ := hp.lineFeed_notMem hends
  have trivia : [p].filter isSolid = [] := filter_isSolid_cons (by rw [hkind]; rfl) []
  by_cases feed : '\n' ∈ b
  · obtain ⟨u, v, rfl, hu⟩ := List.eq_append_cons_of_mem feed
    have notMem : '\n' ∉ p.text.toList ++ u := by simp [whole, hu]
    have splits := splits_lineComment_concat (start.trans (List.prefix_append _ u)) notMem
    generalize hline : p.text.toList ++ u ++ ['\n'] = line at splits
    have begins : Begins ⟨.lineComment, String.ofList line⟩ [] := by
      refine ⟨.lineComment, rfl, ?_⟩
      rwa [String.toList_ofList, List.append_nil]
    have closed : Closed ⟨.lineComment, String.ofList line⟩ := hline ▸ closed_line _
    have behind : AllBlank v := fun c hc => hb c (by simp [hc])
    obtain ⟨qs, hqs, h⟩ := replaces_nil.exists_blank behind
    refine ⟨⟨.lineComment, String.ofList line⟩ :: qs, ?_, ?_⟩
    · rw [chars_cons, hqs, String.toList_ofList, ← hline]
      simp [chars]
    · refine replaces_of_trivia ?_ (.inr rfl) (h.solid.trans trivia.symm)
      exact cut_cons begins h.cut (h.behind _ closed (by simp))
  · have notMem : '\n' ∉ p.text.toList ++ b := by simp [whole, feed]
    have splits := Splits.lastLineComment (start.trans (List.prefix_append _ b)) notMem
    refine ⟨[⟨.lineComment, String.ofList (p.text.toList ++ b)⟩], ?_, ?_⟩
    · rw [chars_cons, String.toList_ofList]
      exact List.append_nil _
    · refine replaces_of_trivia ⟨⟨.lineComment, rfl, ?_⟩, trivial⟩ (.inr rfl) trivia.symm
      rw [String.toList_ofList]
      show Splits (_ ++ []) _ _
      rwa [List.append_nil]

/-- Pieces with other blanks are read as pieces, and their solid pieces are the same. -/
theorem Respaced.exists_replaces {text : List Char} (h : Respaced ps text) (hps : Cut ps) :
    ∃ qs, chars qs = text ∧ Replaces ps qs := by
  induction h with
  | done hb =>
    obtain ⟨qs, hqs, h⟩ := replaces_nil.exists_blank hb
    exact ⟨qs, hqs.trans (List.append_nil _), h⟩
  | @keep b rest ps hb p hrest ih =>
    suffices kept : ∃ qs, chars qs = p.text.toList ++ rest ∧ Replaces (p :: ps) qs by
      obtain ⟨qs, hqs, h⟩ := kept
      rw [← hqs]
      exact h.exists_blank hb
    obtain ⟨qs, hqs, h⟩ := ih hps.2
    by_cases hblank : p.kind = .blank
    · obtain ⟨blank, hne⟩ := hps.1.allBlank hblank
      rw [← hqs]
      refine h.cut.exists_blank blank hne ?_
      rw [h.solid, filter_isSolid_cons (by rw [hblank]; rfl)]
    by_cases goesOn : p.kind = .lineComment ∧ p.text.toList.getLast? ≠ some '\n'
    · obtain ⟨hkind, hends⟩ := goesOn
      -- No piece can stand behind it, so that all that remains is blank.
      obtain rfl : ps = [] := hps.eq_nil_of_lineComment hkind hends
      cases hrest with
      | done hb => exact exists_of_openLine hps.1.alone hkind hends hb
    · refine ⟨p :: qs, ?_, h.cons hps ⟨hblank, ?_⟩⟩
      · rw [chars_cons, hqs]
      · intro hkind
        by_contra hends
        exact goesOn ⟨hkind, hends⟩
  | @blank b w rest p ps hb comment hw hne _ ih =>
    obtain ⟨qs, rfl, h⟩ := ih hps.2
    have both : AllBlank (b ++ w) := by
      intro c hc
      exact (List.mem_append.mp hc).elim (hb c) (hw c)
    rw [← List.append_assoc]
    refine h.cut.exists_blank both (List.append_ne_nil_of_right_ne_nil b hne) ?_
    rw [h.solid, filter_isSolid_cons (by simp [Token.Kind.isTrivia, comment])]

end Piece

/-! ## Sources -/

/-- The piece of a token that is no trivia. -/
def Token.solid? (source : String) (t : Token) : Option Piece :=
  (t.piece? source).filter Piece.isSolid

/-- A source that is another one with other blanks: blank space may be inserted in front of each
token and behind the last, and may stand in the place of each comment. -/
def Respaces (source source' : String) : Prop :=
  ∃ tokens ps, tokenize source = .ok tokens ∧ tokens.map (·.piece? source) = ps.map some ∧
    Piece.Respaced ps source'.toList

theorem filterMap_solid? {source : String} {tokens : List Token} {ps : List Piece}
    (h : tokens.map (·.piece? source) = ps.map some) :
    tokens.filterMap (Token.solid? source) = ps.filter Piece.isSolid := by
  calc tokens.filterMap (Token.solid? source)
      = (tokens.map (·.piece? source)).filterMap (·.filter Piece.isSolid) := by
        rw [List.filterMap_map]
        rfl
    _ = ps.filterMap (Option.guard Piece.isSolid) := by
        rw [h, List.filterMap_map]
        rfl
    _ = ps.filter Piece.isSolid := congrFun List.filterMap_eq_filter ps

/-- A source with other blanks is read to its end, and its tokens that are no trivia have the kinds
and characters that they had, in the same order. -/
theorem exists_tokenize_of_respaces {source source' : String} (h : Respaces source source') :
    ∃ tokens tokens', tokenize source = .ok tokens ∧ tokenize source' = .ok tokens' ∧
      tokens'.filterMap (Token.solid? source') = tokens.filterMap (Token.solid? source) := by
  obtain ⟨tokens, ps, htokens, hps, respaced⟩ := h
  have cut : Piece.Cut ps := by
    obtain ⟨qs, hcut, -, hqs⟩ := Piece.exists_cut_of_tokenize htokens
    rw [hps] at hqs
    rwa [(List.map_inj_right fun _ _ => Option.some.inj).mp hqs]
  obtain ⟨qs, hqs, replaces⟩ := respaced.exists_replaces cut
  obtain ⟨tokens', htokens', hqs'⟩ := (Piece.tokenize_eq_pieces_iff hqs.symm).mpr replaces.cut
  refine ⟨tokens, tokens', htokens, htokens', ?_⟩
  rw [filterMap_solid? hqs', filterMap_solid? hps, replaces.solid]

end Bracketry
