import Bracketry.Proofs.Lexing.Respacing
import Bracketry.Proofs.Nesting.Diagnosis
import Bracketry.Sketch

/-!
# Blanks and comments have no part in the structure

A sketch without trivia shows nothing of the blanks and comments of a text, and the brackets that a
fault is diagnosed from are no trivia. So a text with other blanks has the same sketch, or is
refused for a fault of the same class with as many lists open (`parse_of_respaces`). Only places
differ.

For texts that are accepted, this follows the rules by which lexemes are grouped: trivia stand
alone, so they can be put into any grouping or taken out (`Groups.exists_sketch`). For texts that
are refused, it follows the word of brackets: all that a diagnosis says beyond places depends on the
characters of the brackets alone (`Diagnosis.exists_of_word_eq`).
-/

namespace Bracketry

open Text

/-! ## Sketches without trivia -/

/-- Neither comments nor blanks are shown. -/
def Keep.Trivia.none : Keep.Trivia := ⟨false, false⟩

theorem Keep.Trivia.admits_none (kind : Token.Kind) :
    Keep.Trivia.none.admits kind = !kind.isTrivia := by
  simp [admits, none, Token.Kind.isTrivia, Bool.not_or]

section

variable {source : List Char} {keep : Keep.Trivia} {t : Token} {f g : Forest}

theorem Forest.sketch?_cons (tree : Tree) (f : Forest) : sketch? source keep (tree :: f) =
    (tree.sketch? source keep).bind fun s => (sketch? source keep f).map (s ++ ·) := by
  rw [sketch?]
  cases tree.sketch? source keep with
  | none => rfl
  | some s => cases sketch? source keep f <;> rfl

/-- Trees side by side are sketched side by side. -/
theorem Forest.sketch?_append_eq_bind (f g : Forest) : sketch? source keep (f ++ g) =
    (sketch? source keep f).bind fun s => (sketch? source keep g).map (s ++ ·) := by
  induction f with
  | nil =>
    rw [List.nil_append, sketch?]
    cases sketch? source keep g <;> rfl
  | cons tree f ih =>
    rw [List.cons_append, sketch?_cons, sketch?_cons, ih]
    cases tree.sketch? source keep with
    | none => rfl
    | some s =>
      cases sketch? source keep f with
      | none => rfl
      | some u => cases sketch? source keep g <;> simp

theorem Forest.sketch?_append {s u : List Sketch} (hf : sketch? source keep f = some s)
    (hg : sketch? source keep g = some u) : sketch? source keep (f ++ g) = some (s ++ u) := by
  rw [sketch?_append_eq_bind, hf, hg]
  rfl

theorem Forest.sketch?_trivia (h : t.kind.isTrivia = true) (f : Forest) :
    sketch? source .none (.leaf t :: f) = sketch? source .none f := by
  rw [sketch?, Tree.sketch?, Keep.Trivia.admits_none, h]
  cases sketch? source .none f <;> rfl

/-- A leaf that is no trivia is shown as its text. -/
theorem Tree.sketch?_solid {w : List Char} (h : t.kind.isTrivia = false)
    (hw : t.lexeme? source = some w) :
    Tree.sketch? source .none (.leaf t) = some [.atom (String.ofList w)] := by
  rw [Tree.sketch?, Keep.Trivia.admits_none, h, hw]
  rfl

end

/-! ## Lexemes with their texts -/

/-- A lexeme of a source: its shape is what its text says, and its text is there. -/
structure Lexeme.Known (source : String) (l : Lexeme) : Prop where
  faithful : l.Faithful source.toList
  text : ∃ w, l.token.lexeme? source.toList = some w

theorem known_of_mem_lex {source : String} {lexemes : List Lexeme}
    (h : lex source.toList = .ok lexemes) {l : Lexeme} (hl : l ∈ lexemes) : l.Known source := by
  refine ⟨faithful_of_mem_lex h hl, ?_⟩
  obtain ⟨u, w, v, htext, hspan, -⟩ := exists_splits_of_mem_lex h hl
  refine ⟨w, ?_⟩
  rw [htext, Token.lexeme?, Lexeme.token, hspan, Span.text?_ofEnd]

namespace Lexeme

/-- The piece of a lexeme that is no trivia. -/
def solid? (source : String) (l : Lexeme) : Option Piece := l.token.solid? source

variable {source : String} {l : Lexeme} {p : Piece}

/-- A lexeme is known by its piece, if it is no trivia. -/
theorem of_solid? (h : l.solid? source = some p) : l.shape.kind.isTrivia = false ∧
    l.shape.kind = p.kind ∧ l.token.lexeme? source.toList = some p.text.toList := by
  obtain ⟨hp, solid⟩ := Option.filter_eq_some_iff.mp h
  obtain ⟨w, hw, rfl⟩ := Option.map_eq_some_iff.mp hp
  refine ⟨by simpa [Piece.isSolid, Lexeme.token] using solid, rfl, ?_⟩
  rw [hw, String.toList_ofList]

theorem solid?_trivia (h : l.shape.kind.isTrivia = true) : l.solid? source = none := by
  rw [Option.eq_none_iff_forall_ne_some]
  intro p hp
  rw [(of_solid? hp).1] at h
  cases h

theorem Known.exists_solid? (h : l.Known source) (solid : l.shape.kind.isTrivia = false) :
    ∃ p, l.solid? source = some p := by
  obtain ⟨w, hw⟩ := h.text
  refine ⟨⟨l.token.kind, String.ofList w⟩, Option.filter_eq_some_iff.mpr ⟨?_, ?_⟩⟩
  · rw [Token.piece?, hw, Option.map_some]
  · simpa [Piece.isSolid, Lexeme.token] using solid

theorem Known.trivia_of_solid? (h : l.Known source) (nothing : l.solid? source = none) :
    l.shape.kind.isTrivia = true := by
  by_contra solid
  obtain ⟨p, hp⟩ := h.exists_solid? (eq_false_of_ne_true solid)
  rw [nothing] at hp
  cases hp

/-- Lexemes of one piece are tokens of one kind and text. -/
theorem same_of_solid? {source' : String} {l' : Lexeme} (hp : l.solid? source = some p)
    (hp' : l'.solid? source' = some p) : l'.token.kind = l.token.kind ∧
      l'.token.lexeme? source'.toList = l.token.lexeme? source.toList := by
  obtain ⟨-, kind, text⟩ := of_solid? hp
  obtain ⟨-, kind', text'⟩ := of_solid? hp'
  exact ⟨kind'.trans kind.symm, text'.trans text.symm⟩

theorem Known.opener_of_solid? {source' : String} {l' : Lexeme} {b : Bracket} (h : l.Known source)
    (h' : l'.Known source') (hp : l.solid? source = some p) (hp' : l'.solid? source' = some p)
    (hb : l.shape = .opener b) : l'.shape = .opener b := by
  obtain ⟨kind, text⟩ := same_of_solid? hp hp'
  have opens := (h.faithful.opens_iff b).mpr hb
  exact (h'.faithful.opens_iff b).mp ⟨kind.trans opens.1, text.trans opens.2⟩

theorem Known.closer_of_solid? {source' : String} {l' : Lexeme} {b : Bracket} (h : l.Known source)
    (h' : l'.Known source') (hp : l.solid? source = some p) (hp' : l'.solid? source' = some p)
    (hb : l.shape = .closer b) : l'.shape = .closer b := by
  obtain ⟨kind, text⟩ := same_of_solid? hp hp'
  have closes := (h.faithful.closes_iff b).mpr hb
  exact (h'.faithful.closes_iff b).mp ⟨kind.trans closes.1, text.trans closes.2⟩

/-- A lexeme that is solid is shown as the characters of its piece. -/
theorem sketch?_of_solid? (h : l.solid? source = some p) :
    Tree.sketch? source.toList .none (.leaf l.token) = some [.atom p.text] := by
  obtain ⟨solid, -, text⟩ := of_solid? h
  rw [Tree.sketch?_solid solid text, String.ofList_toList]

/-- The first solid piece of lexemes is that of a lexeme with trivia in front. -/
theorem exists_of_filterMap_solid? {ls : List Lexeme} {ps : List Piece}
    (hls : ∀ l ∈ ls, l.Known source) (h : ls.filterMap (solid? source) = p :: ps) :
    ∃ ts l rest, ls = ts ++ l :: rest ∧ (∀ t ∈ ts, t.shape.kind.isTrivia = true) ∧
      l.solid? source = some p ∧ rest.filterMap (solid? source) = ps := by
  obtain ⟨ts, l, rest, rfl, hts, hl, hrest⟩ := List.filterMap_eq_cons_iff.mp h
  refine ⟨ts, l, rest, rfl, ?_, hl, hrest⟩
  intro t ht
  exact (hls t (List.mem_append_left _ ht)).trivia_of_solid? (hts t ht)

end Lexeme

/-! ## Groups and their sketches -/

/-- Trivia in front of lexemes are put in front of their groups, and are not shown. -/
theorem Groups.exists_trivia {source : List Char} {ts ls : List Lexeme} {f : Forest}
    (h : Groups ls f) (trivia : ∀ l ∈ ts, l.shape.kind.isTrivia = true) :
    ∃ g, Groups (ts ++ ls) g ∧
      Forest.sketch? source .none g = Forest.sketch? source .none f := by
  induction ts with
  | nil => exact ⟨f, h, rfl⟩
  | cons l ts ih =>
    obtain ⟨hl, hts⟩ := List.forall_mem_cons.mp trivia
    obtain ⟨g, hg, shown⟩ := ih hts
    have plain : l.shape.kind.isDelimiter = false := by
      cases hs : l.shape <;> simp_all [Lexeme.Shape.kind, Token.Kind.isTrivia,
        Token.Kind.isBlank, Token.Kind.isComment, Token.Kind.isDelimiter]
    exact ⟨.leaf l.token :: g, .leaf plain hg, (Forest.sketch?_trivia hl g).trans shown⟩

/-- A list is shown as the texts of its brackets with all that is shown between them. -/
theorem Tree.sketch?_enclose {source : List Char} {opener closer : Lexeme} {inner : Forest}
    {s t : List Sketch} {items : List Sketch}
    (hs : Tree.sketch? source .none (.leaf opener.token) = some s)
    (hinner : Forest.sketch? source .none inner = some items)
    (ht : Tree.sketch? source .none (.leaf closer.token) = some t) :
    (Tree.enclose opener inner closer).sketch? source .none =
      some [.list (s ++ (items ++ (t ++ [])))] := by
  have last : Forest.sketch? source .none [.leaf closer.token] = some (t ++ []) := by
    rw [Forest.sketch?, ht, Forest.sketch?]
  have behind := Forest.sketch?_append hinner last
  rw [Tree.enclose, Tree.sketch?, Forest.sketch?, hs, behind, Option.map_some]

/-- Lexemes with the same solid pieces can be grouped in the same way, and the two groupings have
one sketch without trivia. The induction is on the grouping that is known. -/
theorem Groups.exists_sketch {source source' : String} {ls ls' : List Lexeme} {f : Forest}
    (h : Groups ls f) (hls : ∀ l ∈ ls, l.Known source) (hls' : ∀ l ∈ ls', l.Known source')
    (same : ls'.filterMap (Lexeme.solid? source') = ls.filterMap (Lexeme.solid? source)) :
    ∃ f' sketches, Groups ls' f' ∧ Forest.sketch? source.toList .none f = some sketches ∧
      Forest.sketch? source'.toList .none f' = some sketches := by
  induction h generalizing ls' with
  | nil =>
    have trivia : ∀ l ∈ ls', l.shape.kind.isTrivia = true := by
      intro l hl
      exact (hls' l hl).trivia_of_solid? (List.filterMap_eq_nil_iff.mp same l hl)
    obtain ⟨g, hg, shown⟩ := Groups.nil.exists_trivia trivia
    rw [List.append_nil] at hg
    exact ⟨g, [], hg, rfl, shown⟩
  | @leaf l ls f plain _ ih =>
    obtain ⟨hl, hls⟩ := List.forall_mem_cons.mp hls
    by_cases trivia : l.shape.kind.isTrivia = true
    · rw [List.filterMap_cons_none (Lexeme.solid?_trivia trivia)] at same
      obtain ⟨f', sketches, hf', hs, hs'⟩ := ih hls hls' same
      exact ⟨f', sketches, hf', (Forest.sketch?_trivia trivia f).trans hs, hs'⟩
    · obtain ⟨p, hp⟩ := hl.exists_solid? (eq_false_of_ne_true trivia)
      rw [List.filterMap_cons_some hp] at same
      obtain ⟨ts, l', ls', rfl, hts, hp', same⟩ := Lexeme.exists_of_filterMap_solid? hls' same
      obtain ⟨f', sketches, hf', hs, hs'⟩ := ih hls (fun x hx => hls' x (by simp [hx])) same
      obtain ⟨kind, -⟩ := Lexeme.same_of_solid? hp hp'
      have plain' : l'.shape.kind.isDelimiter = false := (congrArg _ kind).trans plain
      obtain ⟨g, hg, shown⟩ := (Groups.leaf plain' hf').exists_trivia hts
      refine ⟨g, .atom p.text :: sketches, hg, ?_, shown.trans ?_⟩
      · rw [Forest.sketch?, Lexeme.sketch?_of_solid? hp, hs]
        rfl
      · rw [Forest.sketch?, Lexeme.sketch?_of_solid? hp', hs']
        rfl
  | @list b opener closer inner ls g f hopener hcloser _ _ ihg ihf =>
    have openerKnown := hls opener (by simp)
    have closerKnown := hls closer (by simp)
    obtain ⟨p, hp⟩ := openerKnown.exists_solid? (by rw [hopener]; rfl)
    obtain ⟨q, hq⟩ := closerKnown.exists_solid? (by rw [hcloser]; rfl)
    rw [List.filterMap_cons_some hp, List.filterMap_append, List.filterMap_cons_some hq] at same
    obtain ⟨ts, opener', rest, rfl, hts, hp', same⟩ :=
      Lexeme.exists_of_filterMap_solid? hls' same
    obtain ⟨inner', rest, rfl, hinner, same⟩ := List.filterMap_eq_append_iff.mp same
    obtain ⟨us, closer', ls', rfl, hus, hq', same⟩ :=
      Lexeme.exists_of_filterMap_solid? (fun x hx => hls' x (by simp [hx])) same
    have opens := openerKnown.opener_of_solid? (hls' opener' (by simp)) hp hp' hopener
    have closes := closerKnown.closer_of_solid? (hls' closer' (by simp)) hq hq' hcloser
    -- The trivia in front of the closer belong to the list.
    have within : (inner' ++ us).filterMap (Lexeme.solid? source') =
        inner.filterMap (Lexeme.solid? source) := by
      have nothing : us.filterMap (Lexeme.solid? source') = [] :=
        List.filterMap_eq_nil_iff.mpr fun u hu => Lexeme.solid?_trivia (hus u hu)
      rw [List.filterMap_append, nothing, List.append_nil, hinner]
    obtain ⟨g', items, hg', hs, hs'⟩ := ihg (fun x hx => hls x (by simp [hx]))
      (fun x hx => hls' x (by simp at hx ⊢; tauto)) within
    obtain ⟨f', sketches, hf', ht, ht'⟩ := ihf (fun x hx => hls x (by simp [hx]))
      (fun x hx => hls' x (by simp [hx])) same
    obtain ⟨g, hg, shown⟩ := (Groups.list opens closes hg' hf').exists_trivia hts
    rw [List.append_assoc] at hg
    refine ⟨g, .list (.atom p.text :: (items ++ [.atom q.text])) :: sketches, hg, ?_,
      shown.trans ?_⟩
    · rw [Forest.sketch?, Tree.sketch?_enclose (Lexeme.sketch?_of_solid? hp) hs
        (Lexeme.sketch?_of_solid? hq), ht]
      rfl
    · rw [Forest.sketch?, Tree.sketch?_enclose (Lexeme.sketch?_of_solid? hp') hs'
        (Lexeme.sketch?_of_solid? hq'), ht']
      rfl

/-! ## Words and diagnoses -/

/-- The character of a bracket. -/
def Piece.mark? (p : Piece) : Option Char :=
  if p.kind.isDelimiter then p.text.toList.head? else none

theorem Token.map_mark_delimiter? (source : String) (t : Token) :
    (t.delimiter? source.toList).map Delimiter.mark = (t.solid? source).bind Piece.mark? := by
  rw [delimiter?, solid?, piece?]
  cases t.lexeme? source.toList with
  | none => simp
  | some w =>
    cases t.kind <;>
      simp [Token.Kind.isDelimiter, Piece.isSolid, Token.Kind.isTrivia, Token.Kind.isBlank,
        Token.Kind.isComment, Piece.mark?, Option.filter, Function.comp_def]

/-- The word of brackets is known from the solid pieces. -/
theorem word_delimiters (source : String) (tokens : List Token) :
    Delimiter.word (delimiters source.toList tokens) =
      (tokens.filterMap (Token.solid? source)).filterMap Piece.mark? := by
  rw [Delimiter.word, delimiters, List.map_filterMap, List.filterMap_filterMap]
  exact List.filterMap_congr fun t _ => t.map_mark_delimiter? source

section

variable {D D' before openers : List Delimiter} {d : Delimiter}

theorem Delimiter.length_eq_of_word_eq (same : word D' = word D) : D'.length = D.length := by
  have length := congrArg List.length same
  rwa [List.length_map, List.length_map] at length

theorem Unmatched.exists_of_word_eq (h : Unmatched D openers)
    (same : Delimiter.word D' = Delimiter.word D) :
    ∃ openers', Unmatched D' openers' ∧ Delimiter.word openers' = Delimiter.word openers := by
  induction h generalizing D' with
  | nil matched => exact ⟨[], .nil (same ▸ matched), rfl⟩
  | @opener D E openers o b _ mark hE ih =>
    rw [Delimiter.word, Delimiter.word, List.map_append] at same
    obtain ⟨D', rest, rfl, hD, hrest⟩ := List.map_eq_append_iff.mp same
    obtain ⟨o', E', rfl, ho, hE'⟩ := List.map_eq_cons_iff.mp hrest
    obtain ⟨openers', unmatched, word⟩ := ih hD
    refine ⟨o' :: openers', .opener b unmatched (ho.trans mark) (by rwa [Delimiter.word, hE']), ?_⟩
    rw [Delimiter.word, Delimiter.word, List.map_cons, List.map_cons, ho]
    exact congrArg (o.mark :: ·) word

theorem Breaks.exists_of_word_eq (h : Breaks D before d)
    (same : Delimiter.word D' = Delimiter.word D) :
    ∃ before' d', Breaks D' before' d' ∧ Delimiter.word before' = Delimiter.word before ∧
      d'.mark = d.mark := by
  obtain ⟨⟨after, rfl⟩, viable, notViable⟩ := h
  rw [Delimiter.word, Delimiter.word, List.map_append] at same
  obtain ⟨before', rest, rfl, hbefore, hrest⟩ := List.map_eq_append_iff.mp same
  obtain ⟨d', after', rfl, hd, -⟩ := List.map_eq_cons_iff.mp hrest
  have upto : Delimiter.word (before' ++ [d']) = Delimiter.word (before ++ [d]) := by
    simp [Delimiter.word, hbefore, hd]
  refine ⟨before', d', ⟨⟨after', rfl⟩, ?_, ?_⟩, hbefore, hd⟩
  · rwa [Delimiter.word, hbefore]
  · rwa [upto]

/-- Brackets of the same word are diagnosed alike, but for the places. -/
theorem Diagnosis.exists_of_word_eq {cause : Fault.Cause} (h : Diagnosis D cause)
    (same : Delimiter.word D' = Delimiter.word D) :
    ∃ cause', Diagnosis D' cause' ∧ cause'.code = cause.code ∧ cause'.level? = cause.level? := by
  cases h with
  | unclosed viable notMatched unmatched =>
    obtain ⟨openers', unmatched', word⟩ := unmatched.exists_of_word_eq same
    obtain ⟨o', outer', rfl, -, houter⟩ := List.map_eq_cons_iff.mp word
    refine ⟨_, .unclosed (same ▸ viable) (same ▸ notMatched) unmatched', rfl, ?_⟩
    exact congrArg (fun n => some (n + 1)) (Delimiter.length_eq_of_word_eq houter)
  | stray breaks unmatched =>
    obtain ⟨before', d', breaks', word, -⟩ := breaks.exists_of_word_eq same
    obtain ⟨openers', unmatched', nothing⟩ := unmatched.exists_of_word_eq word
    obtain rfl : openers' = [] := List.map_eq_nil_iff.mp nothing
    exact ⟨_, .stray breaks' unmatched', rfl, rfl⟩
  | mismatch breaks unmatched opener ne =>
    obtain ⟨before', d', breaks', word, mark⟩ := breaks.exists_of_word_eq same
    obtain ⟨openers', unmatched', openersWord⟩ := unmatched.exists_of_word_eq word
    obtain ⟨o', outer', rfl, ho, houter⟩ := List.map_eq_cons_iff.mp openersWord
    refine ⟨_, .mismatch breaks' unmatched' (ho.trans opener) (mark ▸ ne), rfl, ?_⟩
    exact congrArg some (Delimiter.length_eq_of_word_eq houter)

end

/-! ## Whole sources -/

/-- **Blanks and comments have no part in the structure.** However blank space is put between the
tokens of a source or in the place of comments, the new source is read to its end. Without trivia
its trees show what those of the source show, or it is refused for a fault of the same class, with
as many lists open. -/
theorem parse_of_respaces {source source' : String} (h : Respaces source source') :
    (∃ tokens, tokenize source' = .ok tokens) ∧
    (∀ f, parse source = .ok f → ∃ f' sketches, parse source' = .ok f' ∧
      Forest.sketch? source.toList .none f = some sketches ∧
      Forest.sketch? source'.toList .none f' = some sketches) ∧
    (∀ fault, parse source = .error fault → ∃ fault', parse source' = .error fault' ∧
      fault'.cause.code = fault.cause.code ∧ fault'.cause.level? = fault.cause.level?) := by
  obtain ⟨tokens, tokens', htokens, htokens', same⟩ := exists_tokenize_of_respaces h
  refine ⟨⟨tokens', htokens'⟩, ?_, ?_⟩
  · intro f hf
    obtain ⟨ls, g, hlex, hg, rfl⟩ := parse_eq_ok_iff_groups.mp hf
    obtain ⟨ls₀, hlex₀, rfl⟩ := tokenize_eq_ok_iff.mp htokens
    obtain rfl : ls = ls₀ := Except.ok.inj (hlex.symm.trans hlex₀)
    obtain ⟨ls', hlex', rfl⟩ := tokenize_eq_ok_iff.mp htokens'
    rw [List.filterMap_map, List.filterMap_map] at same
    obtain ⟨g', sketches, hg', hs, hs'⟩ := hg.exists_sketch
      (fun l hl => known_of_mem_lex hlex hl) (fun l hl => known_of_mem_lex hlex' hl) same
    refine ⟨g', sketches, ?_, ?_, hs'⟩
    · exact parse_eq_ok_iff_groups.mpr ⟨ls', g', hlex', hg', (Forest.prune_all g').symm⟩
    · rwa [Forest.prune_all]
  · intro fault hfault
    have word : Delimiter.word (delimiters source'.toList tokens') =
        Delimiter.word (delimiters source.toList tokens) := by
      rw [word_delimiters, word_delimiters, same]
    rcases parse_fits {} htokens with ⟨f, accepted, -⟩ | ⟨fault₀, refused, diagnosis⟩
    · rw [hfault] at accepted
      cases accepted
    · rw [hfault] at refused
      cases refused
      obtain ⟨cause', diagnosis', code, level⟩ := diagnosis.exists_of_word_eq word
      rcases parse_fits {} htokens' with ⟨f', -, matched⟩ | ⟨fault', refused', fits⟩
      · exact absurd matched diagnosis'.not_wellMatched
      · obtain rfl := fits.unique diagnosis'
        exact ⟨fault', refused', code, level⟩

/-- A list with a blank in the place of a comment, and with a line feed behind the comment at the
end; and a list with a closer of the wrong family. -/
theorem parse_of_respaces_comment :
    Respaces "(a#|c|#b);x" "( a\t\nb);x \n " ∧
    (∃ f f' sketches, parse "(a#|c|#b);x" = .ok f ∧ parse "( a\t\nb);x \n " = .ok f' ∧
      Forest.sketch? "(a#|c|#b);x".toList .none f = some sketches ∧
      Forest.sketch? "( a\t\nb);x \n ".toList .none f' = some sketches) ∧
    Respaces "[a)" "\n[ a )" ∧
    ∃ fault, parse "\n[ a )" = .error fault ∧ fault.cause.code = .mismatch ∧
      fault.cause.level? = some 0 := by
  have list : Respaces "(a#|c|#b);x" "( a\t\nb);x \n " := by
    refine ⟨_, [⟨.opener, "("⟩, ⟨.word, "a"⟩, ⟨.blockComment, "#|c|#"⟩, ⟨.word, "b"⟩,
      ⟨.closer, ")"⟩, ⟨.lineComment, ";x"⟩], rfl, by decide, ?_⟩
    have text : "( a\t\nb);x \n ".toList = [] ++ ("(".toList ++ ([' '] ++ ("a".toList ++ ([] ++
        (['\t', '\n'] ++ ([] ++ ("b".toList ++ ([] ++ (")".toList ++ ([] ++ (";x".toList ++
          [' ', '\n', ' ']))))))))))) := by decide
    rw [text]
    exact .keep (by decide) _ (.keep (by decide) _ (.blank (by decide) rfl (by decide) (by decide)
      (.keep (by decide) _ (.keep (by decide) _ (.keep (by decide) _ (.done (by decide)))))))
  have wrong : Respaces "[a)" "\n[ a )" := by
    refine ⟨_, [⟨.opener, "["⟩, ⟨.word, "a"⟩, ⟨.closer, ")"⟩], rfl, by decide, ?_⟩
    have text : "\n[ a )".toList = ['\n'] ++ ("[".toList ++ ([' '] ++ ("a".toList ++ ([' '] ++
        (")".toList ++ []))))) := by decide
    rw [text]
    exact .keep (by decide) _ (.keep (by decide) _ (.keep (by decide) _ (.done (by decide))))
  obtain ⟨f', sketches, hf', hs, hs'⟩ := (parse_of_respaces list).2.1 _ rfl
  obtain ⟨fault, refused, code, level⟩ := (parse_of_respaces wrong).2.2 _ rfl
  exact ⟨list, ⟨_, f', sketches, rfl, hf', hs, hs'⟩, wrong, fault, refused, code, level⟩

end Bracketry
