import Bracketry.Proofs.Lexing.Agreement
import Bracketry.Tree
import Mathlib.Algebra.GroupWithZero.Nat

/-!
# Derivations by brackets

When a forest is the structure of a source, said of the forest as it is found: its leaves are the
tokens of the source (`Derivation.leaves`), every list in it stands between two brackets of one
family and holds no other bracket of its own (`IsList`), and no bracket stands outside all lists
(`Derivation.top`). The family of a bracket is not in its token, so it is read from the source.

`Groups` says the same of lexemes, by rules: a lexeme that is no bracket stands alone, and an opener
goes with the closer of its family behind it and all between them. Proofs about building trees are
inductions over these rules. The two agree on the lexemes of a source (`groups_iff_derivation`).
-/

namespace Bracketry

open Text

/-- The bytes of the trees of a forest. -/
def Forest.bytes (f : Forest) : Nat := (f.map (·.span.length)).sum

@[simp] theorem Forest.bytes_nil : Forest.bytes [] = 0 := rfl

@[simp] theorem Forest.bytes_cons (t : Tree) (f : Forest) :
    Forest.bytes (t :: f) = t.span.length + Forest.bytes f := by
  simp [bytes]

@[simp] theorem Forest.bytes_append (f g : Forest) :
    Forest.bytes (f ++ g) = Forest.bytes f + Forest.bytes g := by
  simp [bytes]

/-! ## Forests as they are found -/

/-- A token that opens a list in brackets of a family. -/
def Token.Opens (source : List Char) (t : Token) (b : Bracket) : Prop :=
  t.kind = .opener ∧ t.lexeme? source = some [b.opener]

/-- A token that closes a list in brackets of a family. -/
def Token.Closes (source : List Char) (t : Token) (b : Bracket) : Prop :=
  t.kind = .closer ∧ t.lexeme? source = some [b.closer]

/-- No tree of a forest is a bracket on its own. -/
def Forest.NoDelimiter (f : Forest) : Prop := ∀ t, .leaf t ∈ f → t.kind.isDelimiter = false

/-- What a list is: an opener first, a closer of the same family last, no other bracket among its
own children, the opener's place, and as many bytes as its children have. -/
structure IsList (source : List Char) (span : Span) (children : Forest) (bracket : Bracket)
    (opener closer : Token) (inner : Forest) : Prop where
  children_eq : children = .leaf opener :: (inner ++ [.leaf closer])
  opens : opener.Opens source bracket
  closes : closer.Closes source bracket
  noDelimiter : Forest.NoDelimiter inner
  start : span.start = opener.span.start
  length : span.length = Forest.bytes children

mutual

/-- Every list in a tree is one between brackets. -/
def Tree.Bracketed (source : List Char) : Tree → Prop
  | .leaf _ => True
  | .list span children =>
    (∃ bracket opener closer inner, IsList source span children bracket opener closer inner) ∧
      Forest.Bracketed source children

/-- Every list in a forest, at any depth, is one between brackets. -/
def Forest.Bracketed (source : List Char) : Forest → Prop
  | [] => True
  | t :: ts => t.Bracketed source ∧ Forest.Bracketed source ts

end

@[simp] theorem Forest.bracketed_append (source : List Char) (f g : Forest) :
    Forest.Bracketed source (f ++ g) ↔
      Forest.Bracketed source f ∧ Forest.Bracketed source g := by
  induction f with
  | nil => simp [Forest.Bracketed]
  | cons t f ih => simp [Forest.Bracketed, ih, and_assoc]

/-- A forest is the structure that brackets give to the tokens of a source. -/
structure Derivation (source : List Char) (tokens : List Token) (f : Forest) : Prop where
  /-- The leaves are the tokens, in their order. -/
  leaves : Forest.leaves f = tokens
  /-- Every list, at any depth, is one between brackets. -/
  lists : Forest.Bracketed source f
  /-- No bracket stands outside all lists. -/
  top : Forest.NoDelimiter f

/-! ## Forests by rules -/

/-- The list between two brackets. -/
def Tree.enclose (opener : Lexeme) (inner : Forest) (closer : Lexeme) : Tree :=
  let children := .leaf opener.token :: (inner ++ [.leaf closer.token])
  .list ⟨opener.span.start, Forest.bytes children⟩ children

/-- Lexemes grouped by their brackets. -/
inductive Groups : List Lexeme → Forest → Prop
  | nil : Groups [] []
  | leaf {l : Lexeme} {ls : List Lexeme} {f : Forest} (h : l.shape.kind.isDelimiter = false)
    (hf : Groups ls f) : Groups (l :: ls) (.leaf l.token :: f)
  | list {b : Bracket} {opener closer : Lexeme} {inner ls : List Lexeme} {g f : Forest}
    (hopener : opener.shape = .opener b) (hcloser : closer.shape = .closer b)
    (hg : Groups inner g) (hf : Groups ls f) :
    Groups (opener :: (inner ++ closer :: ls)) (.enclose opener g closer :: f)

theorem Groups.append {s t : List Lexeme} {f g : Forest} (hf : Groups s f) (hg : Groups t g) :
    Groups (s ++ t) (f ++ g) := by
  induction hf with
  | nil => exact hg
  | leaf h _ ih => exact .leaf h ih
  | list hopener hcloser hinner _ _ ih =>
    rw [List.cons_append, List.append_assoc, List.cons_append]
    exact .list hopener hcloser hinner ih

/-- The bytes of lexemes. -/
def Lexeme.bytes (ls : List Lexeme) : Nat := (ls.map (·.span.length)).sum

@[simp] theorem Lexeme.bytes_nil : Lexeme.bytes [] = 0 := rfl

@[simp] theorem Lexeme.bytes_cons (l : Lexeme) (ls : List Lexeme) :
    Lexeme.bytes (l :: ls) = l.span.length + Lexeme.bytes ls := by
  simp [Lexeme.bytes]

@[simp] theorem Lexeme.bytes_append (ls ms : List Lexeme) :
    Lexeme.bytes (ls ++ ms) = Lexeme.bytes ls + Lexeme.bytes ms := by
  simp [Lexeme.bytes]

/-- Grouping lexemes keeps their bytes. -/
theorem Groups.bytes_eq {ls : List Lexeme} {f : Forest} (h : Groups ls f) :
    Forest.bytes f = Lexeme.bytes ls := by
  induction h with
  | nil => rfl
  | leaf _ _ ih => simp [ih, Tree.span, Lexeme.token]
  | list _ _ _ _ ihg ihf =>
    simp only [Forest.bytes_cons, Tree.enclose, Tree.span, Forest.bytes_append, Forest.bytes_nil,
      Lexeme.bytes_cons, Lexeme.bytes_append, Lexeme.token, ihg, ihf]
    omega

/-- The leaves of a grouping are its lexemes. -/
theorem Groups.leaves_eq {ls : List Lexeme} {f : Forest} (h : Groups ls f) :
    Forest.leaves f = ls.map Lexeme.token := by
  induction h with
  | nil => rfl
  | leaf _ _ ih => simp [Forest.leaves, Tree.leaves, ih]
  | list _ _ _ _ ihg ihf => simp [Forest.leaves, Tree.enclose, Tree.leaves, ihg, ihf]

/-! ## What a lexeme knows of its brackets -/

theorem Bracket.opener_injective : Function.Injective Bracket.opener := by
  intro b c h
  have hb : ofOpener? c.opener = some b := ofOpener?_eq_some_iff.mpr h.symm
  have hc : ofOpener? c.opener = some c := ofOpener?_eq_some_iff.mpr rfl
  exact Option.some.inj (hb.symm.trans hc)

theorem Bracket.closer_injective : Function.Injective Bracket.closer := by
  intro b c h
  have hb : ofCloser? c.closer = some b := ofCloser?_eq_some_iff.mpr h.symm
  have hc : ofCloser? c.closer = some c := ofCloser?_eq_some_iff.mpr rfl
  exact Option.some.inj (hb.symm.trans hc)

/-- The shape of a lexeme says of its brackets what its token says together with the source. -/
structure Lexeme.Faithful (source : List Char) (l : Lexeme) : Prop where
  opens_iff : ∀ b, l.token.Opens source b ↔ l.shape = .opener b
  closes_iff : ∀ b, l.token.Closes source b ↔ l.shape = .closer b

theorem Lexeme.Shape.exists_opener {s : Shape} (h : s.kind = .opener) : ∃ b, s = .opener b := by
  cases s <;> simp_all [kind]

theorem Lexeme.Shape.exists_closer {s : Shape} (h : s.kind = .closer) : ∃ b, s = .closer b := by
  cases s <;> simp_all [kind]

theorem Lexeme.Splits.eq_opener {text w : List Char} {b : Bracket}
    (h : Splits text (.opener b) w) : w = [b.opener] := by
  cases h
  rfl

theorem Lexeme.Splits.eq_closer {text w : List Char} {b : Bracket}
    (h : Splits text (.closer b) w) : w = [b.closer] := by
  cases h
  rfl

theorem faithful_of_mem_lex {text : List Char} {lexemes : List Lexeme}
    (h : lex text = .ok lexemes) {l : Lexeme} (hl : l ∈ lexemes) : l.Faithful text := by
  obtain ⟨u, w, v, rfl, hspan, hsplits⟩ := exists_splits_of_mem_lex h hl
  have htext : l.token.lexeme? (u ++ (w ++ v)) = some w := by
    rw [Token.lexeme?, Lexeme.token, hspan, Span.text?_ofEnd]
  constructor
  · intro b
    rw [Token.Opens, htext, Option.some.injEq]
    constructor
    · rintro ⟨hkind, rfl⟩
      obtain ⟨c, hc⟩ := Lexeme.Shape.exists_opener hkind
      rw [hc] at hsplits ⊢
      rw [Bracket.opener_injective (List.singleton_inj.mp hsplits.eq_opener)]
    · intro hs
      rw [hs] at hsplits
      exact ⟨by rw [Lexeme.token, hs]; rfl, hsplits.eq_opener⟩
  · intro b
    rw [Token.Closes, htext, Option.some.injEq]
    constructor
    · rintro ⟨hkind, rfl⟩
      obtain ⟨c, hc⟩ := Lexeme.Shape.exists_closer hkind
      rw [hc] at hsplits ⊢
      rw [Bracket.closer_injective (List.singleton_inj.mp hsplits.eq_closer)]
    · intro hs
      rw [hs] at hsplits
      exact ⟨by rw [Lexeme.token, hs]; rfl, hsplits.eq_closer⟩

/-! ## Rules and forests agree -/

/-- The lists of a grouping are lists between brackets, over all its lexemes. -/
theorem Groups.derivation {source : List Char} {ls : List Lexeme} {f : Forest} (h : Groups ls f)
    (hls : ∀ l ∈ ls, l.Faithful source) : Derivation source (ls.map Lexeme.token) f := by
  suffices bracketed : Forest.Bracketed source f ∧ Forest.NoDelimiter f from
    ⟨h.leaves_eq, bracketed.1, bracketed.2⟩
  induction h with
  | nil => exact ⟨trivial, fun t ht => absurd ht List.not_mem_nil⟩
  | @leaf l ls f hl _ ih =>
    obtain ⟨lists, top⟩ := ih fun x hx => hls x (List.mem_cons_of_mem l hx)
    refine ⟨⟨trivial, lists⟩, fun t ht => ?_⟩
    rcases List.mem_cons.mp ht with ht | ht
    · cases ht
      exact hl
    · exact top t ht
  | @list b opener closer inner ls g f hopener hcloser _ _ ihg ihf =>
    have openerFaithful := hls opener (by simp)
    have closerFaithful := hls closer (by simp)
    obtain ⟨innerLists, innerTop⟩ := ihg fun x hx => hls x (by simp [hx])
    obtain ⟨lists, top⟩ := ihf fun x hx => hls x (by simp [hx])
    refine ⟨⟨⟨?_, ?_⟩, lists⟩, fun t ht => ?_⟩
    · exact ⟨b, opener.token, closer.token, g, rfl, (openerFaithful.opens_iff b).mpr hopener,
        (closerFaithful.closes_iff b).mpr hcloser, innerTop, rfl, rfl⟩
    · simp [Forest.Bracketed, Tree.Bracketed, innerLists]
    · rcases List.mem_cons.mp ht with ht | ht
      · cases ht
      · exact top t ht

theorem Derivation.tail {source : List Char} {tokens : List Token} {t : Token} {f : Forest}
    (h : Derivation source (t :: tokens) (.leaf t :: f)) : Derivation source tokens f :=
  ⟨(List.cons.inj h.leaves).2, h.lists.2, fun _ ht => h.top _ (List.mem_cons_of_mem _ ht)⟩

/-- A derivation that starts with a list, taken apart: the lexemes of its brackets, and derivations
of what is between them and of what is behind. -/
theorem Derivation.exists_list {source : List Char} {ls : List Lexeme} {span : Span}
    {children f : Forest} (h : Derivation source (ls.map Lexeme.token) (.list span children :: f))
    (hls : ∀ l ∈ ls, l.Faithful source) :
    ∃ b opener inner closer rest g, ls = opener :: (inner ++ closer :: rest) ∧
      opener.shape = .opener b ∧ closer.shape = .closer b ∧
      Tree.list span children = .enclose opener g closer ∧
      Derivation source (inner.map Lexeme.token) g ∧
      Derivation source (rest.map Lexeme.token) f := by
  obtain ⟨leaves, lists, top⟩ := h
  obtain ⟨⟨⟨b, o, c, g, hlist⟩, hchildren⟩, hf⟩ := lists
  obtain ⟨rfl, hopens, hcloses, hg, hstart, hlength⟩ := hlist
  have hleaves : o :: (Forest.leaves g ++ c :: Forest.leaves f) = ls.map Lexeme.token := by
    simpa [Forest.leaves, Tree.leaves] using leaves
  obtain ⟨opener, ls, rfl, rfl, hls'⟩ := List.map_eq_cons_iff.mp hleaves.symm
  obtain ⟨inner, ls, rfl, hinner, hls'⟩ := List.map_eq_append_iff.mp hls'
  obtain ⟨closer, rest, rfl, rfl, hrest⟩ := List.map_eq_cons_iff.mp hls'
  have hgLists : Forest.Bracketed source g := by
    simpa [Forest.Bracketed, Tree.Bracketed] using hchildren
  have openerShape := ((hls opener (by simp)).opens_iff b).mp hopens
  have closerShape := ((hls closer (by simp)).closes_iff b).mp hcloses
  have enclosed : Tree.list span (.leaf opener.token :: (g ++ [.leaf closer.token])) =
      .enclose opener g closer := by
    obtain ⟨start, length⟩ := span
    simp only at hstart hlength
    rw [hstart, hlength]
    rfl
  exact ⟨b, opener, inner, closer, rest, g, rfl, openerShape, closerShape, enclosed,
    ⟨hinner.symm, hgLists, hg⟩, ⟨hrest.symm, hf, fun t ht => top t (List.mem_cons_of_mem _ ht)⟩⟩

/-- A derivation of the tokens of faithful lexemes groups the lexemes. The induction is on how many
there are: a list has two leaves more than what is between its brackets. -/
theorem Derivation.groups {source : List Char} {ls : List Lexeme} {f : Forest}
    (h : Derivation source (ls.map Lexeme.token) f) (hls : ∀ l ∈ ls, l.Faithful source) :
    Groups ls f := by
  induction hn : ls.length using Nat.strongRecOn generalizing ls f with
  | ind n ih =>
    match f with
    | [] =>
      obtain rfl : ls = [] := by simpa [Forest.leaves] using h.leaves.symm
      exact .nil
    | .leaf t :: f =>
      have hleaves : t :: Forest.leaves f = ls.map Lexeme.token := h.leaves
      obtain ⟨l, ls, rfl, rfl, -⟩ := List.map_eq_cons_iff.mp hleaves.symm
      have shorter : ls.length < n := by
        simp only [← hn, List.length_cons]
        omega
      refine .leaf (h.top _ List.mem_cons_self) (ih _ shorter h.tail ?_ rfl)
      exact fun l hl => hls l (List.mem_cons_of_mem _ hl)
    | .list span children :: f =>
      obtain ⟨b, opener, inner, closer, rest, g, rfl, hopener, hcloser, enclosed, hg, hf⟩ :=
        h.exists_list hls
      have innerShorter : inner.length < n := by
        simp only [← hn, List.length_cons, List.length_append]
        omega
      have restShorter : rest.length < n := by
        simp only [← hn, List.length_cons, List.length_append]
        omega
      rw [enclosed]
      exact .list hopener hcloser (ih _ innerShorter hg (fun l hl => hls l (by simp [hl])) rfl)
        (ih _ restShorter hf (fun l hl => hls l (by simp [hl])) rfl)

/-- For the lexemes of a text, the rules and the look of the forest say the same. -/
theorem groups_iff_derivation {text : List Char} {lexemes : List Lexeme}
    (h : lex text = .ok lexemes) {f : Forest} :
    Groups lexemes f ↔ Derivation text (lexemes.map Lexeme.token) f :=
  ⟨fun hf => hf.derivation fun _ hl => faithful_of_mem_lex h hl,
    fun hf => hf.groups fun _ hl => faithful_of_mem_lex h hl⟩

end Bracketry
