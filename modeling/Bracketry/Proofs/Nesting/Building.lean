import Bracketry.Proofs.Nesting.Derivation
import Bracketry.Tree.Builder

/-!
# Trees are built by the rules

The builder is in the middle of a grouping. What it holds of the innermost list and of those around
it are the groups found so far, less what is not kept (`Builder.Holds`), and one lexeme takes it
from the groups before it to the groups with it (`Builder.Holds.add`). So a text that is accepted is
grouped (`build_sound`), and conversely a grouping is followed to its end (`build_complete`).

`Forest.prune` is what keeping does, said of a whole forest: leaves of some kinds are left out at
every depth, and nothing else is touched. For the choice that keeps all, what is built is the
derivation of the source by its brackets (`parse_eq_ok_iff`).
-/

namespace Bracketry

open Text

/-! ## What is kept of a forest -/

mutual

/-- What is kept of a tree: one tree, or none where a leaf is left out. A list is always kept, with
the span it has. -/
def Tree.prune (keep : Keep) : Tree → Forest
  | .leaf t => if keep.admits t.kind then [.leaf t] else []
  | .list span children => [.list span (Forest.prune keep children)]

/-- What is kept of a forest. -/
def Forest.prune (keep : Keep) : Forest → Forest
  | [] => []
  | t :: ts => t.prune keep ++ Forest.prune keep ts

end

@[simp] theorem Forest.prune_append (keep : Keep) (f g : Forest) :
    Forest.prune keep (f ++ g) = Forest.prune keep f ++ Forest.prune keep g := by
  induction f with
  | nil => rfl
  | cons t f ih => simp [Forest.prune, ih]

mutual

theorem Tree.prune_all : ∀ t : Tree, t.prune {} = [t]
  | .leaf t => by simp [Tree.prune]
  | .list span children => by rw [Tree.prune, Forest.prune_all children]

theorem Forest.prune_all : ∀ f : Forest, Forest.prune {} f = f
  | [] => rfl
  | t :: ts => by rw [Forest.prune, Tree.prune_all t, Forest.prune_all ts, List.singleton_append]

end

namespace Builder

/-! ## Collecting -/

namespace Content

/-- What has been collected, with the trees of a forest behind it. -/
def extend (keep : Keep) (c : Content) (f : Forest) : Content :=
  ⟨(Forest.prune keep f).reverse ++ c.trees, c.bytes + Forest.bytes f⟩

variable {keep : Keep} {c : Content}

theorem extend_extend (f g : Forest) :
    (c.extend keep f).extend keep g = c.extend keep (f ++ g) := by
  simp [extend, Nat.add_assoc]

theorem addToken_eq_extend (t : Token) :
    c.addToken t (keep.admits t.kind) = c.extend keep [.leaf t] := by
  rw [addToken, extend]
  cases h : keep.admits t.kind <;> simp [Forest.prune, Tree.prune, h, Tree.span]

/-- A list that was collected from nothing joins the one around it as a tree. -/
theorem addBranch_eq_extend (f : Forest) (start : Place) :
    c.addBranch ((({} : Content).extend keep f).branch start) =
      c.extend keep [.list ⟨start, Forest.bytes f⟩ f] := by
  simp [addBranch, branch, extend, Tree.ofBranch, Forest.prune, Tree.prune, Tree.span]

end Content

/-! ## What a step does -/

variable {b b' : Builder} {l : Lexeme}

/-- A lexeme becomes the next leaf of the innermost list. -/
theorem addToken_eq (b : Builder) (l : Lexeme) :
    b.addToken l = { b with current := b.current.extend b.keep [.leaf l.token] } := by
  rw [addToken, ← Content.addToken_eq_extend]
  rfl

theorem add_plain (h : l.shape.kind.isDelimiter = false) : b.add l = .ok (b.addToken l) := by
  cases hs : l.shape <;> simp_all [add, Lexeme.Shape.kind, Token.Kind.isDelimiter]

theorem add_opener {bracket : Bracket} (h : l.shape = .opener bracket) :
    b.add l = .ok ((b.openList bracket l.span.start).addToken l) := by
  rw [add, h]

/-- A closer of the innermost opener's family: the list joins the one around it. -/
theorem add_closer {o : Opening} {rest : List Opening} (h : l.shape = .closer o.bracket)
    (around : b.around = o :: rest) :
    ∃ b', b.add l = .ok b' ∧ b'.keep = b.keep ∧ b'.around = rest ∧
      b'.current = o.outer.addBranch ((b.addToken l).current.branch o.place) := by
  refine ⟨{ b with
    current := o.outer.addBranch ((b.addToken l).current.branch o.place)
    around := rest
    closed := ((b.addToken l).current.branch o.place).span :: b.closed }, ?_, rfl, rfl, rfl⟩
  rw [add, h]
  simp only [closeList, addToken, around, if_true]

/-- What is collected when a list closes that was collected from nothing. -/
theorem addBranch_addToken {f : Forest} (current : b.current = ({} : Content).extend b.keep f)
    (outer : Content) (start : Place) :
    outer.addBranch ((b.addToken l).current.branch start) = outer.extend b.keep
      [.list ⟨start, Forest.bytes (f ++ [.leaf l.token])⟩ (f ++ [.leaf l.token])] := by
  rw [addToken_eq, current, Content.extend_extend, Content.addBranch_eq_extend]

theorem add_closer_nil {bracket : Bracket} (h : l.shape = .closer bracket)
    (around : b.around = []) : b.add l = .error (.strayCloser l.span.start bracket) := by
  rw [add, h]
  simp only [closeList, addToken, around]

theorem add_closer_ne {bracket : Bracket} {o : Opening} {rest : List Opening}
    (h : l.shape = .closer bracket) (around : b.around = o :: rest) (ne : o.bracket ≠ bracket) :
    b.add l = .error (.mismatch o.place l.span.start o.bracket bracket rest.length) := by
  rw [add, h]
  simp only [closeList, addToken, around, if_neg ne]

/-- Only closers are refused: where no list is open, or where the innermost one is of another
family. -/
theorem add_error_cases {flaw : Flaw} (h : b.add l = .error flaw) :
    ∃ bracket, l.shape = .closer bracket ∧
      ((b.around = [] ∧ flaw = .strayCloser l.span.start bracket) ∨
        ∃ o rest, b.around = o :: rest ∧ o.bracket ≠ bracket ∧
          flaw = .mismatch o.place l.span.start o.bracket bracket rest.length) := by
  cases hs : l.shape with
  | opener bracket =>
    rw [add_opener hs] at h
    cases h
  | closer bracket =>
    refine ⟨bracket, rfl, ?_⟩
    rcases around : b.around with _ | ⟨o, rest⟩
    · rw [add_closer_nil hs around] at h
      cases h
      exact .inl ⟨rfl, rfl⟩
    · by_cases same : o.bracket = bracket
      · subst same
        obtain ⟨_, added, -⟩ := add_closer hs around
        rw [added] at h
        cases h
      · rw [add_closer_ne hs around same] at h
        cases h
        exact .inr ⟨o, rest, rfl, same, rfl⟩
  | _ =>
    have plain : l.shape.kind.isDelimiter = false := by rw [hs]; rfl
    rw [add_plain plain] at h
    cases h

/-! ## What a builder holds -/

/-- What is held between two lexemes: the groups of the innermost list so far, and around them an
opener for every open list, with the groups that it was met behind. -/
inductive Holding (keep : Keep) : List Lexeme → Content → List Opening → Prop
  | top {ls : List Lexeme} {f : Forest} (hf : Groups ls f) :
    Holding keep ls (({} : Content).extend keep f) []
  | inner {ls inner : List Lexeme} {outer : Content} {around : List Opening} {opener : Lexeme}
    {bracket : Bracket} {f : Forest} (hls : Holding keep ls outer around)
    (hopener : opener.shape = .opener bracket) (hf : Groups inner f) :
    Holding keep (ls ++ opener :: inner) (({} : Content).extend keep (.leaf opener.token :: f))
      (⟨bracket, opener.span.start, outer⟩ :: around)

/-- Groups behind what is held are held in the innermost list. -/
theorem Holding.extend {keep : Keep} {ls ms : List Lexeme} {c : Content} {around : List Opening}
    {f : Forest} (h : Holding keep ls c around) (hf : Groups ms f) :
    Holding keep (ls ++ ms) (c.extend keep f) around := by
  cases h with
  | top hg =>
    rw [Content.extend_extend]
    exact .top (hg.append hf)
  | inner hls hopener hg =>
    rw [Content.extend_extend, List.append_assoc]
    exact .inner hls hopener (hg.append hf)

/-- What is held around the innermost list, and in it. -/
theorem Holding.exists_outer {keep : Keep} {ls : List Lexeme} {c : Content} {o : Opening}
    {rest : List Opening} (h : Holding keep ls c (o :: rest)) :
    ∃ before opener inner f, ls = before ++ opener :: inner ∧ opener.shape = .opener o.bracket ∧
      opener.span.start = o.place ∧ Holding keep before o.outer rest ∧ Groups inner f ∧
      c = ({} : Content).extend keep (.leaf opener.token :: f) := by
  cases h with
  | inner hls hopener hf => exact ⟨_, _, _, _, rfl, hopener, rfl, hls, hf, rfl⟩

theorem Holding.exists_groups {keep : Keep} {ls : List Lexeme} {c : Content}
    (h : Holding keep ls c []) : ∃ f, Groups ls f := by
  cases h with
  | top hf => exact ⟨_, hf⟩

/-- A builder holds lexemes: it is as it has to be behind them. -/
def Holds (b : Builder) (ls : List Lexeme) : Prop := Holding b.keep ls b.current b.around

theorem holds_nil (keep : Keep) : ({ keep } : Builder).Holds [] := .top .nil

/-- A lexeme is held behind those that were. -/
theorem Holds.add {ls : List Lexeme} (h : b.Holds ls) (hl : b.add l = .ok b') :
    b'.Holds (ls ++ [l]) := by
  cases hs : l.shape with
  | opener bracket =>
    rw [add_opener hs, addToken_eq] at hl
    cases hl
    exact .inner h hs .nil
  | closer bracket =>
    rcases around : b.around with _ | ⟨o, rest⟩
    · rw [add_closer_nil hs around] at hl
      cases hl
    · by_cases same : o.bracket = bracket
      · subst same
        rw [Holds, around] at h
        obtain ⟨before, opener, inner, f, rfl, hopener, place, hbefore, hf, current⟩ :=
          h.exists_outer
        obtain ⟨_, added, keep, around, collected⟩ := add_closer hs around
        rw [added] at hl
        cases hl
        have group : Groups (opener :: (inner ++ [l])) [.enclose opener f l] :=
          .list hopener hs hf .nil
        have held := hbefore.extend group
        rw [Tree.enclose, place] at held
        rw [Holds, keep, around, collected, addBranch_addToken current, List.append_assoc,
          List.cons_append]
        exact held
      · rw [add_closer_ne hs around same] at hl
        cases hl
  | _ =>
    have plain : l.shape.kind.isDelimiter = false := by rw [hs]; rfl
    rw [add_plain plain, addToken_eq] at hl
    cases hl
    exact h.extend (.leaf plain .nil)

/-! ## Whole runs -/

/-- All lexemes are held, or those before the first that is refused. -/
theorem Holds.addAll {ls : List Lexeme} (h : b.Holds ls) (ms : List Lexeme) :
    ∃ b', (b.addAll ms = (b', none) ∧ b'.Holds (ls ++ ms)) ∨
      ∃ before l after flaw, ms = before ++ l :: after ∧ b.addAll ms = (b', some flaw) ∧
        b'.Holds (ls ++ before) ∧ b'.add l = .error flaw := by
  induction ms generalizing b ls with
  | nil => exact ⟨b, .inl ⟨rfl, by rwa [List.append_nil]⟩⟩
  | cons l ms ih =>
    cases hl : b.add l with
    | error flaw =>
      refine ⟨b, .inr ⟨[], l, ms, flaw, rfl, ?_, by rwa [List.append_nil], hl⟩⟩
      rw [Builder.addAll, hl]
    | ok next =>
      have run : b.addAll (l :: ms) = next.addAll ms := by rw [Builder.addAll, hl]
      rw [run]
      obtain ⟨b', ⟨hrun, held⟩ | ⟨before, m, after, flaw, rfl, hrun, held, hm⟩⟩ := ih (h.add hl)
      · exact ⟨b', .inl ⟨hrun, by rwa [List.append_cons]⟩⟩
      · exact ⟨b', .inr ⟨l :: before, m, after, flaw, rfl, hrun, by rwa [List.append_cons], hm⟩⟩

theorem addAll_append {s t : List Lexeme} (h : b.addAll s = (b', none)) :
    b.addAll (s ++ t) = b'.addAll t := by
  induction s generalizing b with
  | nil => cases h; rfl
  | cons l s ih =>
    rw [List.cons_append, addAll]
    rw [addAll] at h
    cases hl : b.add l with
    | ok next =>
      rw [hl] at h
      exact ih h
    | error flaw =>
      rw [hl] at h
      cases h

/-- Groups are collected by the list that they stand in, whatever is around it. -/
theorem addAll_groups {ls : List Lexeme} {f : Forest} (h : Groups ls f) (b : Builder) :
    ∃ b', b.addAll ls = (b', none) ∧ b'.keep = b.keep ∧ b'.around = b.around ∧
      b'.current = b.current.extend b.keep f := by
  induction h generalizing b with
  | nil => exact ⟨b, rfl, rfl, rfl, rfl⟩
  | @leaf l ls f plain _ ih =>
    obtain ⟨b', run, keep, around, current⟩ := ih (b.addToken l)
    refine ⟨b', ?_, keep, around, ?_⟩
    · rw [addAll, add_plain plain]
      exact run
    · rw [current, addToken_eq, Content.extend_extend, List.singleton_append]
  | @list bracket opener closer inner ls g f hopener hcloser _ _ ihg ihf =>
    -- `b₁` is in the list, before its closer, and `b₂` is behind it
    obtain ⟨b₁, run₁, keep₁, around₁, current₁⟩ :=
      ihg ((b.openList bracket opener.span.start).addToken opener)
    replace keep₁ : b₁.keep = b.keep := keep₁
    have held : b₁.current = ({} : Content).extend b₁.keep (.leaf opener.token :: g) := by
      rw [current₁, addToken_eq, Content.extend_extend, List.singleton_append, keep₁]
      rfl
    obtain ⟨b₂, added, keep₂, around₂, current₂⟩ := add_closer hcloser around₁
    obtain ⟨b₃, run₃, keep₃, around₃, current₃⟩ := ihf b₂
    have keep : b₂.keep = b.keep := keep₂.trans keep₁
    refine ⟨b₃, ?_, keep₃.trans keep, around₃.trans around₂, ?_⟩
    · rw [addAll, add_opener hopener]
      simp only
      rw [addAll_append run₁, addAll, added]
      exact run₃
    · rw [current₃, current₂, addBranch_addToken held, keep₁, keep, Content.extend_extend]
      rfl

end Builder

/-! ## Whole texts -/

variable {keep : Keep} {last : Place} {ls : List Lexeme}

/-- Groups are built into what is kept of them. -/
theorem build_complete (keep : Keep) (last : Place) {f : Forest} (h : Groups ls f) :
    build keep last ls = .ok ⟨⟨{}, Forest.bytes f⟩, Forest.prune keep f⟩ := by
  obtain ⟨b, run, -, around, current⟩ := Builder.addAll_groups h { keep }
  rw [build, run]
  simp only [Builder.finish, around, current]
  simp [Builder.Content.branch, Builder.Content.extend]

/-- Lexemes that are built into a branch are grouped, and the branch is what is kept of them. -/
theorem build_sound {branch : Branch} (h : build keep last ls = .ok branch) :
    ∃ f, Groups ls f ∧ branch = ⟨⟨{}, Forest.bytes f⟩, Forest.prune keep f⟩ := by
  suffices hf : ∃ f, Groups ls f by
    obtain ⟨f, hf⟩ := hf
    rw [build_complete keep last hf] at h
    cases h
    exact ⟨f, hf, rfl⟩
  rw [build] at h
  obtain ⟨b, ⟨run, held⟩ | ⟨_, _, _, flaw, _, run, _, _⟩⟩ := (Builder.holds_nil keep).addAll ls
  · rw [run] at h
    rw [List.nil_append] at held
    rcases around : b.around with _ | ⟨o, rest⟩
    · rw [Builder.Holds, around] at held
      exact held.exists_groups
    · simp only [Builder.finish, around] at h
      cases h
  · rw [run] at h
    cases h

/-- There is one way to group lexemes. -/
theorem Groups.unique {f g : Forest} (hf : Groups ls f) (hg : Groups ls g) : f = g := by
  have built := (build_complete {} {} hf).symm.trans (build_complete {} {} hg)
  rw [Forest.prune_all, Forest.prune_all] at built
  exact congrArg Branch.children (Except.ok.inj built)

theorem parseBranch_eq_ok_iff {source : String} {branch : Branch} :
    parseBranch source keep = .ok branch ↔ ∃ lexemes, lex source.toList = .ok lexemes ∧
      build keep (.ofLast source.toList) lexemes = .ok branch := by
  rw [parseBranch]
  cases lex source.toList with
  | error flaw => simp
  | ok lexemes => cases hbuild : build keep (.ofLast source.toList) lexemes <;> simp [hbuild]

theorem parse_eq_ok_iff {source : String} {f : Forest} :
    parse source keep = .ok f ↔ ∃ lexemes branch, lex source.toList = .ok lexemes ∧
      build keep (.ofLast source.toList) lexemes = .ok branch ∧ f = branch.children := by
  rw [parse, parseBranch]
  cases lex source.toList with
  | error flaw => simp
  | ok lexemes => cases hbuild : build keep (.ofLast source.toList) lexemes <;> simp [hbuild, eq_comm]

theorem parse_eq_error_iff {source : String} {fault : Fault} :
    parse source keep = .error fault ↔ ∃ flaw, fault = flaw.fault source.toList ∧
      (lex source.toList = .error flaw ∨ ∃ lexemes, lex source.toList = .ok lexemes ∧
        build keep (.ofLast source.toList) lexemes = .error flaw) := by
  rw [parse, parseBranch]
  cases lex source.toList with
  | error flaw => simp [eq_comm]
  | ok lexemes => cases hbuild : build keep (.ofLast source.toList) lexemes <;> simp [hbuild, eq_comm]

/-- The trees of a text are what is kept of its groups. -/
theorem parse_eq_ok_iff_groups {source : String} {f : Forest} :
    parse source keep = .ok f ↔
      ∃ lexemes g, lex source.toList = .ok lexemes ∧ Groups lexemes g ∧ f = g.prune keep := by
  rw [parse_eq_ok_iff]
  constructor
  · rintro ⟨lexemes, branch, hlex, hbuild, rfl⟩
    obtain ⟨g, hg, rfl⟩ := build_sound hbuild
    exact ⟨lexemes, g, hlex, hg, rfl⟩
  · rintro ⟨lexemes, g, hlex, hg, rfl⟩
    exact ⟨lexemes, _, hlex, build_complete keep _ hg, rfl⟩

/-- **Reading finds the structure that brackets give to a source**, and finds it wherever there is
one; there is never more than one. -/
theorem parse_eq_ok_iff_derivation (source : String) :
    (∀ f, parse source = .ok f ↔
      ∃ tokens, tokenize source = .ok tokens ∧ Derivation source.toList tokens f) ∧
    (∀ tokens f g, tokenize source = .ok tokens → Derivation source.toList tokens f →
      Derivation source.toList tokens g → f = g) := by
  constructor
  · intro f
    simp only [parse_eq_ok_iff_groups, Forest.prune_all]
    constructor
    · rintro ⟨lexemes, g, hlex, hg, rfl⟩
      exact ⟨_, tokenize_eq_ok_iff.mpr ⟨lexemes, hlex, rfl⟩, (groups_iff_derivation hlex).mp hg⟩
    · rintro ⟨tokens, htokens, hf⟩
      obtain ⟨lexemes, hlex, rfl⟩ := tokenize_eq_ok_iff.mp htokens
      exact ⟨lexemes, f, hlex, (groups_iff_derivation hlex).mpr hf, rfl⟩
  · intro tokens f g htokens hf hg
    obtain ⟨lexemes, hlex, rfl⟩ := tokenize_eq_ok_iff.mp htokens
    exact ((groups_iff_derivation hlex).mpr hf).unique ((groups_iff_derivation hlex).mpr hg)

/-- A list in a list, and the one forest of its source. -/
theorem parse_eq_ok_iff_derivation_nested :
    ∃ tokens f, tokenize "([])" = .ok tokens ∧ Derivation "([])".toList tokens f ∧
      parse "([])" = .ok f ∧ ∀ g, Derivation "([])".toList tokens g → g = f := by
  have htokens : tokenize "([])" = .ok
      [⟨.opener, ⟨⟨0, 0⟩, 0⟩, 1⟩, ⟨.opener, ⟨⟨0, 1⟩, 1⟩, 1⟩, ⟨.closer, ⟨⟨0, 2⟩, 2⟩, 1⟩,
        ⟨.closer, ⟨⟨0, 3⟩, 3⟩, 1⟩] := by
    decide
  have square : IsList "([])".toList ⟨⟨⟨0, 1⟩, 1⟩, 2⟩
      [.leaf ⟨.opener, ⟨⟨0, 1⟩, 1⟩, 1⟩, .leaf ⟨.closer, ⟨⟨0, 2⟩, 2⟩, 1⟩] .square
      ⟨.opener, ⟨⟨0, 1⟩, 1⟩, 1⟩ ⟨.closer, ⟨⟨0, 2⟩, 2⟩, 1⟩ [] :=
    ⟨rfl, ⟨rfl, by decide⟩, ⟨rfl, by decide⟩, fun _ h => absurd h List.not_mem_nil, rfl, rfl⟩
  have round : IsList "([])".toList ⟨⟨⟨0, 0⟩, 0⟩, 4⟩
      [.leaf ⟨.opener, ⟨⟨0, 0⟩, 0⟩, 1⟩, .list ⟨⟨⟨0, 1⟩, 1⟩, 2⟩
        [.leaf ⟨.opener, ⟨⟨0, 1⟩, 1⟩, 1⟩, .leaf ⟨.closer, ⟨⟨0, 2⟩, 2⟩, 1⟩],
        .leaf ⟨.closer, ⟨⟨0, 3⟩, 3⟩, 1⟩] .round
      ⟨.opener, ⟨⟨0, 0⟩, 0⟩, 1⟩ ⟨.closer, ⟨⟨0, 3⟩, 3⟩, 1⟩
      [.list ⟨⟨⟨0, 1⟩, 1⟩, 2⟩
        [.leaf ⟨.opener, ⟨⟨0, 1⟩, 1⟩, 1⟩, .leaf ⟨.closer, ⟨⟨0, 2⟩, 2⟩, 1⟩]] :=
    ⟨rfl, ⟨rfl, by decide⟩, ⟨rfl, by decide⟩, fun _ h => by simp at h, rfl, rfl⟩
  have derivation : Derivation "([])".toList
      [⟨.opener, ⟨⟨0, 0⟩, 0⟩, 1⟩, ⟨.opener, ⟨⟨0, 1⟩, 1⟩, 1⟩, ⟨.closer, ⟨⟨0, 2⟩, 2⟩, 1⟩,
        ⟨.closer, ⟨⟨0, 3⟩, 3⟩, 1⟩]
      [.list ⟨⟨⟨0, 0⟩, 0⟩, 4⟩ [.leaf ⟨.opener, ⟨⟨0, 0⟩, 0⟩, 1⟩, .list ⟨⟨⟨0, 1⟩, 1⟩, 2⟩
        [.leaf ⟨.opener, ⟨⟨0, 1⟩, 1⟩, 1⟩, .leaf ⟨.closer, ⟨⟨0, 2⟩, 2⟩, 1⟩],
        .leaf ⟨.closer, ⟨⟨0, 3⟩, 3⟩, 1⟩]] :=
    ⟨rfl, ⟨⟨⟨_, _, _, _, round⟩, trivial, ⟨⟨_, _, _, _, square⟩, trivial, trivial, trivial⟩,
      trivial, trivial⟩, trivial⟩, fun _ h => by simp at h⟩
  exact ⟨_, _, htokens, derivation,
    ((parse_eq_ok_iff_derivation "([])").1 _).mpr ⟨_, htokens, derivation⟩,
    fun _ hg => (parse_eq_ok_iff_derivation "([])").2 _ _ _ htokens hg derivation⟩

end Bracketry
