import Bracketry.Proofs.Lexing.Locating
import Bracketry.Proofs.Nesting.Diagnosis
import Bracketry.Proofs.Nesting.Pruning

/-!
# All places that are handed out are exact

Trees and faults take their places from lexemes. A leaf has the place of its token and a list that
of its opener (`Groups.exists_start`), and leaving leaves out moves nothing. A flaw of the brackets
is the diagnosis of their word, and its places are those of brackets in that word
(`Diagnosis.located`). So with the places of lexemes all others are exact (`places_exact`).
-/

namespace Bracketry

open Text

/-! ## Places of trees -/

/-- A tree of a grouping starts with one of the lexemes. -/
theorem Groups.exists_start {ls : List Lexeme} {f : Forest} (h : Groups ls f) {depth : Nat}
    {e : Forest.Entry} (he : e ∈ Forest.entries depth f) :
    ∃ l ∈ ls, e.span.start = l.span.start := by
  induction h generalizing depth with
  | nil => simp at he
  | @leaf l ls f _ _ ih =>
    rw [Forest.entries_cons, Forest.entries_leaf, List.singleton_append] at he
    rcases List.mem_cons.mp he with rfl | he
    · exact ⟨l, List.mem_cons_self, rfl⟩
    · obtain ⟨m, hm, start⟩ := ih he
      exact ⟨m, List.mem_cons_of_mem l hm, start⟩
  | @list b opener closer inner ls g f _ _ _ _ ihg ihf =>
    rw [Forest.entries_cons, Tree.enclose, Forest.entries_list, Forest.entries_cons,
      Forest.entries_append, Forest.entries_leaf, Forest.entries_leaf] at he
    simp only [List.cons_append, List.nil_append, List.append_assoc, List.mem_cons,
      List.mem_append] at he
    rcases he with rfl | rfl | he | rfl | he
    · exact ⟨opener, by simp, rfl⟩
    · exact ⟨opener, by simp, rfl⟩
    · obtain ⟨m, hm, start⟩ := ihg he
      exact ⟨m, by simp [hm], start⟩
    · exact ⟨closer, by simp, rfl⟩
    · obtain ⟨m, hm, start⟩ := ihf he
      exact ⟨m, by simp [hm], start⟩

/-- Every tree of a source that is accepted, at any depth, starts with one of its lexemes. -/
theorem exists_start_of_parse {source : String} {keep : Keep} {f : Forest}
    (h : parse source keep = .ok f) {depth depth' : Nat} {t : Tree}
    (ht : (depth', t) ∈ Forest.walk depth f) :
    ∃ lexemes, lex source.toList = .ok lexemes ∧ ∃ l ∈ lexemes, t.span.start = l.span.start := by
  obtain ⟨lexemes, g, hlex, hg, rfl⟩ := parse_eq_ok_iff_groups.mp h
  have entry : ⟨depth', t.kind?, t.span⟩ ∈ Forest.entries depth (Forest.prune keep g) :=
    List.mem_map.mpr ⟨_, ht, rfl⟩
  rw [Forest.entries_prune] at entry
  exact ⟨lexemes, hlex, hg.exists_start (List.mem_filter.mp entry).1⟩

/-! ## Places of causes -/

/-- A bracket of a source: it stands at its place, and it is of one of the families. -/
structure Delimiter.Stands (source : List Char) (d : Delimiter) : Prop where
  pointsTo : d.place.PointsTo source [d.mark]
  isBracket : (∃ b : Bracket, d.mark = b.opener) ∨ ∃ b : Bracket, d.mark = b.closer

theorem Lexeme.stands_of_delimiter? {text : List Char} {lexemes : List Lexeme}
    (h : lex text = .ok lexemes) {l : Lexeme} (hl : l ∈ lexemes) {d : Delimiter}
    (hd : l.delimiter? = some d) : d.Stands text := by
  obtain ⟨w, rest, hsplits, here⟩ := exists_pointsTo_of_mem_lex h hl
  cases hs : l.shape with
  | opener b =>
    rw [hs] at hsplits
    rw [delimiter?_opener hs] at hd
    cases hd
    exact ⟨hsplits.eq_opener ▸ here, .inl ⟨b, rfl⟩⟩
  | closer b =>
    rw [hs] at hsplits
    rw [delimiter?_closer hs] at hd
    cases hd
    exact ⟨hsplits.eq_closer ▸ here, .inr ⟨b, rfl⟩⟩
  | _ =>
    have plain : l.shape.kind.isDelimiter = false := by rw [hs]; rfl
    rw [delimiter?_plain plain] at hd
    cases hd

theorem Unmatched.mem {D outer : List Delimiter} {o : Delimiter} (h : Unmatched D (o :: outer)) :
    o ∈ D := by
  cases h with
  | opener _ _ _ _ => simp

/-- An opener never breaks a word: it can always be closed. -/
theorem Breaks.mark_ne_opener {D before openers : List Delimiter} {d : Delimiter}
    (h : Breaks D before d) (unmatched : Unmatched before openers) (b : Bracket) :
    d.mark ≠ b.opener := by
  intro mark
  have follows : Unmatched (before ++ [d]) (d :: openers) :=
    .opener (E := []) b unmatched mark .nil
  exact h.notViable follows.viable

theorem Breaks.mem {D before : List Delimiter} {d : Delimiter} (h : Breaks D before d) :
    d ∈ D ∧ before ⊆ D := by
  obtain ⟨after, rfl⟩ := h.split
  exact ⟨by simp, by simp⟩

/-- What is reported of the brackets of a source stands there. -/
theorem Diagnosis.located {source : List Char} {D : List Delimiter} {cause : Fault.Cause}
    (h : Diagnosis D cause) (stands : ∀ d ∈ D, d.Stands source) : cause.Located source := by
  have closes {before openers : List Delimiter} {d : Delimiter} (breaks : Breaks D before d)
      (unmatched : Unmatched before openers) :
      ∃ b : Bracket, d.mark = b.closer ∧ d.place.PointsTo source [b.closer] := by
    obtain ⟨here, ⟨b, opens⟩ | ⟨b, closes⟩⟩ := stands d breaks.mem.1
    · exact absurd opens (breaks.mark_ne_opener unmatched b)
    · exact ⟨b, closes, closes ▸ here⟩
  cases h with
  | unclosed _ _ unmatched =>
    obtain ⟨b, opener, -⟩ := unmatched.exists_close
    exact .unclosed b (opener ▸ (stands _ unmatched.mem).pointsTo)
  | stray breaks unmatched =>
    obtain ⟨b, -, here⟩ := closes breaks unmatched
    exact .strayCloser b here
  | @mismatch before outer o d b breaks unmatched opener _ =>
    obtain ⟨c, mark, here⟩ := closes breaks unmatched
    rw [mark]
    exact .mismatch b c (opener ▸ (stands o (breaks.mem.2 unmatched.mem)).pointsTo) here

theorem located_of_parse {source : String} {keep : Keep} {fault : Fault}
    (h : parse source keep = .error fault) : fault.cause.Located source.toList := by
  obtain ⟨flaw, rfl, hlex | ⟨lexemes, hlex, hbuild⟩⟩ := parse_eq_error_iff.mp h
  · exact located_of_lex hlex
  · refine (diagnosis_of_build hbuild).located fun d hd => ?_
    obtain ⟨l, hl, hd⟩ := List.mem_filterMap.mp hd
    exact Lexeme.stands_of_delimiter? hlex hl hd

/-! ## Whole sources -/

/-- **Every place that is handed out is exact**: it counts the bytes, the line feeds and the
characters of its line that are before it in the source. This holds of tokens, of leaves and lists
at any depth and of the whole text as one branch, whatever is kept, and of all places in a fault,
which point to the characters at fault. -/
theorem places_exact (source : String) (keep : Keep) :
    (∀ tokens, tokenize source = .ok tokens →
      ∀ t ∈ tokens, t.span.start.IsExact source.toList) ∧
    (∀ f, parse source keep = .ok f →
      ∀ depth t, (depth, t) ∈ Forest.walk 0 f → t.span.start.IsExact source.toList) ∧
    (∀ branch, parseBranch source keep = .ok branch →
      branch.span.start.IsExact source.toList) ∧
    (∀ fault, tokenize source = .error fault ∨ parse source keep = .error fault →
      fault.cause.Located source.toList) := by
  have exact_of_mem {lexemes : List Lexeme} (hlex : lex source.toList = .ok lexemes) {l : Lexeme}
      (hl : l ∈ lexemes) : l.span.start.IsExact source.toList := by
    obtain ⟨w, rest, -, here⟩ := exists_pointsTo_of_mem_lex hlex hl
    exact here.isExact
  refine ⟨fun tokens h t ht => ?_, fun f h depth t ht => ?_, fun branch h => ?_, fun fault h => ?_⟩
  · obtain ⟨lexemes, hlex, rfl⟩ := tokenize_eq_ok_iff.mp h
    obtain ⟨l, hl, rfl⟩ := List.mem_map.mp ht
    exact exact_of_mem hlex hl
  · obtain ⟨lexemes, hlex, l, hl, start⟩ := exists_start_of_parse h ht
    rw [start]
    exact exact_of_mem hlex hl
  · obtain ⟨lexemes, -, hbuild⟩ := parseBranch_eq_ok_iff.mp h
    obtain ⟨g, -, rfl⟩ := build_sound hbuild
    exact (Place.pointsTo_ofEnd [] [] source.toList).isExact
  · rcases h with h | h
    · exact located_of_parse (parse_of_tokenize_error keep h)
    · exact located_of_parse h

/-- A list on a second line, behind a character of two bytes, and a closer there. -/
theorem places_exact_accented :
    (∃ tokens, tokenize "é\n()" = .ok tokens ∧ ⟨.closer, ⟨⟨⟨1, 1⟩, 4⟩, 1⟩⟩ ∈ tokens ∧
      (⟨⟨1, 1⟩, 4⟩ : Place).IsExact "é\n()".toList) ∧
    (∃ f, parse "é\n()" = .ok f ∧
      (1, .leaf ⟨.closer, ⟨⟨⟨1, 1⟩, 4⟩, 1⟩⟩) ∈ Forest.walk 0 f ∧
      (Tree.leaf ⟨.closer, ⟨⟨⟨1, 1⟩, 4⟩, 1⟩⟩).span.start.IsExact "é\n()".toList) ∧
    (∃ branch, parseBranch "é\n()" = .ok branch ∧ branch.span.start.IsExact "é\n()".toList) ∧
    ∃ fault, parse "é\n)" = .error fault ∧ fault.cause = .strayCloser ⟨⟨1, 0⟩, 3⟩ (some 0) ∧
      fault.cause.Located "é\n)".toList := by
  have htokens : tokenize "é\n()" = .ok
      [⟨.word, ⟨⟨0, 0⟩, 0⟩, 2⟩, ⟨.blank, ⟨⟨0, 1⟩, 2⟩, 1⟩, ⟨.opener, ⟨⟨1, 0⟩, 3⟩, 1⟩,
        ⟨.closer, ⟨⟨1, 1⟩, 4⟩, 1⟩] := by
    decide
  have hbranch : parseBranch "é\n()" = .ok ⟨⟨⟨⟨0, 0⟩, 0⟩, 5⟩,
      [.leaf ⟨.word, ⟨⟨0, 0⟩, 0⟩, 2⟩, .leaf ⟨.blank, ⟨⟨0, 1⟩, 2⟩, 1⟩, .list ⟨⟨⟨1, 0⟩, 3⟩, 2⟩
        [.leaf ⟨.opener, ⟨⟨1, 0⟩, 3⟩, 1⟩, .leaf ⟨.closer, ⟨⟨1, 1⟩, 4⟩, 1⟩]]⟩ := rfl
  have hparse : parse "é\n()" = .ok
      [.leaf ⟨.word, ⟨⟨0, 0⟩, 0⟩, 2⟩, .leaf ⟨.blank, ⟨⟨0, 1⟩, 2⟩, 1⟩, .list ⟨⟨⟨1, 0⟩, 3⟩, 2⟩
        [.leaf ⟨.opener, ⟨⟨1, 0⟩, 3⟩, 1⟩, .leaf ⟨.closer, ⟨⟨1, 1⟩, 4⟩, 1⟩]] := by
    rw [parse, hbranch]
  have hfault : parse "é\n)" = .error
      ((Flaw.strayCloser ⟨⟨1, 0⟩, 3⟩ .round).fault "é\n)".toList) := rfl
  have inTokens : (⟨.closer, ⟨⟨⟨1, 1⟩, 4⟩, 1⟩⟩ : Token) ∈
      [⟨.word, ⟨⟨0, 0⟩, 0⟩, 2⟩, ⟨.blank, ⟨⟨0, 1⟩, 2⟩, 1⟩, ⟨.opener, ⟨⟨1, 0⟩, 3⟩, 1⟩,
        ⟨.closer, ⟨⟨1, 1⟩, 4⟩, 1⟩] := by
    decide
  have inWalk : (1, Tree.leaf ⟨.closer, ⟨⟨⟨1, 1⟩, 4⟩, 1⟩⟩) ∈ Forest.walk 0
      [.leaf ⟨.word, ⟨⟨0, 0⟩, 0⟩, 2⟩, .leaf ⟨.blank, ⟨⟨0, 1⟩, 2⟩, 1⟩, .list ⟨⟨⟨1, 0⟩, 3⟩, 2⟩
        [.leaf ⟨.opener, ⟨⟨1, 0⟩, 3⟩, 1⟩, .leaf ⟨.closer, ⟨⟨1, 1⟩, 4⟩, 1⟩]] := by
    simp [Forest.walk, Tree.walk]
  obtain ⟨ofTokens, ofTrees, ofBranch, -⟩ := places_exact "é\n()" {}
  exact ⟨⟨_, htokens, inTokens, ofTokens _ htokens _ inTokens⟩,
    ⟨_, hparse, inWalk, ofTrees _ hparse _ _ inWalk⟩, ⟨_, hbranch, ofBranch _ hbranch⟩,
    _, hfault, rfl, (places_exact "é\n)" {}).2.2.2 _ (.inr hfault)⟩

end Bracketry
