import Bracketry.Proofs.Lexing.Cutting
import Bracketry.Proofs.Nesting.Pruning

/-!
# Lists cut out of a text

A list is read the same when its text is cut out of its source: the tree of that text is the list
itself, with the places of all its nodes counted from where it starts (`parse_subtree`). The lexemes
of a list are a run of those of the source, and are grouped in the run as they are in the whole
(`Groups.exists_run`). The rest is that grouping knows nothing of places (`Groups.mapPlaces`), and
that what is left out is left out by kind (`Forest.prune_mapPlaces`).
-/

namespace Bracketry

open Text

/-! ## Trees with other places -/

mutual

/-- A tree with other places for all its nodes. -/
def Tree.mapPlaces (m : Place → Place) : Tree → Tree
  | .leaf t => .leaf (t.mapPlace m)
  | .list span children => .list (span.mapPlace m) (Forest.mapPlaces m children)

/-- A forest with other places for all its nodes. -/
def Forest.mapPlaces (m : Place → Place) : Forest → Forest
  | [] => []
  | t :: ts => t.mapPlaces m :: Forest.mapPlaces m ts

end

section

variable (m : Place → Place)

@[simp] theorem Tree.span_mapPlaces (t : Tree) : (t.mapPlaces m).span = t.span.mapPlace m := by
  cases t <;> rw [mapPlaces] <;> rfl

theorem Forest.mapPlaces_eq_map (f : Forest) : mapPlaces m f = f.map (Tree.mapPlaces m) := by
  induction f with
  | nil => rw [mapPlaces, List.map_nil]
  | cons t f ih => rw [mapPlaces, ih, List.map_cons]

theorem Forest.mapPlaces_append (f g : Forest) :
    mapPlaces m (f ++ g) = mapPlaces m f ++ mapPlaces m g := by
  simp only [mapPlaces_eq_map, List.map_append]

theorem Forest.bytes_mapPlaces (f : Forest) : Forest.bytes (mapPlaces m f) = Forest.bytes f := by
  simp [mapPlaces_eq_map, bytes, Span.mapPlace, Function.comp_def]

mutual

theorem Tree.prune_mapPlaces (keep : Keep) : ∀ t : Tree,
    (t.mapPlaces m).prune keep = Forest.mapPlaces m (t.prune keep)
  | .leaf t => by
    rw [Tree.mapPlaces, Tree.prune, Tree.prune]
    cases h : keep.admits t.kind <;> simp [Token.mapPlace, h, Forest.mapPlaces, Tree.mapPlaces]
  | .list span children => by
    rw [Tree.mapPlaces, Tree.prune, Tree.prune, Forest.prune_mapPlaces keep children]
    simp only [Forest.mapPlaces, Tree.mapPlaces]

/-- What is left out is left out wherever it stands. -/
theorem Forest.prune_mapPlaces (keep : Keep) : ∀ f : Forest,
    Forest.prune keep (Forest.mapPlaces m f) = Forest.mapPlaces m (Forest.prune keep f)
  | [] => rfl
  | t :: ts => by
    rw [Forest.mapPlaces, Forest.prune, Forest.prune, Tree.prune_mapPlaces keep t,
      Forest.prune_mapPlaces keep ts, Forest.mapPlaces_append]

end

theorem Tree.mapPlaces_enclose (opener closer : Lexeme) (inner : Forest) :
    (Tree.enclose opener inner closer).mapPlaces m =
      .enclose (opener.mapPlace m) (Forest.mapPlaces m inner) (closer.mapPlace m) := by
  simp [enclose, mapPlaces, Forest.mapPlaces, Forest.mapPlaces_append, Forest.bytes_mapPlaces,
    Span.mapPlace, Lexeme.mapPlace, Lexeme.token, Token.mapPlace, Tree.span]

/-- Lexemes are grouped by their shapes and not by where they stand. -/
theorem Groups.mapPlaces {ls : List Lexeme} {f : Forest} (h : Groups ls f) :
    Groups (ls.map (Lexeme.mapPlace m)) (Forest.mapPlaces m f) := by
  induction h with
  | nil => exact .nil
  | leaf plain _ ih => exact .leaf plain ih
  | list hopener hcloser _ _ ihg ihf =>
    rw [Forest.mapPlaces, Tree.mapPlaces_enclose, List.map_cons, List.map_append, List.map_cons]
    exact .list hopener hcloser ihg ihf

end

/-! ## Lists in a grouping -/

namespace Groups

variable {ls run : List Lexeme} {f : Forest} {depth d : Nat} {span : Span} {children : Forest}

/-- The lexemes of a list, at any depth, are a run, and by themselves they are grouped into it. -/
theorem exists_run (h : Groups ls f) (ht : (d, .list span children) ∈ Forest.walk depth f) :
    ∃ s run t, ls = s ++ (run ++ t) ∧ Groups run [.list span children] := by
  induction h generalizing depth with
  | nil => simp [Forest.walk] at ht
  | @leaf l ls f plain _ ih =>
    have behind : (d, .list span children) ∈ Forest.walk depth f := by
      simpa [Forest.walk, Tree.walk] using ht
    obtain ⟨s, run, t, rfl, hrun⟩ := ih behind
    exact ⟨l :: s, run, t, rfl, hrun⟩
  | @list b opener closer inner ls g f hopener hcloser hg _ ihg ihf =>
    rw [Forest.walk, Tree.enclose, Tree.walk, List.cons_append, List.mem_cons, List.mem_append,
      Forest.walk, Forest.walk_append] at ht
    rcases ht with here | within | behind
    · have same : Tree.list span children = .enclose opener g closer := congrArg Prod.snd here
      refine ⟨[], opener :: (inner ++ [closer]), ls, by simp, ?_⟩
      rw [same]
      exact .list hopener hcloser hg .nil
    · have inside : (d, .list span children) ∈ Forest.walk (depth + 1) g := by
        simpa [Forest.walk, Tree.walk] using within
      obtain ⟨s, run, t, rfl, hrun⟩ := ihg inside
      exact ⟨opener :: s, run, t ++ closer :: ls, by simp, hrun⟩
    · obtain ⟨s, run, t, rfl, hrun⟩ := ihf behind
      exact ⟨opener :: (inner ++ closer :: s), run, t, by simp, hrun⟩

/-- Lexemes that are grouped into one list are its brackets and what is grouped between them. -/
theorem exists_enclose (h : Groups run [.list span children]) :
    ∃ b opener inner closer g, run = opener :: (inner ++ [closer]) ∧ opener.shape = .opener b ∧
      closer.shape = .closer b ∧ Groups inner g ∧
      Tree.list span children = .enclose opener g closer := by
  generalize hall : [Tree.list span children] = all at h
  cases h with
  | nil => cases hall
  | leaf => cases hall
  | @list b opener closer inner ls g f hopener hcloser hg hf =>
    obtain ⟨hlist, rfl⟩ := List.cons.inj hall
    cases hf
    exact ⟨b, opener, inner, closer, g, rfl, hopener, hcloser, hg, hlist⟩

/-- The span of a list is that of its lexemes. -/
theorem span_eq {rest u : List Char} {place : Place} (h : Groups run [.list span children])
    (hleads : Lexeme.Leads rest place u run) : span = ⟨place, byteLength u⟩ := by
  have length : span.length = byteLength u := by
    have bytes : span.length = Lexeme.bytes run := by simpa [Tree.span] using h.bytes_eq
    have total := hleads.contiguous.add_sum
    rw [place.offset_after, List.map_map] at total
    exact bytes.trans (Nat.add_left_cancel total)
  obtain ⟨b, opener, inner, closer, g, rfl, -, -, -, hlist⟩ := h.exists_enclose
  obtain ⟨-, start, -⟩ := hleads.exists_splits
  have here : span.start = opener.span.start := congrArg (·.span.start) hlist
  rw [← length, ← start, ← here]

end Groups

mutual

theorem Tree.exists_of_walk_prune {keep : Keep} {depth d : Nat} {span : Span} {kept : Forest} :
    ∀ t : Tree, (d, .list span kept) ∈ Forest.walk depth (t.prune keep) →
      ∃ children, (d, .list span children) ∈ t.walk depth ∧ kept = Forest.prune keep children
  | .leaf t, h => by
    rw [Tree.prune] at h
    split at h <;> simp [Forest.walk, Tree.walk] at h
  | .list s children, h => by
    simp only [Tree.prune, Forest.walk, Tree.walk, List.append_nil, List.mem_cons, Prod.mk.injEq,
      Tree.list.injEq] at h ⊢
    rcases h with ⟨rfl, rfl, rfl⟩ | within
    · exact ⟨children, .inl ⟨rfl, rfl, rfl⟩, rfl⟩
    · obtain ⟨found, hfound, rfl⟩ := Forest.exists_of_walk_prune children within
      exact ⟨found, .inr hfound, rfl⟩

/-- A list where leaves are left out is a list of the whole, with what is kept in it. -/
theorem Forest.exists_of_walk_prune {keep : Keep} {depth d : Nat} {span : Span} {kept : Forest} :
    ∀ f : Forest, (d, .list span kept) ∈ Forest.walk depth (Forest.prune keep f) →
      ∃ children, (d, .list span children) ∈ Forest.walk depth f ∧
        kept = Forest.prune keep children
  | [], h => by simp [Forest.prune, Forest.walk] at h
  | t :: ts, h => by
    rw [Forest.prune, Forest.walk_append, List.mem_append] at h
    rw [Forest.walk]
    rcases h with h | h
    · obtain ⟨children, found, rfl⟩ := Tree.exists_of_walk_prune t h
      exact ⟨children, List.mem_append_left _ found, rfl⟩
    · obtain ⟨children, found, rfl⟩ := Forest.exists_of_walk_prune ts h
      exact ⟨children, List.mem_append_right _ found, rfl⟩

end

/-! ## Lists of a source -/

variable {source : String} {keep : Keep} {f : Forest} {depth : Nat} {span : Span}
  {children : Forest}

/-- A list of a source is what is kept of one that a run of its lexemes is grouped into. -/
theorem exists_run_of_parse (h : parse source keep = .ok f)
    (ht : (depth, .list span children) ∈ Forest.walk 0 f) :
    ∃ s run t whole, lex source.toList = .ok (s ++ (run ++ t)) ∧
      Groups run [.list span whole] ∧ children = Forest.prune keep whole := by
  obtain ⟨lexemes, g, hlex, hg, rfl⟩ := parse_eq_ok_iff_groups.mp h
  obtain ⟨whole, found, hwhole⟩ := Forest.exists_of_walk_prune g ht
  obtain ⟨s, run, t, rfl, hrun⟩ := hg.exists_run found
  exact ⟨s, run, t, whole, hlex, hrun, hwhole⟩

/-- The part of a text that grouped lexemes take has, on its own, their trees, counted from where it
starts; and counted on from there, those are the trees in the text. -/
theorem parse_of_leads {run : List Lexeme} {g : Forest} {rest w : List Char} {origin : Place}
    (hg : Groups run g) (hleads : Lexeme.Leads rest origin w run) (keep : Keep) :
    parse (String.ofList w) keep =
      .ok (Forest.mapPlaces (·.relativeTo origin) (Forest.prune keep g)) ∧
    Forest.mapPlaces (·.shift origin)
      (Forest.mapPlaces (·.relativeTo origin) (Forest.prune keep g)) = Forest.prune keep g := by
  obtain ⟨ls, hls, rfl⟩ := exists_lex_of_leads hleads
  have counted := hg.mapPlaces (·.relativeTo origin)
  have countedOn := counted.mapPlaces (·.shift origin)
  rw [Lexeme.relativeTo_shift] at counted countedOn
  constructor
  · refine parse_eq_ok_iff_groups.mpr ⟨ls, _, ?_, counted, (Forest.prune_mapPlaces _ keep g).symm⟩
    rwa [String.toList_ofList]
  · rw [← Forest.prune_mapPlaces, ← Forest.prune_mapPlaces, ← hg.unique countedOn]

/-- **A list is read alone as it is read in its source.** Its span is a part of the source, and the
one tree of that part is the list, whatever is kept: every node at every depth has the kind, the
length and the children that it has in the source, and its place counted from where the list
starts. -/
theorem parse_subtree (h : parse source keep = .ok f)
    (ht : (depth, .list span children) ∈ Forest.walk 0 f) :
    ∃ text, span.text? source.toList = some text ∧
      parse (String.ofList text) keep =
        .ok [(Tree.list span children).mapPlaces (·.relativeTo span.start)] ∧
      ((Tree.list span children).mapPlaces (·.relativeTo span.start)).mapPlaces
        (·.shift span.start) = .list span children := by
  obtain ⟨s, run, t, whole, hlex, hrun, rfl⟩ := exists_run_of_parse h ht
  obtain ⟨u, w, v, htext, hleads⟩ := exists_leads_of_lex hlex
  obtain rfl := hrun.span_eq hleads
  obtain ⟨read, back⟩ := parse_of_leads hrun hleads keep
  refine ⟨w, ?_, ?_, ?_⟩
  · rw [htext, Span.text?_ofEnd]
  · rw [read]
    simp only [Forest.prune, Tree.prune, Forest.mapPlaces, List.append_nil]
  · simpa only [Forest.prune, Tree.prune, Forest.mapPlaces, List.append_nil,
      List.cons.injEq, and_true] using back

/-- A list over two lines in a list, read without blanks. -/
theorem parse_subtree_lines :
    ∃ f children, parse "é\n(b [c\nd])" ⟨⟨true, false⟩, true⟩ = .ok f ∧
      (1, .list ⟨⟨⟨1, 3⟩, 6⟩, 5⟩ children) ∈ Forest.walk 0 f ∧
      parse "[c\nd]" ⟨⟨true, false⟩, true⟩ = .ok
        [.list ⟨⟨⟨0, 0⟩, 0⟩, 5⟩ [.leaf ⟨.opener, ⟨⟨0, 0⟩, 0⟩, 1⟩, .leaf ⟨.word, ⟨⟨0, 1⟩, 1⟩, 1⟩,
          .leaf ⟨.word, ⟨⟨1, 0⟩, 3⟩, 1⟩, .leaf ⟨.closer, ⟨⟨1, 1⟩, 4⟩, 1⟩]] := by
  have whole : parse "é\n(b [c\nd])" ⟨⟨true, false⟩, true⟩ = .ok
      [.leaf ⟨.word, ⟨⟨0, 0⟩, 0⟩, 2⟩, .list ⟨⟨⟨1, 0⟩, 3⟩, 9⟩
        [.leaf ⟨.opener, ⟨⟨1, 0⟩, 3⟩, 1⟩, .leaf ⟨.word, ⟨⟨1, 1⟩, 4⟩, 1⟩, .list ⟨⟨⟨1, 3⟩, 6⟩, 5⟩
          [.leaf ⟨.opener, ⟨⟨1, 3⟩, 6⟩, 1⟩, .leaf ⟨.word, ⟨⟨1, 4⟩, 7⟩, 1⟩,
            .leaf ⟨.word, ⟨⟨2, 0⟩, 9⟩, 1⟩, .leaf ⟨.closer, ⟨⟨2, 1⟩, 10⟩, 1⟩],
          .leaf ⟨.closer, ⟨⟨2, 2⟩, 11⟩, 1⟩]] := rfl
  have found : (1, Tree.list ⟨⟨⟨1, 3⟩, 6⟩, 5⟩
      [.leaf ⟨.opener, ⟨⟨1, 3⟩, 6⟩, 1⟩, .leaf ⟨.word, ⟨⟨1, 4⟩, 7⟩, 1⟩,
        .leaf ⟨.word, ⟨⟨2, 0⟩, 9⟩, 1⟩, .leaf ⟨.closer, ⟨⟨2, 1⟩, 10⟩, 1⟩]) ∈ Forest.walk 0
      [.leaf ⟨.word, ⟨⟨0, 0⟩, 0⟩, 2⟩, .list ⟨⟨⟨1, 0⟩, 3⟩, 9⟩
        [.leaf ⟨.opener, ⟨⟨1, 0⟩, 3⟩, 1⟩, .leaf ⟨.word, ⟨⟨1, 1⟩, 4⟩, 1⟩, .list ⟨⟨⟨1, 3⟩, 6⟩, 5⟩
          [.leaf ⟨.opener, ⟨⟨1, 3⟩, 6⟩, 1⟩, .leaf ⟨.word, ⟨⟨1, 4⟩, 7⟩, 1⟩,
            .leaf ⟨.word, ⟨⟨2, 0⟩, 9⟩, 1⟩, .leaf ⟨.closer, ⟨⟨2, 1⟩, 10⟩, 1⟩],
          .leaf ⟨.closer, ⟨⟨2, 2⟩, 11⟩, 1⟩]] := by
    simp [Forest.walk, Tree.walk]
  obtain ⟨text, isSlice, read, -⟩ := parse_subtree whole found
  have here : (⟨⟨⟨1, 3⟩, 6⟩, 5⟩ : Span).text? "é\n(b [c\nd])".toList = some "[c\nd]".toList := by
    decide
  obtain rfl : "[c\nd]".toList = text := Option.some.inj (here.symm.trans isSlice)
  exact ⟨_, _, whole, found, read⟩

end Bracketry
