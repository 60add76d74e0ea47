import Bracketry.Proofs.Lexing.Tiling
import Bracketry.Proofs.Nesting.Pruning
import Bracketry.Proofs.Nesting.Respacing

/-!
# Sketches show what is kept

Trivia may be left out of the trees of a source or of their sketch, and it is the same sketch
whichever does it (`sketch_faithful`). For a sketch without some trivia is the whole sketch of what
pruning leaves of the trees (`Forest.sketch?_prune`), and to prune is all that a choice does to a
reading. So what two choices show is what the choice of both together shows.

The texts of a whole sketch are those of the leaves (`Forest.exists_sketch`); the leaves are the
tokens that are kept, in their order (`Forest.leaves_prune`); and the texts of all tokens make up
the source.
-/

namespace Bracketry

open Text

/-! ## Choices of trivia -/

namespace Keep

/-- Keeping the trivia that a choice of trivia keeps, and all that is no trivia. -/
def ofTrivia (trivia : Trivia) : Keep := { toTrivia := trivia }

/-- Keeping, of what a choice keeps, the trivia that a choice of trivia keeps too. -/
def andTrivia (keep : Keep) (trivia : Trivia) : Keep where
  comments := keep.comments && trivia.comments
  blanks := keep.blanks && trivia.blanks
  delimiters := keep.delimiters

variable (keep : Keep) (trivia : Trivia) (kind : Token.Kind)

theorem admits_ofTrivia : (ofTrivia trivia).admits kind = trivia.admits kind := by
  simp [ofTrivia, admits]

theorem andTrivia_eq_and : keep.andTrivia trivia = keep.and (.ofTrivia trivia) := by
  simp [andTrivia, Keep.and, ofTrivia]

theorem admits_andTrivia :
    (keep.andTrivia trivia).admits kind = (keep.admits kind && trivia.admits kind) := by
  rw [andTrivia_eq_and, admits_and, admits_ofTrivia]

end Keep

/-! ## What pruning leaves -/

mutual

theorem Tree.leaves_prune (keep : Keep) : ∀ t : Tree,
    Forest.leaves (t.prune keep) = t.leaves.filter (keep.admits ·.kind)
  | .leaf t => by
    rw [Tree.prune, Tree.leaves]
    cases h : keep.admits t.kind <;> simp [Forest.leaves, Tree.leaves, h]
  | .list span children => by
    rw [Tree.prune, Tree.leaves, Forest.leaves, Forest.leaves, List.append_nil, Tree.leaves,
      Forest.leaves_prune keep children]

/-- The leaves that are left are those that are kept, in their order. -/
theorem Forest.leaves_prune (keep : Keep) : ∀ f : Forest,
    Forest.leaves (Forest.prune keep f) = (Forest.leaves f).filter (keep.admits ·.kind)
  | [] => rfl
  | t :: ts => by
    rw [Forest.prune, Forest.leaves_append, Tree.leaves_prune keep t, Forest.leaves_prune keep ts,
      Forest.leaves, List.filter_append]

end

mutual

theorem Tree.sketch?_prune (source : List Char) (trivia : Keep.Trivia) : ∀ t : Tree,
    Forest.sketch? source {} (t.prune (.ofTrivia trivia)) = t.sketch? source trivia
  | .leaf t => by
    rw [Tree.prune, Keep.admits_ofTrivia, Tree.sketch?]
    split
    · rw [Forest.sketch?_cons, Tree.sketch?, Keep.Trivia.admits_all, if_pos rfl, Forest.sketch?]
      cases t.lexeme? source <;> rfl
    · rfl
  | .list span children => by
    rw [Tree.prune, Forest.sketch?_cons, Tree.sketch?, Tree.sketch?,
      Forest.sketch?_prune source trivia children, Forest.sketch?]
    cases Forest.sketch? source trivia children <;> rfl

/-- Leaving trivia out of a sketch is leaving them out of what is sketched. -/
theorem Forest.sketch?_prune (source : List Char) (trivia : Keep.Trivia) : ∀ f : Forest,
    Forest.sketch? source {} (Forest.prune (.ofTrivia trivia) f) = Forest.sketch? source trivia f
  | [] => rfl
  | t :: ts => by
    rw [Forest.prune, Forest.sketch?_append_eq_bind, Tree.sketch?_prune source trivia t,
      Forest.sketch?_prune source trivia ts, Forest.sketch?_cons]

end

/-! ## The texts of a sketch -/

namespace Sketch

theorem atomsOfAll_append (s u : List Sketch) :
    atomsOfAll (s ++ u) = atomsOfAll s ++ atomsOfAll u := by
  induction s with
  | nil => rfl
  | cons x s ih => rw [List.cons_append, atomsOfAll, atomsOfAll, ih, List.append_assoc]

/-- Sketches show tokens: their texts from left to right are those of the tokens. -/
def Shows (source : List Char) (tokens : List Token) (sketches : List Sketch) : Prop :=
  tokens.map (·.lexeme? source) = (atomsOfAll sketches).map (some ·.toList)

variable {source : List Char} {tokens more : List Token} {s u : List Sketch}

theorem Shows.append (hs : Shows source tokens s) (hu : Shows source more u) :
    Shows source (tokens ++ more) (s ++ u) := by
  rw [Shows, List.map_append, atomsOfAll_append, List.map_append, hs, hu]

theorem shows_atom {t : Token} {w : List Char} (h : t.lexeme? source = some w) :
    Shows source [t] [.atom (String.ofList w)] := by
  simp [Shows, atomsOfAll, atoms, h]

theorem Shows.list (h : Shows source tokens s) : Shows source tokens [.list s] := by
  rwa [Shows, atomsOfAll, atomsOfAll, atoms, List.append_nil]

end Sketch

mutual

theorem Tree.exists_sketch {source : List Char} : ∀ t : Tree,
    (∀ l ∈ t.leaves, ∃ w, l.lexeme? source = some w) →
      ∃ s, t.sketch? source {} = some s ∧ Sketch.Shows source t.leaves s
  | .leaf t, h => by
    obtain ⟨w, hw⟩ := h t (List.mem_singleton_self t)
    refine ⟨[.atom (String.ofList w)], ?_, Sketch.shows_atom hw⟩
    rw [Tree.sketch?, Keep.Trivia.admits_all, if_pos rfl, hw, Option.map_some]
  | .list span children, h => by
    rw [Tree.leaves] at h
    obtain ⟨s, hs, shows⟩ := Forest.exists_sketch children h
    refine ⟨[.list s], ?_, shows.list⟩
    rw [Tree.sketch?, hs, Option.map_some]

/-- Where all leaves have a text, there is a sketch, and it shows the leaves. -/
theorem Forest.exists_sketch {source : List Char} : ∀ f : Forest,
    (∀ l ∈ Forest.leaves f, ∃ w, l.lexeme? source = some w) →
      ∃ s, Forest.sketch? source {} f = some s ∧ Sketch.Shows source (Forest.leaves f) s
  | [], _ => ⟨[], rfl, rfl⟩
  | t :: ts, h => by
    rw [Forest.leaves] at h ⊢
    obtain ⟨s, hs, shows⟩ := Tree.exists_sketch t fun l hl => h l (List.mem_append_left _ hl)
    obtain ⟨u, hu, behind⟩ := Forest.exists_sketch ts fun l hl => h l (List.mem_append_right _ hl)
    refine ⟨s ++ u, ?_, shows.append behind⟩
    rw [Forest.sketch?_cons, hs, hu]
    rfl

end

/-! ## Whole sources -/

section

variable {source : String} {keep : Keep} {f : Forest} {tokens : List Token} {s : List Sketch}

/-- What is kept does not matter for whether a source is accepted. -/
theorem exists_parse (h : parse source keep = .ok f) (keep' : Keep) :
    ∃ g, parse source keep' = .ok g := by
  obtain ⟨ls, g, hlex, hg, -⟩ := parse_eq_ok_iff_groups.mp h
  exact ⟨_, parse_eq_ok_iff_groups.mpr ⟨ls, g, hlex, hg, rfl⟩⟩

theorem exists_tokenize_of_parse (h : parse source keep = .ok f) :
    ∃ tokens, tokenize source = .ok tokens := by
  obtain ⟨ls, _, hlex, -⟩ := parse_eq_ok_iff_groups.mp h
  exact ⟨_, tokenize_eq_ok_iff.mpr ⟨ls, hlex, rfl⟩⟩

/-- What is shown after two choices is all that is kept under both together. -/
theorem exists_parse_andTrivia (h : parse source keep = .ok f) (trivia : Keep.Trivia) :
    ∃ g, parse source (keep.andTrivia trivia) = .ok g ∧
      Forest.sketch? source.toList {} g = Forest.sketch? source.toList trivia f := by
  refine ⟨Forest.prune (.ofTrivia trivia) f, ?_, Forest.sketch?_prune _ trivia f⟩
  rw [Keep.andTrivia_eq_and, parse_and, h]
  rfl

theorem exists_sketch_of_parse (h : parse source keep = .ok f)
    (htokens : tokenize source = .ok tokens) :
    ∃ s, Forest.sketch? source.toList {} f = some s ∧
      Sketch.Shows source.toList (tokens.filter (keep.admits ·.kind)) s := by
  obtain ⟨ls, g, hlex, hg, rfl⟩ := parse_eq_ok_iff_groups.mp h
  obtain ⟨ls', hlex', rfl⟩ := tokenize_eq_ok_iff.mp htokens
  obtain rfl : ls = ls' := Except.ok.inj (hlex.symm.trans hlex')
  rw [← hg.leaves_eq, ← Forest.leaves_prune]
  refine Forest.exists_sketch _ fun t ht => ?_
  rw [Forest.leaves_prune, hg.leaves_eq] at ht
  obtain ⟨l, hl, rfl⟩ := List.mem_map.mp (List.mem_filter.mp ht).1
  exact (known_of_mem_lex hlex hl).text

/-- Sketches that show all tokens have all characters. -/
theorem join_of_shows (htokens : tokenize source = .ok tokens)
    (h : Sketch.Shows source.toList tokens s) : String.join (Sketch.atomsOfAll s) = source := by
  obtain ⟨ls, hlex, rfl⟩ := tokenize_eq_ok_iff.mp htokens
  obtain ⟨texts, flat, htexts⟩ := (tiles_lex hlex).exists_texts
  have shown := htexts []
  rw [List.append_nil, ← map_span_token, List.map_map] at shown
  have lifted : ((Sketch.atomsOfAll s).map String.toList).map some = texts.map some := by
    rw [List.map_map]
    exact h.symm.trans shown
  have same := (List.map_inj_right fun _ _ => Option.some.inj).mp lifted
  apply String.toList_inj.mp
  rw [String.toList_join, List.flatMap_def, same, flat]

/-- **A sketch shows what both choices keep.** However a source is read and its trees are sketched,
no text is missing, and the texts from left to right are those of the tokens that are kept both
times. Which trivia are left out when is of no matter: reading under the two choices together and
sketching all gives the same sketch, and so do any other two that together keep as much. With
nothing left out, the texts make up the source. -/
theorem sketch_faithful (h : parse source keep = .ok f) (trivia : Keep.Trivia) :
    ∃ tokens sketches, tokenize source = .ok tokens ∧
      Forest.sketch? source.toList trivia f = some sketches ∧
      Sketch.Shows source.toList
        (tokens.filter fun t => keep.admits t.kind && trivia.admits t.kind) sketches ∧
      (∃ g, parse source (keep.andTrivia trivia) = .ok g ∧
        Forest.sketch? source.toList {} g = some sketches) ∧
      (∀ keep' trivia', keep'.andTrivia trivia' = keep.andTrivia trivia →
        ∃ g, parse source keep' = .ok g ∧
          Forest.sketch? source.toList trivia' g = some sketches) ∧
      ∃ whole all, parse source = .ok whole ∧ Forest.sketch? source.toList {} whole = some all ∧
        String.join (Sketch.atomsOfAll all) = source := by
  obtain ⟨tokens, htokens⟩ := exists_tokenize_of_parse h
  obtain ⟨g, hg, same⟩ := exists_parse_andTrivia h trivia
  obtain ⟨sketches, hs, shows⟩ := exists_sketch_of_parse hg htokens
  simp only [Keep.admits_andTrivia] at shows
  refine ⟨tokens, sketches, htokens, same.symm.trans hs, shows, ⟨g, hg, hs⟩,
    fun keep' trivia' asMuch => ?_, ?_⟩
  · obtain ⟨f', hf'⟩ := exists_parse h keep'
    obtain ⟨g', hg', same'⟩ := exists_parse_andTrivia hf' trivia'
    rw [asMuch] at hg'
    obtain rfl : g = g' := Except.ok.inj (hg.symm.trans hg')
    exact ⟨f', hf', same'.symm.trans hs⟩
  · obtain ⟨whole, hwhole⟩ := exists_parse h {}
    obtain ⟨all, hall, showsAll⟩ := exists_sketch_of_parse hwhole htokens
    simp only [Keep.admits_all, List.filter_true] at showsAll
    exact ⟨whole, all, hwhole, hall, join_of_shows htokens showsAll⟩

end

/-- A list with a comment, read without brackets and comments and sketched without blanks, and read
without brackets and blanks and sketched without comments. -/
theorem sketch_faithful_comment :
    (∃ f, parse "(a ;é\n b)" ⟨⟨false, true⟩, false⟩ = .ok f ∧
      Forest.sketch? "(a ;é\n b)".toList ⟨true, false⟩ f =
        some [.list [.atom "a", .atom "b"]]) ∧
    ∃ f, parse "(a ;é\n b)" ⟨⟨true, false⟩, false⟩ = .ok f ∧
      Forest.sketch? "(a ;é\n b)".toList ⟨false, true⟩ f =
        some [.list [.atom "a", .atom "b"]] := by
  have accepted : parse "(a ;é\n b)" ⟨⟨false, true⟩, false⟩ = .ok
      [.list ⟨⟨⟨0, 0⟩, 0⟩, 10⟩ [.leaf ⟨.word, ⟨⟨0, 1⟩, 1⟩, 1⟩, .leaf ⟨.blank, ⟨⟨0, 2⟩, 2⟩, 1⟩,
        .leaf ⟨.blank, ⟨⟨1, 0⟩, 7⟩, 1⟩, .leaf ⟨.word, ⟨⟨1, 1⟩, 8⟩, 1⟩]] := rfl
  have shown : Forest.sketch? "(a ;é\n b)".toList ⟨true, false⟩
      [.list ⟨⟨⟨0, 0⟩, 0⟩, 10⟩ [.leaf ⟨.word, ⟨⟨0, 1⟩, 1⟩, 1⟩, .leaf ⟨.blank, ⟨⟨0, 2⟩, 2⟩, 1⟩,
        .leaf ⟨.blank, ⟨⟨1, 0⟩, 7⟩, 1⟩, .leaf ⟨.word, ⟨⟨1, 1⟩, 8⟩, 1⟩]] =
        some [.list [.atom "a", .atom "b"]] := rfl
  obtain ⟨_, sketches, -, same, -, -, others, -⟩ := sketch_faithful accepted ⟨true, false⟩
  obtain rfl := Option.some.inj (shown.symm.trans same)
  exact ⟨⟨_, accepted, shown⟩, others ⟨⟨true, false⟩, false⟩ ⟨false, true⟩ rfl⟩

end Bracketry
