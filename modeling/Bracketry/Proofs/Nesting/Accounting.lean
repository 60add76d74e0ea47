import Bracketry.Proofs.Lexing.Tiling
import Bracketry.Proofs.Nesting.Cutting

/-!
# Spans account for all bytes

Every byte of a list is one of a child or of a token that was left out, and of no two of them. This
is said of a list by itself (`Branch.Accounted`): which tokens stand directly in it is told by spans
alone (`Branch.Has`), with no look at how trees are built.

Before anything is left out the matter is plain. The trees of a grouping lie side by side, as their
lexemes do (`Groups.laid`), so that each byte is under one tree; and a token under one tree is under
no other. Leaving out leaves takes away their bytes and moves no span. What is shown for side by
side trees (`Forest.Laid.accounted`) holds of the whole of a source and of every list in it
(`spans_accounted`).
-/

namespace Bracketry

open Text

/-! ## What a branch consists of -/

/-- A byte of a source is one of a span. -/
def Span.Covers (s : Span) (byte : Nat) : Prop := s.start.offset ≤ byte ∧ byte < s.stop

/-- All bytes of a span are bytes of another. -/
def Span.Within (s outer : Span) : Prop :=
  outer.start.offset ≤ s.start.offset ∧ s.stop ≤ outer.stop

instance (s outer : Span) : Decidable (s.Within outer) := inferInstanceAs (Decidable (_ ∧ _))

/-- Spans with no byte in common. -/
def Span.Apart (s t : Span) : Prop := s.stop ≤ t.start.offset ∨ t.stop ≤ s.start.offset

section

variable {s t outer : Span} {byte : Nat}

theorem Span.Apart.not_within (h : s.Apart t) (hpos : 0 < s.length) : ¬ s.Within t := by
  rintro ⟨start, stop⟩
  simp only [Apart, Span.stop] at h stop
  omega

theorem Span.Apart.not_covers (h : s.Apart t) (covers : s.Covers byte) : ¬ t.Covers byte := by
  rintro ⟨start, stop⟩
  obtain ⟨start', stop'⟩ := covers
  simp only [Apart] at h
  omega

theorem Span.Covers.of_within (h : s.Covers byte) (within : s.Within outer) :
    outer.Covers byte :=
  ⟨within.1.trans h.1, h.2.trans_le within.2⟩

end

/-- Every byte from the start to the end is one of a span. -/
theorem Contiguous.exists_covers {a b : Nat} {spans : List Span} (h : Contiguous a spans b)
    {byte : Nat} (ha : a ≤ byte) (hb : byte < b) : ∃ s ∈ spans, s.Covers byte := by
  induction h with
  | nil => omega
  | @cons a b s spans hstart _ _ ih =>
    by_cases here : byte < s.stop
    · exact ⟨s, List.mem_cons_self, by omega, here⟩
    · obtain ⟨t, ht, covers⟩ := ih (by omega) hb
      exact ⟨t, List.mem_cons_of_mem s ht, covers⟩

/-- The token that a tree is, if it is a leaf. -/
def Tree.token? : Tree → Option Token
  | leaf t => some t
  | list .. => none

namespace Branch

/-- A token stands directly in a branch: it lies in the branch, and in none of the lists that are
children of it. -/
def Has (b : Branch) (t : Token) : Prop :=
  t.span.Within b.span ∧ ∀ c ∈ b.children, c.isList = true → ¬ t.span.Within c.span

instance (b : Branch) (t : Token) : Decidable (b.Has t) := inferInstanceAs (Decidable (_ ∧ _))

/-- The tokens of a source that stand directly in a branch. -/
def own (tokens : List Token) (b : Branch) : List Token := tokens.filter (b.Has ·)

/-- Those of them that a choice leaves out. -/
def omitted (tokens : List Token) (keep : Keep) (b : Branch) : List Token :=
  (b.own tokens).filter (keep.omits ·.kind)

/-- The bytes of a branch are divided among its children and the tokens left out of it. -/
structure Accounted (tokens : List Token) (keep : Keep) (b : Branch) : Prop where
  inside : ∀ c ∈ b.children, 0 < c.span.length ∧ c.span.Within b.span
  /-- Each child ends before the next one starts. -/
  ordered : b.children.Pairwise fun c d => c.span.stop ≤ d.span.start.offset
  /-- The children that are leaves are the tokens directly in the branch that are kept. -/
  leaves : b.children.filterMap Tree.token? = (b.own tokens).filter (keep.admits ·.kind)
  /-- What no child covers is what is left out. -/
  uncovered : ∀ byte, (b.span.Covers byte ∧ ∀ c ∈ b.children, ¬ c.span.Covers byte) ↔
    ∃ t ∈ b.omitted tokens keep, t.span.Covers byte
  length : Forest.bytes b.children + ((b.omitted tokens keep).map (·.span.length)).sum =
    b.span.length

end Branch

/-! ## Trees side by side -/

/-- Trees side by side from byte `a` to byte `b`, each with its leaves side by side over it. -/
structure Forest.Laid (a b : Nat) (f : Forest) : Prop where
  trees : Contiguous a (f.map Tree.span) b
  leaves : ∀ t ∈ f, Contiguous t.span.start.offset (t.leaves.map Token.span) t.span.stop

namespace Forest

variable {a b c d : Nat} {f g : Forest} {span : Span} {keep : Keep}

theorem laid_nil (a : Nat) : Laid a a [] := ⟨.nil a, by simp⟩

theorem Laid.append (hf : Laid a b f) (hg : Laid b c g) : Laid a c (f ++ g) := by
  refine ⟨?_, fun t ht => ?_⟩
  · rw [List.map_append]
    exact Contiguous.append_iff.mpr ⟨b, hf.trees, hg.trees⟩
  · exact (List.mem_append.mp ht).elim (hf.leaves t) (hg.leaves t)

theorem laid_leaf {t : Token} (h : Contiguous a [t.span] b) : Laid a b [.leaf t] := by
  refine ⟨h, fun u hu => ?_⟩
  obtain rfl := List.mem_singleton.mp hu
  cases h with
  | cons _ hpos _ => exact .cons rfl hpos (.nil _)

theorem Laid.contiguous_leaves (h : Laid a b f) :
    Contiguous a ((Forest.leaves f).map Token.span) b := by
  obtain ⟨trees, leaves⟩ := h
  induction f generalizing a with
  | nil => exact trees
  | cons t f ih =>
    cases trees with
    | cons hstart _ trees =>
      have behind := ih trees fun u hu => leaves u (List.mem_cons_of_mem t hu)
      rw [Forest.leaves, List.map_append]
      exact Contiguous.append_iff.mpr ⟨_, hstart ▸ leaves t List.mem_cons_self, behind⟩

theorem Laid.add_bytes (h : Laid a b f) : a + Forest.bytes f = b := by
  have total := h.trees.add_sum
  rwa [List.map_map] at total

/-- Trees side by side between two leaves. -/
theorem Laid.between {o k : Token} (ho : Contiguous a [o.span] b) (h : Laid b c f)
    (hk : Contiguous c [k.span] d) : Laid a d (.leaf o :: (f ++ [.leaf k])) :=
  (laid_leaf ho).append (h.append (laid_leaf hk))

/-- A list of trees side by side. -/
theorem Laid.list (h : Laid a b f) (hne : f ≠ []) (start : span.start.offset = a)
    (length : span.length = Forest.bytes f) : Laid a b [.list span f] := by
  have total := h.add_bytes
  have hlt : a < b := by
    obtain ⟨t, f, rfl⟩ := List.exists_cons_of_ne_nil hne
    obtain ⟨start, length, stop⟩ := h.trees.bounds (List.mem_map_of_mem List.mem_cons_self)
    rw [Span.stop] at stop
    omega
  have stop : span.stop = b := by rw [Span.stop, start, length, total]
  refine ⟨.cons start (by rw [Tree.span]; omega) ?_, fun t ht => ?_⟩
  · rw [Tree.span, stop]
    exact .nil b
  · obtain rfl := List.mem_singleton.mp ht
    rw [Tree.span, start, stop, Tree.leaves]
    exact h.contiguous_leaves

/-! ## What is left out of them -/

theorem mem_prune_iff {t : Tree} : t ∈ Forest.prune keep f ↔ ∃ u ∈ f, t ∈ u.prune keep := by
  induction f with
  | nil => simp [prune]
  | cons u f ih => simp [prune, ih]

/-- What is kept of a tree is a tree with its span. -/
theorem exists_of_mem_prune {t : Tree} (ht : t ∈ prune keep f) : ∃ u ∈ f, t.span = u.span ∧
    t.isList = u.isList ∧ ∀ l, u = .leaf l → keep.admits l.kind = true := by
  obtain ⟨u, hu, ht⟩ := mem_prune_iff.mp ht
  refine ⟨u, hu, ?_⟩
  cases u with
  | leaf m =>
    rw [Tree.prune] at ht
    split at ht
    · next admitted =>
      obtain rfl := List.mem_singleton.mp ht
      refine ⟨rfl, rfl, ?_⟩
      rintro l ⟨⟩
      exact admitted
    · cases ht
  | list s children =>
    obtain rfl := List.mem_singleton.mp ht
    exact ⟨rfl, rfl, nofun⟩

/-- A tree is kept with its span, or it is a leaf that is left out. -/
theorem kept_or_omitted (keep : Keep) {t : Tree} (ht : t ∈ f) :
    (∃ c ∈ prune keep f, c.span = t.span) ∨ ∃ l, t = .leaf l ∧ keep.omits l.kind = true := by
  cases t with
  | leaf l =>
    cases admitted : keep.admits l.kind with
    | true =>
      refine .inl ⟨.leaf l, mem_prune_iff.mpr ⟨.leaf l, ht, ?_⟩, rfl⟩
      rw [Tree.prune, if_pos admitted]
      exact List.mem_singleton_self _
    | false => exact .inr ⟨l, rfl, by rw [Keep.omits_eq_not_admits, admitted]; rfl⟩
  | list s children =>
    exact .inl ⟨_, mem_prune_iff.mpr ⟨_, ht, List.mem_singleton_self _⟩, rfl⟩

theorem mem_filterMap_token?_iff {l : Token} : l ∈ f.filterMap Tree.token? ↔ .leaf l ∈ f := by
  rw [List.mem_filterMap]
  constructor
  · rintro ⟨t, ht, hl⟩
    cases t with
    | leaf m => cases hl; exact ht
    | list => cases hl
  · exact fun h => ⟨_, h, rfl⟩

/-- Leaves are chosen from a forest tree by tree. -/
theorem filter_leaves {p : Token → Bool} (h : ∀ t ∈ f, t.leaves.filter p = t.token?.toList) :
    (Forest.leaves f).filter p = f.filterMap Tree.token? := by
  induction f with
  | nil => rfl
  | cons t f ih =>
    have behind := ih fun u hu => h u (List.mem_cons_of_mem t hu)
    rw [leaves, List.filter_append, h t List.mem_cons_self, behind]
    cases t <;> rfl

/-- Leaving out leaves moves no span. -/
theorem sublist_prune (keep : Keep) (f : Forest) :
    ((Forest.prune keep f).map Tree.span).Sublist (f.map Tree.span) := by
  induction f with
  | nil => exact .slnil
  | cons t f ih =>
    rw [prune, List.map_append]
    cases t with
    | leaf t =>
      rw [Tree.prune]
      split
      · exact ih.cons_cons _
      · exact ih.cons _
    | list span children => exact ih.cons_cons _

theorem filterMap_token?_prune (keep : Keep) (f : Forest) :
    (Forest.prune keep f).filterMap Tree.token? =
      (f.filterMap Tree.token?).filter (keep.admits ·.kind) := by
  induction f with
  | nil => rfl
  | cons t f ih =>
    cases t with
    | leaf t =>
      rw [prune, Tree.prune]
      cases h : keep.admits t.kind <;> simp [Tree.token?, ih, h]
    | list span children =>
      rw [prune, Tree.prune, List.singleton_append, List.filterMap_cons_none rfl,
        List.filterMap_cons_none rfl, ih]

/-- The bytes that are missing are those of the leaves that are left out. -/
theorem bytes_prune_add (keep : Keep) (f : Forest) :
    Forest.bytes (Forest.prune keep f) +
      (((f.filterMap Tree.token?).filter (keep.omits ·.kind)).map (·.span.length)).sum =
        Forest.bytes f := by
  induction f with
  | nil => rfl
  | cons t f ih =>
    cases t with
    | leaf t =>
      rw [prune, Tree.prune]
      cases h : keep.admits t.kind <;>
        simp [Tree.token?, Tree.span, Keep.omits_eq_not_admits, h] at ih ⊢ <;> omega
    | list span children =>
      rw [prune, Tree.prune, List.singleton_append, List.filterMap_cons_none rfl, bytes_cons,
        bytes_cons, Nat.add_assoc, ih]
      rfl

end Forest

/-! ## Branches of trees side by side -/

namespace Forest.Laid

variable {a b n : Nat} {f : Forest} {span : Span} {keep : Keep} {tokens before after : List Token}
  {t u : Tree} {l : Token}

theorem within (h : f.Laid span.start.offset span.stop) (ht : t ∈ f) :
    0 < t.span.length ∧ t.span.Within span := by
  obtain ⟨start, length, stop⟩ := h.trees.bounds (List.mem_map_of_mem ht)
  exact ⟨length, start, stop⟩

/-- A tree has its leaves in its span. -/
theorem within_of_mem_leaves (h : f.Laid a b) (ht : t ∈ f) (hl : l ∈ t.leaves) :
    0 < l.span.length ∧ l.span.Within t.span := by
  obtain ⟨start, length, stop⟩ := (h.leaves t ht).bounds (List.mem_map_of_mem hl)
  exact ⟨length, start, stop⟩

theorem apart (h : f.Laid a b) (ht : t ∈ f) (hu : u ∈ f) (ne : t ≠ u) : t.span.Apart u.span := by
  have ordered := List.pairwise_map.mp h.trees.pairwise
  have symm : Std.Symm fun t u : Tree => t.span.Apart u.span := ⟨fun _ _ => Or.symm⟩
  have pairs : f.Pairwise fun t u => t.span.Apart u.span := ordered.imp Or.inl
  exact pairs.forall ht hu ne

theorem has_leaf (h : f.Laid span.start.offset span.stop) (hl : .leaf l ∈ f) :
    (⟨span, Forest.prune keep f⟩ : Branch).Has l := by
  obtain ⟨length, within⟩ := h.within hl
  refine ⟨within, fun c hc isList => ?_⟩
  obtain ⟨u, hu, same, kind, -⟩ := Forest.exists_of_mem_prune hc
  rw [same]
  refine (h.apart hl hu ?_).not_within length
  rintro rfl
  rw [isList] at kind
  cases kind

theorem not_has_of_mem_list {s : Span} {children : Forest} (h : f.Laid a b)
    (ht : .list s children ∈ f) (hl : l ∈ Forest.leaves children) :
    ¬ (⟨span, Forest.prune keep f⟩ : Branch).Has l := by
  have kept : .list s (Forest.prune keep children) ∈ Forest.prune keep f :=
    Forest.mem_prune_iff.mpr ⟨_, ht, List.mem_singleton_self _⟩
  have inside : l ∈ (Tree.list s children).leaves := by rwa [Tree.leaves]
  exact fun has => has.2 _ kept rfl (h.within_of_mem_leaves ht inside).2

/-- The tokens directly in a branch are those of its trees that are leaves, before any of them is
left out. -/
theorem own_eq (h : f.Laid span.start.offset span.stop)
    (htokens : tokens = before ++ (Forest.leaves f ++ after))
    (hbefore : Contiguous 0 (before.map Token.span) span.start.offset)
    (hafter : Contiguous span.stop (after.map Token.span) n) :
    Branch.own tokens ⟨span, Forest.prune keep f⟩ = f.filterMap Tree.token? := by
  -- A token outside of the span is apart from it; one under a list is in that list's span, which
  -- pruning keeps, and one that is a tree is apart from all lists beside it.
  have inFront : before.filter ((⟨span, Forest.prune keep f⟩ : Branch).Has ·) = [] := by
    refine List.filter_eq_nil_iff.mpr fun l hl => ?_
    obtain ⟨-, length, stop⟩ := hbefore.bounds (List.mem_map_of_mem hl)
    have apart : l.span.Apart span := .inl stop
    simpa using fun has : Branch.Has _ l => apart.not_within length has.1
  have behind : after.filter ((⟨span, Forest.prune keep f⟩ : Branch).Has ·) = [] := by
    refine List.filter_eq_nil_iff.mpr fun l hl => ?_
    obtain ⟨start, length, -⟩ := hafter.bounds (List.mem_map_of_mem hl)
    have apart : l.span.Apart span := .inr start
    simpa using fun has : Branch.Has _ l => apart.not_within length has.1
  have within : (Forest.leaves f).filter ((⟨span, Forest.prune keep f⟩ : Branch).Has ·) =
      f.filterMap Tree.token? := by
    refine Forest.filter_leaves fun t ht => ?_
    cases t with
    | leaf l => simp [Tree.leaves, Tree.token?, h.has_leaf ht]
    | list s children =>
      refine List.filter_eq_nil_iff.mpr fun l hl => ?_
      rw [Tree.leaves] at hl
      simpa using h.not_has_of_mem_list ht hl
  rw [Branch.own, htokens, List.filter_append, List.filter_append, inFront, behind, within,
    List.nil_append, List.append_nil]

/-- Trees that lie side by side over a span account for it, less what is left out of them. -/
theorem accounted (h : f.Laid span.start.offset span.stop)
    (htokens : tokens = before ++ (Forest.leaves f ++ after))
    (hbefore : Contiguous 0 (before.map Token.span) span.start.offset)
    (hafter : Contiguous span.stop (after.map Token.span) n) :
    Branch.Accounted tokens keep ⟨span, Forest.prune keep f⟩ := by
  have own : Branch.own tokens ⟨span, Forest.prune keep f⟩ = f.filterMap Tree.token? :=
    h.own_eq htokens hbefore hafter
  have omitted {l : Token} : l ∈ Branch.omitted tokens keep ⟨span, Forest.prune keep f⟩ ↔
      .leaf l ∈ f ∧ keep.omits l.kind = true := by
    rw [Branch.omitted, own, List.mem_filter, Forest.mem_filterMap_token?_iff]
  refine ⟨fun c hc => ?_, ?_, ?_, fun byte => ⟨?_, ?_⟩, ?_⟩
  · obtain ⟨u, hu, same, -⟩ := Forest.exists_of_mem_prune hc
    rw [same]
    exact h.within hu
  · exact List.pairwise_map.mp (h.trees.pairwise.sublist (Forest.sublist_prune keep f))
  · rw [own, Forest.filterMap_token?_prune]
  · -- The byte is under some tree; if that is kept, the byte is not uncovered.
    rintro ⟨covers, uncovered⟩
    obtain ⟨s, hs, here⟩ := h.trees.exists_covers covers.1 covers.2
    obtain ⟨t, ht, rfl⟩ := List.mem_map.mp hs
    rcases Forest.kept_or_omitted keep ht with ⟨c, hc, same⟩ | ⟨l, rfl, omits⟩
    · rw [← same] at here
      exact (uncovered c hc here).elim
    · exact ⟨l, omitted.mpr ⟨ht, omits⟩, here⟩
  · -- The byte is under a leaf that is left out, so it is under no other tree.
    rintro ⟨l, hl, covers⟩
    obtain ⟨leaf, omits⟩ := omitted.mp hl
    refine ⟨covers.of_within (h.within leaf).2, fun c hc => ?_⟩
    obtain ⟨u, hu, same, -, admitted⟩ := Forest.exists_of_mem_prune hc
    rw [same]
    refine (h.apart leaf hu ?_).not_covers covers
    rintro rfl
    rw [Keep.omits_eq_not_admits, admitted l rfl] at omits
    cases omits
  · rw [Branch.omitted, own, Forest.bytes_prune_add]
    exact Nat.add_left_cancel (n := span.start.offset) h.add_bytes

end Forest.Laid

/-! ## Groups side by side -/

namespace Groups

variable {ls run : List Lexeme} {f whole : Forest} {a b : Nat} {span : Span}

/-- Groups lie side by side as their lexemes do. -/
theorem laid (h : Groups ls f) (hls : Contiguous a (ls.map Lexeme.span) b) : f.Laid a b := by
  induction h generalizing a b with
  | nil =>
    cases hls
    exact Forest.laid_nil _
  | leaf _ _ ih =>
    cases hls with
    | cons hstart hpos hls =>
      exact (Forest.laid_leaf (.cons hstart hpos (.nil _))).append (ih hls)
  | @list _ opener closer inner ls g f _ _ _ _ ihg ihf =>
    cases hls with
    | cons hstart hpos hls =>
      rw [List.map_append] at hls
      obtain ⟨c, hinner, hls⟩ := Contiguous.append_iff.mp hls
      cases hls with
      | cons hstart' hpos' hls =>
        have children := Forest.Laid.between (o := opener.token) (k := closer.token)
          (.cons hstart hpos (.nil _)) (ihg hinner) (.cons hstart' hpos' (.nil _))
        have enclosed : Forest.Laid a closer.span.stop [.enclose opener g closer] :=
          children.list (List.cons_ne_nil _ _) hstart rfl
        exact enclosed.append (ihf hls)

/-- The children of a list lie side by side over its span. -/
theorem laid_children (h : Groups run [.list span whole])
    (hrun : Contiguous a (run.map Lexeme.span) b) :
    span.start.offset = a ∧ span.stop = b ∧ whole.Laid a b := by
  have list : Contiguous a [span] b := (h.laid hrun).trees
  obtain ⟨_, opener, inner, closer, g, rfl, -, -, hg, hlist⟩ := h.exists_enclose
  obtain ⟨-, rfl⟩ := Tree.list.inj hlist
  have stop : span.stop = b := list.stop_of_getLast? rfl
  cases list with
  | cons start =>
    refine ⟨start, stop, ?_⟩
    cases hrun with
    | cons hstart hpos hrun =>
      rw [List.map_append] at hrun
      obtain ⟨c, hinner, hcloser⟩ := Contiguous.append_iff.mp hrun
      exact .between (.cons hstart hpos (.nil _)) (hg.laid hinner) hcloser

/-- The text of a list starts with an opener and ends with the closer that goes with it: they are of
one family, and what is between them is balanced. -/
theorem exists_text {rest u : List Char} {place : Place} (h : Groups run [.list span whole])
    (hleads : Lexeme.Leads rest place u run) :
    ∃ b inner, u = Bracket.opener b :: (inner ++ [Bracket.closer b]) ∧
      ∃ g, parse (String.ofList inner) = .ok g := by
  obtain ⟨b, opener, ls, closer, g, rfl, hopener, hcloser, hg, -⟩ := h.exists_enclose
  obtain ⟨v, w, rfl, first, hw⟩ := hleads.exists_append (s := [opener])
  obtain ⟨inner, x, rfl, hinner, last⟩ := hw.exists_append
  have opens := first.splits_of_singleton
  have closes := last.splits_of_singleton
  rw [hopener] at opens
  rw [hcloser] at closes
  obtain rfl := opens.eq_opener
  obtain rfl := closes.eq_closer
  exact ⟨b, inner, rfl, _, (parse_of_leads hg hinner {}).1⟩

end Groups

/-! ## Whole sources -/

section

variable {source : String} {keep : Keep} {root : Branch} {tokens : List Token} {depth : Nat}
  {span : Span} {children : Forest}

theorem root_accounted (h : parseBranch source keep = .ok root)
    (htokens : tokenize source = .ok tokens) :
    root.span = ⟨{}, source.utf8ByteSize⟩ ∧ root.Accounted tokens keep := by
  obtain ⟨lexemes, hlex, built⟩ := parseBranch_eq_ok_iff.mp h
  obtain ⟨ls, hls, rfl⟩ := tokenize_eq_ok_iff.mp htokens
  obtain rfl : lexemes = ls := Except.ok.inj (hlex.symm.trans hls)
  obtain ⟨f, hf, rfl⟩ := build_sound built
  have contiguous := contiguous_of_lex hlex
  have laid := hf.laid contiguous
  have length : Forest.bytes f = byteLength source.toList := by simpa using laid.add_bytes
  rw [length]
  refine ⟨by rw [byteLength_toList], ?_⟩
  have overAll : f.Laid (0 : Nat) (⟨{}, byteLength source.toList⟩ : Span).stop := by
    rwa [Span.stop, Nat.zero_add]
  have alone : lexemes.map Lexeme.token = [] ++ (Forest.leaves f ++ []) := by simp [hf.leaves_eq]
  exact overAll.accounted alone (.nil 0) (.nil _)

theorem list_accounted (h : parse source keep = .ok root.children)
    (htokens : tokenize source = .ok tokens)
    (ht : (depth, .list span children) ∈ Forest.walk 0 root.children) :
    Branch.Accounted tokens keep ⟨span, children⟩ := by
  obtain ⟨s, run, t, whole, hlex, hrun, rfl⟩ := exists_run_of_parse h ht
  obtain ⟨ls, hls, rfl⟩ := tokenize_eq_ok_iff.mp htokens
  obtain rfl : s ++ (run ++ t) = ls := Except.ok.inj (hlex.symm.trans hls)
  have contiguous := contiguous_of_lex hlex
  rw [List.map_append, List.map_append] at contiguous
  obtain ⟨a, before, contiguous⟩ := Contiguous.append_iff.mp contiguous
  obtain ⟨b, within, after⟩ := Contiguous.append_iff.mp contiguous
  obtain ⟨rfl, rfl, laid⟩ := hrun.laid_children within
  have leaves : Forest.leaves whole = run.map Lexeme.token := by
    simpa [Forest.leaves, Tree.leaves] using hrun.leaves_eq
  rw [← map_span_token] at before after
  refine laid.accounted ?_ before after
  rw [leaves, List.map_append, List.map_append]

theorem exists_text_of_list (h : parse source keep = .ok root.children)
    (ht : (depth, .list span children) ∈ Forest.walk 0 root.children) :
    ∃ b inner, span.text? source.toList =
        some (Bracket.opener b :: (inner ++ [Bracket.closer b])) ∧
      ∃ g, parse (String.ofList inner) = .ok g := by
  obtain ⟨s, run, t, whole, hlex, hrun, -⟩ := exists_run_of_parse h ht
  obtain ⟨u, w, v, htext, hleads⟩ := exists_leads_of_lex hlex
  obtain rfl := hrun.span_eq hleads
  obtain ⟨b, inner, rfl, balanced⟩ := hrun.exists_text hleads
  refine ⟨b, inner, ?_, balanced⟩
  rw [htext, Span.text?_ofEnd]

/-- **Spans account for all bytes.** The whole of a source is the branch from its first byte to its
last. In it and in every list at any depth, the children lie in order and apart from each other, and
all bytes that are in none of them are those of tokens directly there that are left out. Each list's
own text goes from an opening bracket to the closer that matches it. -/
theorem spans_accounted (h : parseBranch source keep = .ok root) :
    ∃ tokens, tokenize source = .ok tokens ∧
      (root.span.start = {} ∧ root.span.length = source.utf8ByteSize ∧
        root.span.stop = source.utf8ByteSize) ∧
      root.Accounted tokens keep ∧
      Forest.bytes root.children + ((root.omitted tokens keep).map (·.span.length)).sum =
        source.utf8ByteSize ∧
      ∀ depth span children, (depth, .list span children) ∈ Forest.walk 0 root.children →
        Branch.Accounted tokens keep ⟨span, children⟩ ∧
        ∃ b inner, span.text? source.toList =
            some (Bracket.opener b :: (inner ++ [Bracket.closer b])) ∧
          ∃ g, parse (String.ofList inner) = .ok g := by
  have trees : parse source keep = .ok root.children := by rw [parse, h]
  obtain ⟨lexemes, hlex, -⟩ := parseBranch_eq_ok_iff.mp h
  have htokens : tokenize source = .ok (lexemes.map Lexeme.token) :=
    tokenize_eq_ok_iff.mpr ⟨lexemes, hlex, rfl⟩
  obtain ⟨isWhole, accounted⟩ := root_accounted h htokens
  have length := accounted.length
  rw [isWhole] at length
  have stop : root.span.stop = source.utf8ByteSize := by rw [isWhole, Span.stop, Nat.zero_add]
  refine ⟨_, htokens, ⟨by rw [isWhole], by rw [isWhole], stop⟩, accounted, length, ?_⟩
  intro depth span children ht
  exact ⟨list_accounted trees htokens ht, exists_text_of_list trees ht⟩

end

/-- A list with a comment, read without comments and brackets. The blank in front of it is kept, as
is the one in it. -/
theorem spans_accounted_comment :
    let tokens : List Token :=
      [⟨.word, ⟨⟨0, 0⟩, 0⟩, 1⟩, ⟨.blank, ⟨⟨0, 1⟩, 1⟩, 1⟩, ⟨.opener, ⟨⟨0, 2⟩, 2⟩, 1⟩,
        ⟨.word, ⟨⟨0, 3⟩, 3⟩, 1⟩, ⟨.blank, ⟨⟨0, 4⟩, 4⟩, 1⟩, ⟨.lineComment, ⟨⟨0, 5⟩, 5⟩, 4⟩,
        ⟨.closer, ⟨⟨1, 0⟩, 9⟩, 1⟩]
    let list : Branch := ⟨⟨⟨⟨0, 2⟩, 2⟩, 8⟩,
      [.leaf ⟨.word, ⟨⟨0, 3⟩, 3⟩, 1⟩, .leaf ⟨.blank, ⟨⟨0, 4⟩, 4⟩, 1⟩]⟩
    let root : Branch := ⟨⟨{}, 10⟩,
      [.leaf ⟨.word, ⟨⟨0, 0⟩, 0⟩, 1⟩, .leaf ⟨.blank, ⟨⟨0, 1⟩, 1⟩, 1⟩, .ofBranch list]⟩
    tokenize "a (b ;é\n)" = .ok tokens ∧
      parseBranch "a (b ;é\n)" ⟨⟨false, true⟩, false⟩ = .ok root ∧
      root.Accounted tokens ⟨⟨false, true⟩, false⟩ ∧
      root.omitted tokens ⟨⟨false, true⟩, false⟩ = [] ∧
      list.Accounted tokens ⟨⟨false, true⟩, false⟩ ∧
      list.omitted tokens ⟨⟨false, true⟩, false⟩ =
        [⟨.opener, ⟨⟨0, 2⟩, 2⟩, 1⟩, ⟨.lineComment, ⟨⟨0, 5⟩, 5⟩, 4⟩, ⟨.closer, ⟨⟨1, 0⟩, 9⟩, 1⟩] := by
  intro tokens list root
  have read : tokenize "a (b ;é\n)" = .ok tokens := by decide
  have built : parseBranch "a (b ;é\n)" ⟨⟨false, true⟩, false⟩ = .ok root := rfl
  obtain ⟨found, same, -, whole, -, lists⟩ := spans_accounted built
  obtain rfl : tokens = found := Except.ok.inj (read.symm.trans same)
  have inside : (0, .list list.span list.children) ∈ Forest.walk 0 root.children := by
    simp [root, list, Forest.walk, Tree.walk, Tree.ofBranch]
  exact ⟨read, built, whole, by decide, (lists _ _ _ inside).1, by decide⟩

end Bracketry
