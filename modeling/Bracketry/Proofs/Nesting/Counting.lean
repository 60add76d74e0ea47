import Bracketry.Census
import Bracketry.Proofs.Nesting.Sketching
import Mathlib.Order.Bounds.Basic

/-!
# A census matches the tokens

What a census says of a forest can be told from the tokens of the source, without any tree
(`census_matches_tokens`). There are as many lists as openers and as many as closers. The depth is
the highest that the tokens rise, where an opener is a step up and a closer a step down: over a
grouping the steps end where they began, and one list is one step higher than what is in it
(`Groups.rise_eq`, `Groups.peak_eq`). Leaves are left out one by one and lists never, so only the
counts of kinds tell choices apart.

A census can also be taken on a walk, by a counter that knows how deep it is (`Tally`). It may start
below any number of lists, with anything counted before; it comes back to the depth that it had
(`Forest.tally_eq`), and behind a whole forest it holds the census (`tally_eq_census`).
-/

namespace Bracketry

/-! ## Steps up and down -/

namespace Token

/-- How a token changes the number of open lists. -/
def step (t : Token) : ℤ :=
  match t.kind with
  | .opener => 1
  | .closer => -1
  | _ => 0

/-- The openers among tokens less the closers. -/
def rise (tokens : List Token) : ℤ :=
  tokens.countP (·.kind = .opener) - tokens.countP (·.kind = .closer)

/-- The highest rise of a start of the tokens. -/
def peak : List Token → ℤ
  | [] => 0
  | t :: ts => max 0 (t.step + peak ts)

variable (s t : List Token)

@[simp] theorem rise_nil : rise [] = 0 := rfl

theorem rise_append : rise (s ++ t) = rise s + rise t := by
  simp only [rise, List.countP_append]
  omega

@[simp] theorem rise_cons (x : Token) : rise (x :: s) = x.step + rise s := by
  rw [← List.singleton_append, rise_append]
  congr 1
  simp only [rise, step, List.countP_singleton]
  cases x.kind <;> simp

theorem peak_nonneg : 0 ≤ peak s := by
  cases s with
  | nil => exact le_refl 0
  | cons x s => exact le_max_left _ _

theorem peak_append : peak (s ++ t) = max (peak s) (rise s + peak t) := by
  induction s with
  | nil =>
    have := peak_nonneg t
    simp only [List.nil_append, peak, rise_nil]
    omega
  | cons x s ih =>
    simp only [List.cons_append, peak, rise_cons, ih]
    omega

/-- The peak is the greatest rise of a start. -/
theorem isGreatest_peak : IsGreatest (rise '' {start | start <+: s}) (peak s) := by
  induction s with
  | nil => simp [peak]
  | cons x s ih =>
    obtain ⟨⟨high, hhigh, reached⟩, bound⟩ := ih
    constructor
    · by_cases below : x.step + peak s ≤ 0
      · exact ⟨[], List.nil_prefix, by simp only [peak, rise_nil]; omega⟩
      · refine ⟨x :: high, (List.prefix_cons_inj x).mpr hhigh, ?_⟩
        simp only [peak, rise_cons, reached]
        omega
    · rintro _ ⟨start, hstart, rfl⟩
      cases start with
      | nil => exact le_max_left _ _
      | cons y start =>
        obtain ⟨rfl, shorter⟩ := List.cons_prefix_cons.mp hstart
        have := bound ⟨start, shorter, rfl⟩
        simp only [peak, rise_cons]
        omega

theorem countP_filter_admits (keep : Keep) (kind : Kind) :
    (s.filter (keep.admits ·.kind)).countP (·.kind = kind) =
      if keep.admits kind then s.countP (·.kind = kind) else 0 := by
  rw [List.countP_filter]
  split
  · next admitted =>
    apply List.countP_congr
    intro t _
    simp only [Bool.and_eq_true, decide_eq_true_eq]
    exact ⟨And.left, fun same => ⟨same, same ▸ admitted⟩⟩
  · next omitted =>
    rw [List.countP_eq_zero]
    intro t _
    simp only [Bool.and_eq_true, decide_eq_true_eq]
    rintro ⟨rfl, admitted⟩
    exact omitted admitted

theorem step_eq_zero {t : Token} (h : t.kind.isDelimiter = false) : t.step = 0 := by
  unfold step
  split <;> simp_all [Kind.isDelimiter]

end Token

/-! ## Groupings -/

section

variable {ls : List Lexeme} {f : Forest}

theorem Tree.height_enclose (opener closer : Lexeme) (g : Forest) :
    (Tree.enclose opener g closer).height = Forest.height g + 1 := by
  simp [Tree.enclose, Tree.height, Forest.height]

theorem Tree.lists_enclose (opener closer : Lexeme) (g : Forest) :
    (Tree.enclose opener g closer).lists = Forest.lists g + 1 := by
  simp [Tree.enclose, Tree.lists, Forest.lists]

theorem Lexeme.step_opener {l : Lexeme} {b : Bracket} (h : l.shape = .opener b) :
    l.token.step = 1 := by
  rw [Token.step, Lexeme.token, h]
  rfl

theorem Lexeme.step_closer {l : Lexeme} {b : Bracket} (h : l.shape = .closer b) :
    l.token.step = -1 := by
  rw [Token.step, Lexeme.token, h]
  rfl

theorem Groups.lists_eq (h : Groups ls f) :
    Forest.lists f = (ls.map Lexeme.token).countP (·.kind = .opener) := by
  induction h with
  | nil => rfl
  | @leaf l ls f hl _ ih =>
    have other : l.token.kind ≠ .opener := by
      intro opener
      rw [show l.shape.kind = .opener from opener] at hl
      cases hl
    rw [Forest.lists, Tree.lists, Nat.zero_add, List.map_cons,
      List.countP_cons_of_neg (by simpa using other), ih]
  | @list b opener closer inner ls g f hopener hcloser _ _ ihg ihf =>
    have up : opener.token.kind = .opener := by rw [Lexeme.token, hopener]; rfl
    have down : closer.token.kind = .closer := by rw [Lexeme.token, hcloser]; rfl
    rw [Forest.lists, Tree.lists_enclose, ihg, ihf]
    simp only [List.map_cons, List.map_append, List.countP_cons, List.countP_append, up, down,
      decide_true, if_true, reduceCtorEq, decide_false, Bool.false_eq_true, if_false]
    omega

/-- Behind a grouping as many lists are open as before it. -/
theorem Groups.rise_eq (h : Groups ls f) : Token.rise (ls.map Lexeme.token) = 0 := by
  induction h with
  | nil => rfl
  | leaf hl _ ih =>
    rw [List.map_cons, Token.rise_cons, Token.step_eq_zero hl, ih]
    rfl
  | list hopener hcloser _ _ ihg ihf =>
    rw [List.map_cons, List.map_append, List.map_cons, Token.rise_cons, Token.rise_append,
      Token.rise_cons, Lexeme.step_opener hopener, Lexeme.step_closer hcloser, ihg, ihf]
    rfl

/-- The deepest list of a grouping is open where the tokens are at their peak. -/
theorem Groups.peak_eq (h : Groups ls f) :
    Token.peak (ls.map Lexeme.token) = Forest.height f := by
  induction h with
  | nil => rfl
  | leaf hl _ ih =>
    rw [List.map_cons, Token.peak, Token.step_eq_zero hl, ih, Forest.height, Tree.height]
    omega
  | list hopener hcloser hg _ ihg ihf =>
    rw [List.map_cons, List.map_append, List.map_cons, Token.peak, Token.peak_append, Token.peak,
      hg.rise_eq, Lexeme.step_opener hopener, Lexeme.step_closer hcloser, ihg, ihf, Forest.height,
      Tree.height_enclose]
    omega

end

/-! ## What is kept does not matter for lists -/

mutual

theorem Tree.lists_prune (keep : Keep) : ∀ t : Tree, Forest.lists (t.prune keep) = t.lists
  | .leaf t => by rw [Tree.prune]; split <;> rfl
  | .list span children => by
    simp only [Tree.prune, Forest.lists, Tree.lists, Forest.lists_prune keep children, Nat.add_zero]

theorem Forest.lists_prune (keep : Keep) : ∀ f : Forest,
    Forest.lists (Forest.prune keep f) = Forest.lists f
  | [] => rfl
  | t :: ts => by
    rw [Forest.prune, Forest.lists_append, Tree.lists_prune keep t, Forest.lists_prune keep ts,
      Forest.lists]

end

mutual

theorem Tree.height_prune (keep : Keep) : ∀ t : Tree, Forest.height (t.prune keep) = t.height
  | .leaf t => by rw [Tree.prune]; split <;> rfl
  | .list span children => by
    simp only [Tree.prune, Forest.height, Tree.height, Forest.height_prune keep children,
      Nat.max_zero]

theorem Forest.height_prune (keep : Keep) : ∀ f : Forest,
    Forest.height (Forest.prune keep f) = Forest.height f
  | [] => rfl
  | t :: ts => by
    rw [Forest.prune, Forest.height_append, Tree.height_prune keep t, Forest.height_prune keep ts,
      Forest.height]

end

/-! ## Counts by name -/

namespace Census

/-- The counts of some kinds among tokens, by the names of the kinds. -/
def counts (kinds : List Token.Kind) (tokens : List Token) : List (String × Nat) :=
  (kinds.filterMap (count? tokens)).map fun (kind, n) => (kind.name, n)

/-- The counts of a census, by the names of the kinds. -/
def named (c : Census) : List (String × Nat) := c.tokens.map fun (kind, n) => (kind.name, n)

/-- One more of a name, in counts that are in the order of names. -/
def bump (name : String) : List (String × Nat) → List (String × Nat)
  | [] => [(name, 1)]
  | (other, n) :: rest =>
    if other = name then (other, n + 1) :: rest
    else if name < other then (name, 1) :: (other, n) :: rest
    else (other, n) :: bump name rest

theorem named_ofForest (f : Forest) :
    (ofForest f).named = counts Token.Kind.byName (Forest.leaves f) := rfl

variable {kinds : List Token.Kind} {tokens : List Token} {kind : Token.Kind}

theorem count?_eq_none_iff : count? tokens kind = none ↔ tokens.countP (·.kind = kind) = 0 := by
  rw [count?]
  split <;> simp_all

theorem count?_of_pos (h : 0 < tokens.countP (·.kind = kind)) :
    count? tokens kind = some (kind, tokens.countP (·.kind = kind)) := by
  rw [count?]
  split
  · omega
  · next n hn => rw [hn]

theorem counts_cons_of_none (h : count? tokens kind = none) :
    counts (kind :: kinds) tokens = counts kinds tokens := by
  rw [counts, List.filterMap_cons_none h, counts]

theorem counts_cons_of_pos (h : 0 < tokens.countP (·.kind = kind)) :
    counts (kind :: kinds) tokens =
      (kind.name, tokens.countP (·.kind = kind)) :: counts kinds tokens := by
  rw [counts, List.filterMap_cons_some (count?_of_pos h), counts, List.map_cons]

/-- A kind that is not counted changes no counts. -/
theorem counts_concat_of_notMem {t : Token} (h : t.kind ∉ kinds) :
    counts kinds (tokens ++ [t]) = counts kinds tokens := by
  induction kinds with
  | nil => rfl
  | cons kind kinds ih =>
    obtain ⟨ne, h⟩ := List.ne_and_not_mem_of_not_mem_cons h
    have same : (tokens ++ [t]).countP (·.kind = kind) = tokens.countP (·.kind = kind) := by
      simp [ne]
    rcases Nat.eq_zero_or_pos (tokens.countP (·.kind = kind)) with zero | pos
    · rw [counts_cons_of_none (count?_eq_none_iff.mpr zero),
        counts_cons_of_none (count?_eq_none_iff.mpr (same.trans zero)), ih h]
    · rw [counts_cons_of_pos pos, counts_cons_of_pos (same ▸ pos), same, ih h]

theorem name_mem_of_mem_counts {e : String × Nat} (h : e ∈ counts kinds tokens) :
    ∃ kind ∈ kinds, e.1 = kind.name := by
  obtain ⟨⟨kind, n⟩, hkind, rfl⟩ := List.mem_map.mp h
  obtain ⟨kind', hmem, hcount⟩ := List.mem_filterMap.mp hkind
  rw [count?] at hcount
  split at hcount
  · cases hcount
  · cases hcount
    exact ⟨_, hmem, rfl⟩

theorem bump_of_lt {name : String} {m : List (String × Nat)} (h : ∀ e ∈ m, name < e.1) :
    bump name m = (name, 1) :: m := by
  cases m with
  | nil => rfl
  | cons e m =>
    have lt := h e List.mem_cons_self
    rw [bump, if_neg (fun same => String.lt_irrefl _ (same ▸ lt)), if_pos lt]

/-- Kinds in the order of their names are counted token by token. -/
theorem bump_counts (ascending : kinds.Pairwise (·.name < ·.name)) {t : Token}
    (h : t.kind ∈ kinds) (tokens : List Token) :
    bump t.kind.name (counts kinds tokens) = counts kinds (tokens ++ [t]) := by
  induction kinds with
  | nil => cases h
  | cons kind kinds ih =>
    obtain ⟨least, ascending⟩ := List.pairwise_cons.mp ascending
    by_cases here : t.kind = kind
    · subst here
      -- no kind behind this one has its name, so the rest is not looked at
      have later : t.kind ∉ kinds := fun hmem => String.lt_irrefl _ (least _ hmem)
      have more : (tokens ++ [t]).countP (·.kind = t.kind) =
          tokens.countP (·.kind = t.kind) + 1 := by
        simp
      have some : 0 < (tokens ++ [t]).countP (·.kind = t.kind) := by omega
      rw [counts_cons_of_pos some, more, counts_concat_of_notMem later]
      rcases Nat.eq_zero_or_pos (tokens.countP (·.kind = t.kind)) with zero | pos
      · rw [counts_cons_of_none (count?_eq_none_iff.mpr zero), zero]
        apply bump_of_lt
        intro e he
        obtain ⟨other, hother, name⟩ := name_mem_of_mem_counts he
        exact name ▸ least other hother
      · rw [counts_cons_of_pos pos, bump, if_pos rfl]
    · have later : t.kind ∈ kinds := (List.mem_cons.mp h).resolve_left here
      have same : (tokens ++ [t]).countP (·.kind = kind) = tokens.countP (·.kind = kind) := by
        simp [here]
      have before := least _ later
      rcases Nat.eq_zero_or_pos (tokens.countP (·.kind = kind)) with zero | pos
      · rw [counts_cons_of_none (count?_eq_none_iff.mpr zero),
          counts_cons_of_none (count?_eq_none_iff.mpr (same.trans zero)), ih ascending later]
      · rw [counts_cons_of_pos pos, counts_cons_of_pos (same ▸ pos), same, bump,
          if_neg (fun eq => String.lt_irrefl _ (eq ▸ before)),
          if_neg (fun lt => String.lt_irrefl _ (String.lt_trans lt before)), ih ascending later]

theorem ascending_byName : Token.Kind.byName.Pairwise (·.name < ·.name) := by decide

/-- The counts of a census are those of its leaves, token by token. -/
theorem foldl_bump (tokens : List Token) :
    tokens.foldl (fun m t => bump t.kind.name m) [] = counts Token.Kind.byName tokens := by
  induction tokens using List.reverseRecOn with
  | nil => rfl
  | append_singleton tokens t ih =>
    rw [List.foldl_concat, ih, bump_counts ascending_byName (Token.Kind.mem_byName _)]

def total (m : List (String × Nat)) : Nat := (m.map Prod.snd).sum

theorem total_bump (name : String) (m : List (String × Nat)) :
    total (bump name m) = total m + 1 := by
  induction m with
  | nil => rfl
  | cons e m ih =>
    obtain ⟨other, n⟩ := e
    simp only [total, List.map_cons, List.sum_cons] at ih ⊢
    rw [bump]
    split
    · simp only [List.map_cons, List.sum_cons]
      omega
    · split
      · simp only [List.map_cons, List.sum_cons]
        omega
      · simp only [List.map_cons, List.sum_cons, ih]
        omega

theorem total_counts (tokens : List Token) :
    total (counts Token.Kind.byName tokens) = tokens.length := by
  induction tokens using List.reverseRecOn with
  | nil => rfl
  | append_singleton tokens t ih =>
    rw [← bump_counts ascending_byName (Token.Kind.mem_byName _), total_bump, ih,
      List.length_append, List.length_singleton]

/-- The size of a census is the number of leaves. -/
theorem size_ofForest (f : Forest) : (ofForest f).size = (Forest.leaves f).length := by
  rw [← total_counts, total, counts, List.map_map, size, ofForest, List.sum_eq_foldr,
    List.foldr_map]
  rfl

theorem name_injective : Function.Injective Token.Kind.name := by
  have distinct : ∀ k ∈ Token.Kind.byName, ∀ l ∈ Token.Kind.byName, k.name = l.name → k = l := by
    decide
  exact fun k l => distinct k k.mem_byName l l.mem_byName

theorem lookup_counts : (counts kinds tokens).lookup kind.name =
    if kind ∈ kinds ∧ 0 < tokens.countP (·.kind = kind) then
      some (tokens.countP (·.kind = kind)) else none := by
  induction kinds with
  | nil => rfl
  | cons other kinds ih =>
    rcases Nat.eq_zero_or_pos (tokens.countP (·.kind = other)) with zero | pos
    · rw [counts_cons_of_none (count?_eq_none_iff.mpr zero), ih]
      by_cases same : kind = other
      · subst same
        simp [zero]
      · simp [same]
    · rw [counts_cons_of_pos pos]
      by_cases same : kind = other
      · subst same
        simp [pos]
      · have names : kind.name ≠ other.name := fun eq => same (name_injective eq)
        rw [List.lookup_cons, beq_false_of_ne names, ih]
        simp [same]

end Census

/-! ## Counting on a walk -/

/-- What a counter holds between two steps of a walk. -/
structure Tally where
  /-- The tokens met, by the names of their kinds. -/
  tokens : List (String × Nat) := []
  lists : Nat := 0
  deepest : Nat := 0
  /-- The number of lists that the walk is in. -/
  depth : Nat := 0
deriving DecidableEq

namespace Tally

/-- A token is met. -/
def meet (s : Tally) (t : Token) : Tally := { s with tokens := Census.bump t.kind.name s.tokens }

/-- A list is entered. -/
def enter (s : Tally) : Tally :=
  { s with
    lists := s.lists + 1, depth := s.depth + 1, deepest := max s.deepest (s.depth + 1) }

/-- The innermost list is left. -/
def leave (s : Tally) : Tally := { s with depth := s.depth - 1 }

/-- The counter behind tokens in so many lists, nested so deep. -/
def behind (s : Tally) (tokens : List Token) (lists height : Nat) : Tally where
  tokens := tokens.foldl (fun m t => Census.bump t.kind.name m) s.tokens
  lists := s.lists + lists
  deepest := max s.deepest (s.depth + height)
  depth := s.depth

end Tally

mutual

/-- A walk over a tree. -/
def Tree.tally (s : Tally) : Tree → Tally
  | .leaf t => s.meet t
  | .list _ children => (Forest.tally s.enter children).leave

/-- A walk over a forest. -/
def Forest.tally (s : Tally) : Forest → Tally
  | [] => s
  | t :: ts => Forest.tally (t.tally s) ts

end

mutual

theorem Tree.tally_eq {s : Tally} (h : s.depth ≤ s.deepest) : ∀ t : Tree,
    t.tally s = s.behind t.leaves t.lists t.height
  | .leaf t => by
    simp [Tree.tally, Tally.meet, Tally.behind, Tree.leaves, Tree.lists, Tree.height, h]
  | .list span children => by
    -- the list itself is one level: what is deepest in it is counted from there
    have inner : s.enter.depth ≤ s.enter.deepest := Nat.le_max_right _ _
    rw [Tree.tally, Forest.tally_eq inner children]
    simp only [Tally.leave, Tally.behind, Tally.enter, Tree.leaves, Tree.lists, Tree.height,
      Tally.mk.injEq, true_and, Nat.add_sub_cancel, and_true]
    omega

/-- A walk that starts in any number of lists, with anything counted, adds what is in the forest and
comes back to the depth that it started from. -/
theorem Forest.tally_eq {s : Tally} (h : s.depth ≤ s.deepest) : ∀ f : Forest,
    Forest.tally s f = s.behind (Forest.leaves f) (Forest.lists f) (Forest.height f)
  | [] => by
    simp [Forest.tally, Tally.behind, Forest.leaves, Forest.lists, Forest.height, h]
  | t :: ts => by
    have next : (t.tally s).depth ≤ (t.tally s).deepest := by
      rw [Tree.tally_eq h t]
      exact Nat.le_trans h (Nat.le_max_left _ _)
    rw [Forest.tally, Forest.tally_eq next ts, Tree.tally_eq h t]
    simp only [Tally.behind, Forest.leaves, Forest.lists, Forest.height, List.foldl_append,
      Tally.mk.injEq, true_and, and_true]
    omega

end

/-- A walk over a whole forest holds its census, and is in no list at the end. -/
theorem tally_eq_census (f : Forest) :
    let c := Census.ofForest f
    Forest.tally {} f = { tokens := c.named, lists := c.lists, deepest := c.depth, depth := 0 } := by
  have walk := Forest.tally_eq (s := {}) (Nat.le_refl 0) f
  simp only [Tally.behind, Census.foldl_bump, Nat.zero_add, Nat.zero_max] at walk
  exact walk

/-! ## Whole sources -/

section

variable {source : String} {keep : Keep} {f : Forest}

/-- **A census matches the tokens.** Of a source that is accepted, however much of it is kept, the
census has as many lists as the source has openers, and as many as it has closers, and its depth is
the greatest number of openers less closers at any start of the tokens. A kind is counted under its
name as often as it is among the tokens, if it is and is kept, and under no other name anything is
counted; in all as many tokens are counted as are kept. Lists and depth are the same whatever is
kept. A walk that counts step by step holds the same at its end and is back at depth zero. -/
theorem census_matches_tokens (h : parse source keep = .ok f) :
    ∃ tokens, tokenize source = .ok tokens ∧ let c := Census.ofForest f
      c.lists = tokens.countP (·.kind = .opener) ∧
      c.lists = tokens.countP (·.kind = .closer) ∧
      IsGreatest (Token.rise '' {start | start <+: tokens}) c.depth ∧
      (∀ kind : Token.Kind, c.named.lookup kind.name =
        if keep.admits kind ∧ 0 < tokens.countP (·.kind = kind) then
          some (tokens.countP (·.kind = kind)) else none) ∧
      (∀ e ∈ c.named, ∃ kind : Token.Kind, e.1 = kind.name) ∧
      c.size = tokens.countP (keep.admits ·.kind) ∧
      (∀ keep', ∃ g, parse source keep' = .ok g ∧ (Census.ofForest g).lists = c.lists ∧
        (Census.ofForest g).depth = c.depth) ∧
      Forest.tally {} f =
        { tokens := c.named, lists := c.lists, deepest := c.depth, depth := 0 } := by
  obtain ⟨ls, g, hlex, hg, rfl⟩ := parse_eq_ok_iff_groups.mp h
  have lists : (Census.ofForest (Forest.prune keep g)).lists = Forest.lists g :=
    Forest.lists_prune keep g
  have depth : (Census.ofForest (Forest.prune keep g)).depth = Forest.height g :=
    Forest.height_prune keep g
  have balanced := hg.rise_eq
  rw [Token.rise] at balanced
  have kept : Forest.leaves (Forest.prune keep g) =
      (ls.map Lexeme.token).filter (keep.admits ·.kind) := by
    rw [Forest.leaves_prune, hg.leaves_eq]
  refine ⟨_, tokenize_eq_ok_iff.mpr ⟨ls, hlex, rfl⟩, ?_, ?_, ?_, ?_, ?_, ?_, ?_, ?_⟩
  · rw [lists, hg.lists_eq]
  · rw [lists, hg.lists_eq]
    omega
  · rw [depth, ← hg.peak_eq]
    exact Token.isGreatest_peak _
  · intro kind
    rw [Census.named_ofForest, kept, Census.lookup_counts, Token.countP_filter_admits]
    by_cases hkind : keep.admits kind = true
    · simp [hkind, Token.Kind.mem_byName]
    · simp [hkind]
  · intro e he
    obtain ⟨kind, -, name⟩ := Census.name_mem_of_mem_counts he
    exact ⟨kind, name⟩
  · rw [Census.size_ofForest, kept, List.countP_eq_length_filter]
  · intro keep'
    refine ⟨_, parse_eq_ok_iff_groups.mpr ⟨ls, g, hlex, hg, rfl⟩, ?_, ?_⟩
    · rw [lists]
      exact Forest.lists_prune keep' g
    · rw [depth]
      exact Forest.height_prune keep' g
  · exact tally_eq_census _

end

/-- Two lists in a list, the second of them empty, read without blanks. -/
theorem census_matches_tokens_blank :
    ∃ f, parse "([a b] ()) ;c" ⟨⟨true, false⟩, true⟩ = .ok f ∧ let c := Census.ofForest f
      c.lists = 3 ∧ c.named.lookup "open delimiter" = some 3 ∧ c.named.lookup "word" = some 2 ∧
      c.named.lookup "whitespace" = none ∧ c.size = 9 := by
  have accepted : parse "([a b] ()) ;c" ⟨⟨true, false⟩, true⟩ = .ok
      [.list ⟨⟨⟨0, 0⟩, 0⟩, 10⟩ [.leaf ⟨.opener, ⟨⟨0, 0⟩, 0⟩, 1⟩,
        .list ⟨⟨⟨0, 1⟩, 1⟩, 5⟩ [.leaf ⟨.opener, ⟨⟨0, 1⟩, 1⟩, 1⟩, .leaf ⟨.word, ⟨⟨0, 2⟩, 2⟩, 1⟩,
          .leaf ⟨.word, ⟨⟨0, 4⟩, 4⟩, 1⟩, .leaf ⟨.closer, ⟨⟨0, 5⟩, 5⟩, 1⟩],
        .list ⟨⟨⟨0, 7⟩, 7⟩, 2⟩ [.leaf ⟨.opener, ⟨⟨0, 7⟩, 7⟩, 1⟩, .leaf ⟨.closer, ⟨⟨0, 8⟩, 8⟩, 1⟩],
        .leaf ⟨.closer, ⟨⟨0, 9⟩, 9⟩, 1⟩], .leaf ⟨.lineComment, ⟨⟨0, 11⟩, 11⟩, 2⟩] := rfl
  have lexed : tokenize "([a b] ()) ;c" = .ok
      [⟨.opener, ⟨⟨0, 0⟩, 0⟩, 1⟩, ⟨.opener, ⟨⟨0, 1⟩, 1⟩, 1⟩, ⟨.word, ⟨⟨0, 2⟩, 2⟩, 1⟩,
        ⟨.blank, ⟨⟨0, 3⟩, 3⟩, 1⟩, ⟨.word, ⟨⟨0, 4⟩, 4⟩, 1⟩, ⟨.closer, ⟨⟨0, 5⟩, 5⟩, 1⟩,
        ⟨.blank, ⟨⟨0, 6⟩, 6⟩, 1⟩, ⟨.opener, ⟨⟨0, 7⟩, 7⟩, 1⟩, ⟨.closer, ⟨⟨0, 8⟩, 8⟩, 1⟩,
        ⟨.closer, ⟨⟨0, 9⟩, 9⟩, 1⟩, ⟨.blank, ⟨⟨0, 10⟩, 10⟩, 1⟩,
        ⟨.lineComment, ⟨⟨0, 11⟩, 11⟩, 2⟩] := by
    decide +kernel
  obtain ⟨tokens, htokens, openers, -, -, counted, -, size, -⟩ := census_matches_tokens accepted
  obtain rfl := Except.ok.inj (lexed.symm.trans htokens)
  exact ⟨_, accepted, openers, counted .opener, counted .word, counted .blank, size⟩

end Bracketry
