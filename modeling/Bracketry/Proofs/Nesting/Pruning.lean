import Bracketry.Proofs.Nesting.Building

/-!
# The choice of what is kept only prunes

Two builders that read the same lexemes under two choices go side by side: if the second keeps less,
it is at every moment what pruning makes of the first (`Builder.add_prune`), and where one is
refused the other is refused for the same flaw. Lengths are counted and brackets are matched before
anything is left out, so neither tells the two apart.

What pruning does is said by the entries of a forest, one for every leaf and every list at any depth
(`Forest.entries`): those of the leaves left out are gone, and the others stand as they stood, with
their depths and spans (`Forest.entries_prune`).
-/

namespace Bracketry

open Text

/-! ## Choices together -/

/-- Keeping what two choices both keep. -/
def Keep.and (k l : Keep) : Keep where
  comments := k.comments && l.comments
  blanks := k.blanks && l.blanks
  delimiters := k.delimiters && l.delimiters

/-- Whether leaves of a kind are left out: blanks, comments or delimiters that are not wanted. -/
def Keep.omits (k : Keep) (kind : Token.Kind) : Bool :=
  !k.blanks && kind.isBlank || !k.comments && kind.isComment || !k.delimiters && kind.isDelimiter

namespace Keep

@[simp] theorem all_and (k : Keep) : ({} : Keep).and k = k := by
  simp [Keep.and]

theorem admits_and (k l : Keep) (kind : Token.Kind) :
    (k.and l).admits kind = (k.admits kind && l.admits kind) := by
  simp only [admits, Trivia.admits, Keep.and]
  cases kind.isBlank <;> cases kind.isComment <;> cases kind.isDelimiter <;>
    simp [Bool.and_assoc, Bool.and_left_comm]

theorem omits_eq_not_admits (k : Keep) (kind : Token.Kind) : k.omits kind = !k.admits kind := by
  simp only [omits, admits, Trivia.admits, Bool.not_and, Bool.not_or, Bool.not_not]

end Keep

/-! ## The entries of a forest -/

/-- A leaf or a list as it stands in a forest. -/
structure Forest.Entry where
  depth : Nat
  /-- The kind of a leaf; a list has none. -/
  kind? : Option Token.Kind
  span : Span
deriving DecidableEq

/-- The kind of a leaf. -/
def Tree.kind? : Tree → Option Token.Kind
  | leaf t => some t.kind
  | list .. => none

/-- The entries of a forest at all depths, parents before children. -/
def Forest.entries (depth : Nat) (f : Forest) : List Forest.Entry :=
  (Forest.walk depth f).map fun (d, t) => ⟨d, t.kind?, t.span⟩

namespace Forest

@[simp] theorem entries_nil (depth : Nat) : entries depth [] = [] := by
  rw [entries, walk, List.map_nil]

theorem walk_append (depth : Nat) (f g : Forest) :
    walk depth (f ++ g) = walk depth f ++ walk depth g := by
  induction f with
  | nil => rw [walk, List.nil_append, List.nil_append]
  | cons t f ih => rw [List.cons_append, walk, walk, ih, List.append_assoc]

theorem entries_append (depth : Nat) (f g : Forest) :
    entries depth (f ++ g) = entries depth f ++ entries depth g := by
  rw [entries, walk_append, List.map_append]
  rfl

theorem entries_cons (depth : Nat) (t : Tree) (f : Forest) :
    entries depth (t :: f) = entries depth [t] ++ entries depth f :=
  entries_append depth [t] f

theorem entries_leaf (depth : Nat) (t : Token) :
    entries depth [.leaf t] = [⟨depth, some t.kind, t.span⟩] := by
  simp only [entries, walk, Tree.walk, List.append_nil, List.map_singleton, Tree.kind?, Tree.span]

theorem entries_list (depth : Nat) (span : Span) (children : Forest) :
    entries depth [.list span children] = ⟨depth, none, span⟩ :: entries (depth + 1) children := by
  simp only [entries, walk, Tree.walk, List.append_nil, List.map_cons, Tree.kind?, Tree.span]

end Forest

mutual

theorem Tree.entries_prune (keep : Keep) (depth : Nat) : ∀ t : Tree,
    Forest.entries depth (t.prune keep) =
      (Forest.entries depth [t]).filter fun e => !e.kind?.any keep.omits
  | .leaf t => by
    rw [Tree.prune, Forest.entries_leaf]
    cases h : keep.admits t.kind with
    | true => simp [Forest.entries_leaf, Keep.omits_eq_not_admits, h]
    | false => simp [Keep.omits_eq_not_admits, h]
  | .list span children => by
    rw [Tree.prune, Forest.entries_list, Forest.entries_list,
      Forest.entries_prune keep (depth + 1) children, List.filter_cons_of_pos rfl]

/-- The entries that are left are those of the lists and of the leaves that are wanted, each as it
was. -/
theorem Forest.entries_prune (keep : Keep) (depth : Nat) : ∀ f : Forest,
    Forest.entries depth (Forest.prune keep f) =
      (Forest.entries depth f).filter fun e => !e.kind?.any keep.omits
  | [] => by rw [Forest.prune, Forest.entries_nil, List.filter_nil]
  | t :: ts => by
    rw [Forest.prune, Forest.entries_append, Tree.entries_prune keep depth t,
      Forest.entries_prune keep depth ts, Forest.entries_cons depth t ts, List.filter_append]

end

/-! ## Builders side by side -/

/-- A branch with less in it and the same span. -/
def Branch.prune (keep : Keep) (b : Branch) : Branch := ⟨b.span, Forest.prune keep b.children⟩

namespace Builder

namespace Content

/-- What has been collected, if less had been kept. The bytes count as before. -/
def prune (keep : Keep) (c : Content) : Content :=
  ⟨(Forest.prune keep c.trees.reverse).reverse, c.bytes⟩

variable (keep : Keep) (c : Content)

theorem prune_addToken (other : Keep) (t : Token) :
    (c.addToken t (other.admits t.kind)).prune keep =
      (c.prune keep).addToken t ((other.and keep).admits t.kind) := by
  rw [Keep.admits_and]
  cases hother : other.admits t.kind with
  | true =>
    cases hkeep : keep.admits t.kind with
    | true => simp [prune, addToken, Forest.prune, Tree.prune, hkeep]
    | false => simp [prune, addToken, Forest.prune, Tree.prune, hkeep]
  | false => rfl

theorem prune_branch (start : Place) :
    (c.branch start).prune keep = (c.prune keep).branch start := by
  simp only [branch, Branch.prune, prune, List.reverse_reverse]

theorem prune_addBranch (b : Branch) :
    (c.addBranch b).prune keep = (c.prune keep).addBranch (b.prune keep) := by
  simp [prune, addBranch, Tree.ofBranch, Branch.prune, Forest.prune, Tree.prune]

end Content

def Opening.prune (keep : Keep) (o : Opening) : Opening := { o with outer := o.outer.prune keep }

/-- The builder as it would be if it had also kept to another choice from the start. -/
def prune (keep : Keep) (b : Builder) : Builder where
  keep := b.keep.and keep
  current := b.current.prune keep
  around := b.around.map (Opening.prune keep)
  closed := b.closed

variable (keep : Keep) (b : Builder)

theorem addToken_prune (l : Lexeme) :
    (b.prune keep).addToken l = (b.addToken l).prune keep := by
  have collected := b.current.prune_addToken keep b.keep l.token
  simp only [addToken, prune]
  exact congrArg (Builder.mk _ · _ _) collected.symm

theorem closeList_prune (bracket : Bracket) (place : Place) :
    (b.prune keep).closeList bracket place = (b.closeList bracket place).map (prune keep) := by
  obtain ⟨kept, current, around, closed⟩ := b
  cases around with
  | nil => rfl
  | cons o rest =>
    by_cases same : o.bracket = bracket
    · simp only [closeList, prune, List.map_cons, Opening.prune, if_pos same, Except.map,
        Content.prune_addBranch, Content.prune_branch]
      rfl
    · simp only [closeList, prune, List.map_cons, Opening.prune, if_neg same, Except.map,
        List.length_map]

/-- One lexeme is taken, or refused, the same way by both. -/
theorem add_prune (l : Lexeme) : (b.prune keep).add l = (b.add l).map (prune keep) := by
  cases hs : l.shape with
  | opener bracket =>
    rw [add_opener hs, add_opener hs, Except.map]
    exact congrArg Except.ok ((b.openList bracket l.span.start).addToken_prune keep l)
  | closer bracket =>
    simp only [add, hs]
    rw [addToken_prune, closeList_prune]
  | _ =>
    have plain : l.shape.kind.isDelimiter = false := by rw [hs]; rfl
    rw [add_plain plain, add_plain plain, Except.map, addToken_prune]

theorem addAll_prune (ls : List Lexeme) :
    (b.prune keep).addAll ls = ((b.addAll ls).1.prune keep, (b.addAll ls).2) := by
  induction ls generalizing b with
  | nil => rfl
  | cons l ls ih =>
    rw [addAll, addAll, add_prune]
    cases b.add l with
    | ok next => exact ih next
    | error flaw => rfl

theorem finish_prune (last : Place) :
    (b.prune keep).finish last = (b.finish last).map (Branch.prune keep) := by
  obtain ⟨kept, current, around, closed⟩ := b
  cases around with
  | nil => exact congrArg Except.ok (current.prune_branch keep {}).symm
  | cons o rest =>
    simp only [finish, prune, List.map_cons, List.length_map, Opening.prune, Except.map]

end Builder

/-! ## Whole texts -/

theorem build_and (keep other : Keep) (last : Place) (ls : List Lexeme) :
    build (other.and keep) last ls = (build other last ls).map (Branch.prune keep) := by
  have run := Builder.addAll_prune keep { keep := other } ls
  have start : ({ keep := other } : Builder).prune keep = { keep := other.and keep } := rfl
  rw [start] at run
  rw [build, build, run]
  rcases ({ keep := other } : Builder).addAll ls with ⟨b, _ | flaw⟩
  · exact b.finish_prune keep last
  · rfl

theorem parse_and (source : String) (keep other : Keep) :
    parse source (other.and keep) = (parse source other).map (Forest.prune keep) := by
  simp only [parse, parseBranch]
  cases lex source.toList with
  | error flaw => rfl
  | ok lexemes =>
    simp only [build_and]
    cases build other (.ofLast source.toList) lexemes with
    | error flaw => rfl
    | ok branch => rfl

/-- **What is kept only prunes.** Under any choice a source is refused with the very fault that it
is refused with if all is kept, and accepted with the forest of that reading less the leaves that
are not wanted: every other leaf and every list, empty or not, stays at its depth and with its span.
Reading under two choices together is reading under one and pruning by the other. -/
theorem parse_eq_prune (source : String) (keep : Keep) :
    parse source keep = (parse source).map (Forest.prune keep) ∧
    (∀ f depth, Forest.entries depth (Forest.prune keep f) =
      (Forest.entries depth f).filter fun e => !e.kind?.any keep.omits) ∧
    (∀ other : Keep,
      parse source (other.and keep) = (parse source other).map (Forest.prune keep)) := by
  refine ⟨?_, fun f depth => Forest.entries_prune keep depth f, parse_and source keep⟩
  have whole := parse_and source keep {}
  rwa [Keep.all_and] at whole

end Bracketry
