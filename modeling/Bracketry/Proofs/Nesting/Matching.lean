import Bracketry.Bracket
import Bracketry.Text.Place

/-!
# Words of brackets

What it means for the brackets of a text to match, said of their characters alone. A word is
`WellMatched` if every opener has a closer of its family with a well matched word between them, and
`Viable` if it can still be extended to one that is. A viable word has openers that wait for their
closers, and `Unmatched` names them.

That the unmatched openers are determined by the word is not seen from this description: it is read
off a stack that follows the word from left to right (`Delimiter.settle`). The stack is only a
means; no statement about texts speaks of it.
-/

namespace Bracketry

open Text

/-- A bracket in a text: where it stands, and its character. -/
structure Delimiter where
  place : Place
  mark : Char
deriving DecidableEq

/-- The characters of brackets. -/
abbrev Delimiter.word (D : List Delimiter) : List Char := D.map Delimiter.mark

/-- Every opener goes with a closer of its family. -/
inductive WellMatched : List Char → Prop
  | nil : WellMatched []
  | enclose (b : Bracket) {u v : List Char} (hu : WellMatched u) (hv : WellMatched v) :
    WellMatched (b.opener :: (u ++ b.closer :: v))

/-- Some continuation makes the word well matched. -/
def Viable (w : List Char) : Prop := ∃ v, WellMatched (w ++ v)

/-- The openers that still wait for a closer behind some brackets, the last one first. -/
inductive Unmatched : List Delimiter → List Delimiter → Prop
  | nil {D : List Delimiter} (h : WellMatched (Delimiter.word D)) : Unmatched D []
  | opener {D E openers : List Delimiter} {o : Delimiter} (b : Bracket) (h : Unmatched D openers)
    (mark : o.mark = b.opener) (hE : WellMatched (Delimiter.word E)) :
    Unmatched (D ++ o :: E) (o :: openers)

theorem Bracket.ofOpener?_closer {c : Char} {b : Bracket} (h : c = b.closer) :
    ofOpener? c = none := by
  subst h
  cases b <;> rfl

/-! ## Joining words -/

theorem WellMatched.append {u v : List Char} (hu : WellMatched u) (hv : WellMatched v) :
    WellMatched (u ++ v) := by
  induction hu with
  | nil => exact hv
  | enclose b hinner _ _ ih =>
    rw [List.cons_append, List.append_assoc, List.cons_append]
    exact .enclose b hinner ih

theorem WellMatched.viable {w : List Char} (h : WellMatched w) : Viable w :=
  ⟨[], by rwa [List.append_nil]⟩

theorem Viable.of_append {u v : List Char} (h : Viable (u ++ v)) : Viable u := by
  obtain ⟨w, hw⟩ := h
  exact ⟨v ++ w, by rwa [← List.append_assoc]⟩

namespace Unmatched

variable {D E openers : List Delimiter} {o d : Delimiter}

@[simp] theorem nil_iff : Unmatched D [] ↔ WellMatched (Delimiter.word D) := by
  constructor
  · intro h
    cases h with
    | nil h => exact h
  · exact .nil

theorem append (h : Unmatched D openers) (hE : WellMatched (Delimiter.word E)) :
    Unmatched (D ++ E) openers := by
  cases h with
  | nil hD =>
    refine .nil ?_
    rw [Delimiter.word, List.map_append]
    exact hD.append hE
  | opener b h mark hF =>
    rw [List.append_assoc, List.cons_append]
    refine .opener b h mark ?_
    rw [Delimiter.word, List.map_append]
    exact hF.append hE

/-- The last unmatched opener is one of a family, and its closer matches it. -/
theorem exists_close (h : Unmatched D (o :: openers)) :
    ∃ b : Bracket, o.mark = b.opener ∧ ∀ d : Delimiter, d.mark = b.closer →
      Unmatched (D ++ [d]) openers := by
  cases h with
  | @opener D E _ _ b h mark hE =>
    refine ⟨b, mark, fun d hd => ?_⟩
    have group : WellMatched (Delimiter.word (o :: (E ++ [d]))) := by
      rw [Delimiter.word, List.map_cons, List.map_append, List.map_singleton, mark, hd]
      exact .enclose b hE .nil
    rw [List.append_assoc, List.cons_append]
    exact h.append group

/-- Closing the unmatched openers one by one makes a word well matched. -/
theorem viable (h : Unmatched D openers) : Viable (Delimiter.word D) := by
  induction openers generalizing D with
  | nil => exact (nil_iff.mp h).viable
  | cons o openers ih =>
    obtain ⟨b, -, close⟩ := h.exists_close
    have closed : Viable (Delimiter.word (D ++ [⟨{}, b.closer⟩])) := ih (close _ rfl)
    rw [Delimiter.word, List.map_append] at closed
    exact closed.of_append

end Unmatched

/-! ## The stack that follows a word -/

/-- The unmatched openers behind one more bracket, or none where it cannot follow. -/
def Delimiter.settle (openers : List Delimiter) (d : Delimiter) : Option (List Delimiter) :=
  match Bracket.ofOpener? d.mark, openers with
  | some _, openers => some (d :: openers)
  | none, [] => none
  | none, o :: rest =>
    if Bracket.ofCloser? d.mark = Bracket.ofOpener? o.mark then some rest else none

namespace Delimiter

variable {D E openers : List Delimiter} {o d : Delimiter} {b c : Bracket}

theorem settle_opener (h : d.mark = b.opener) : settle openers d = some (d :: openers) := by
  simp only [settle, Bracket.ofOpener?_eq_some_iff.mpr h]

theorem settle_closer (ho : o.mark = b.opener) (h : d.mark = c.closer) :
    settle (o :: openers) d = if c = b then some openers else none := by
  simp only [settle, Bracket.ofOpener?_closer h, Bracket.ofCloser?_eq_some_iff.mpr h,
    Bracket.ofOpener?_eq_some_iff.mpr ho, Option.some.injEq]

theorem settle_closer_nil (h : d.mark = c.closer) : settle [] d = none := by
  simp only [settle, Bracket.ofOpener?_closer h]

/-- A well matched word leaves the stack as it was. -/
theorem settle_wellMatched (h : WellMatched (word D)) (openers : List Delimiter) :
    D.foldlM settle openers = some openers := by
  generalize hw : word D = w at h
  induction h generalizing D openers with
  | nil =>
    obtain rfl : D = [] := List.map_eq_nil_iff.mp hw
    rfl
  | enclose b _ _ ihu ihv =>
    obtain ⟨o, D, rfl, ho, hw⟩ := List.map_eq_cons_iff.mp hw
    obtain ⟨E, D, rfl, hE, hw⟩ := List.map_eq_append_iff.mp hw
    obtain ⟨d, D, rfl, hd, hD⟩ := List.map_eq_cons_iff.mp hw
    rw [List.foldlM_cons, settle_opener ho, Option.bind_eq_bind, Option.bind_some,
      List.foldlM_append, ihu _ hE, Option.bind_eq_bind, Option.bind_some, List.foldlM_cons,
      settle_closer ho hd, if_pos rfl, Option.bind_eq_bind, Option.bind_some]
    exact ihv _ hD

/-- The stack holds the unmatched openers. -/
theorem settle_unmatched (h : Unmatched D openers) : D.foldlM settle [] = some openers := by
  induction h with
  | nil h => exact settle_wellMatched h []
  | opener b _ mark hE ih =>
    rw [List.foldlM_append, ih, Option.bind_eq_bind, Option.bind_some, List.foldlM_cons,
      settle_opener mark, Option.bind_eq_bind, Option.bind_some]
    exact settle_wellMatched hE _

theorem settle_viable (h : Viable (word D)) : (D.foldlM settle []).isSome := by
  obtain ⟨v, hv⟩ := h
  have lifted : word (D ++ v.map (⟨{}, ·⟩)) = word D ++ v := by
    simp [word, Function.comp_def]
  rw [← lifted] at hv
  have whole := settle_wellMatched hv []
  rw [List.foldlM_append] at whole
  cases hD : D.foldlM settle [] with
  | some openers => rfl
  | none =>
    rw [hD] at whole
    cases whole

end Delimiter

namespace Unmatched

variable {D E openers outer : List Delimiter} {o d : Delimiter} {b c : Bracket}

/-- Brackets have one list of unmatched openers. -/
theorem unique {openers' : List Delimiter} (h : Unmatched D openers) (h' : Unmatched D openers') :
    openers = openers' :=
  Option.some.inj ((Delimiter.settle_unmatched h).symm.trans (Delimiter.settle_unmatched h'))

theorem not_wellMatched (h : Unmatched D (o :: outer)) : ¬ WellMatched (Delimiter.word D) := by
  intro hD
  exact List.cons_ne_nil o outer (h.unique (.nil hD))

/-- Where the stack is stuck, no continuation helps. -/
theorem not_viable_of_settle (h : Unmatched D openers)
    (stuck : Delimiter.settle openers d = none) : ¬ Viable (Delimiter.word (D ++ [d])) := by
  intro viable
  have followed := Delimiter.settle_viable viable
  rw [List.foldlM_append, Delimiter.settle_unmatched h, Option.bind_eq_bind, Option.bind_some,
    List.foldlM_cons, stuck] at followed
  cases followed

theorem not_viable_closer (h : Unmatched D []) (hd : d.mark = c.closer) :
    ¬ Viable (Delimiter.word (D ++ [d])) :=
  h.not_viable_of_settle (Delimiter.settle_closer_nil hd)

/-- A closer cannot follow where the last opener that waits is of another family. -/
theorem not_viable_closer_ne (h : Unmatched D (o :: outer)) (ho : o.mark = b.opener)
    (hd : d.mark = c.closer) (ne : b ≠ c) : ¬ Viable (Delimiter.word (D ++ [d])) := by
  apply h.not_viable_of_settle
  rw [Delimiter.settle_closer ho hd, if_neg ne.symm]

end Unmatched

end Bracketry
