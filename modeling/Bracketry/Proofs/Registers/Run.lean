import Bracketry.Fault
import Bracketry.Proofs.Lexing.Locating

/-!
# Runs that can be broken off

A lexer is one value, and so is a builder: what is being read always has a span, and a list that
closes always has a list around it. The same work can be done on registers that know nothing of each
other: a state beside a token that may be missing, a depth that may be zero, two stacks, counters of
a limited size. Then each use of a register is a step that can fail, and this library's functions
are what a run on registers comes to if none of its steps does.

`Abort` lists the ways in which a run can be broken off. None of them is a fault of the source: a
`Halt` keeps the two apart. What a fault comes with is left to the run, since some go on behind one.

Here are the steps that need no register: counting up to a limit, taking one number from another,
and writing an excerpt, which does both. A text is limited too, and a mark is moved to its column by
a text of blanks; so an excerpt can be too large to be written, however few its rows are.
-/

namespace Bracketry.Registers

open Text

/-- Why a run is broken off. -/
inductive Abort
  /-- A counter, or the size of a text, goes beyond its limit. -/
  | overflow
  /-- A number is taken from a smaller one. -/
  | underflow
  /-- Another character than the `|` of an announced `#|`. -/
  | notCommentOpener
  /-- Another character than the `#` of an announced `|#`. -/
  | notCommentCloser
  /-- No decision takes a character. -/
  | notConsumed
  /-- A token is to grow or to be given out, and none is pending. -/
  | nothingPending
  /-- The span of a token is no slice of the source. -/
  | notASlice
  | emptyDelimiter
  | notAnOpener
  | notACloser
  /-- A token or a list is to go into the innermost list, and there is none. -/
  | rootPopped
  | noOpenList
  /-- At the end no opener waits, and other than one list is there. -/
  | outOfStep
deriving DecidableEq

/-- What ends a run early: a fault of the source, told by a `φ`, or the run itself. -/
inductive Halt (φ : Type)
  | fault (fault : φ)
  | abort (reason : Abort)
deriving DecidableEq

abbrev Run (φ : Type) := Except (Halt φ)

section

variable {φ ψ α : Type}

/-- A run that is broken off. -/
def abort (reason : Abort) : Run φ α := .error (.abort reason)

/-- A run whose fault is told in another way. -/
def Run.mapFault (f : φ → ψ) : Run φ α → Run ψ α
  | .ok a => .ok a
  | .error (.fault fault) => .error (.fault (f fault))
  | .error (.abort reason) => abort reason

/-- A new value of a counter. -/
def count (limit n : Nat) : Run φ Nat := if n ≤ limit then .ok n else abort .overflow

/-- One number less another. -/
def less (m n : Nat) : Run φ Nat := if n ≤ m then .ok (m - n) else abort .underflow

/-- A cursor behind a character. -/
def advance (limit : Nat) (k : Cursor) (c : Char) : Run φ Cursor :=
  if c = '\n' then do return ⟨← count limit (k.line + 1), 0⟩
  else do return ⟨k.line, ← count limit (k.column + 1)⟩

/-- The rows of an excerpt between the marks. -/
def rows (limit : Nat) (e : Excerpt) : Run φ (List Excerpt.Row) := do
  let beyond ← less e.last e.first
  if beyond < Excerpt.maxLines then
    return (List.range' e.first (beyond + 1)).map .line
  else
    let second ← count limit (e.first + 1)
    let lastButOne ← less e.last 1
    return [.line e.first, .line second, .gap, .line lastButOne, .line e.last]

/-- A row that holds a mark. The blanks in front of the mark are a text of their own. -/
def markRow (capacity : Nat) (e : Excerpt) (pointer : String) (m : Excerpt.Mark) :
    Run φ String := do
  let _ ← count capacity m.cursor.column
  return e.markRow pointer m

/-- All rows of an excerpt. No number that is counted is larger than those of the headline. -/
def layout (limit capacity : Nat) (e : Excerpt) (source : List Char) : Run φ (List String) := do
  let _ ← count limit (e.closing.cursor.line + 1)
  let _ ← count limit (e.closing.cursor.column + 1)
  let rows ← rows limit e
  let upper ← e.opening.toList.mapM (markRow capacity e "v")
  let lower ← markRow capacity e "^" e.closing
  return e.headline :: upper ++ rows.map (e.sourceRow (lines source)) ++ [lower]

/-- The text of an excerpt, on counters that go up to `limit`, where nothing that holds a text has
more than `capacity` bytes. A row is put together in a buffer, which may be larger than the row: how
far ahead it grows is not known, and `buffer` tells its size. -/
def render (limit capacity : Nat) (buffer : String → Nat) (e : Excerpt) (source : List Char) :
    Run φ String := do
  let rows ← layout limit capacity e source
  let _ ← rows.mapM fun row => count capacity (buffer row)
  let text := "\n".intercalate rows
  let _ ← count capacity text.utf8ByteSize
  return text

/-- The source is refused for a flaw. Blanks are counted like all else, and the rows are put
together whatever they take as one text. -/
def refuse (limit : Nat) (source : List Char) (flaw : Flaw) : Run Fault α := do
  let rows ← layout limit limit flaw.excerpt source
  .error (.fault ⟨flaw.cause, "\n".intercalate rows⟩)

/-- A result of the library, as a run: a flaw is reported as its fault. -/
def told (source : List Char) : Except Flaw α → Run Fault α
  | .ok value => .ok value
  | .error flaw => .error (.fault (flaw.fault source))

end

/-! ## Steps that do not fail -/

section steps

variable {φ ψ α β : Type}

@[simp] theorem ok_bind (a : α) (f : α → Run φ β) : (Except.ok a : Run φ α) >>= f = f a := rfl

@[simp] theorem error_bind (h : Halt φ) (f : α → Run φ β) :
    (Except.error h : Run φ α) >>= f = .error h := rfl

@[simp] theorem pure_eq_ok (a : α) : (pure a : Run φ α) = .ok a := rfl

@[simp] theorem count_of_le {limit n : Nat} (h : n ≤ limit) :
    (count limit n : Run φ Nat) = .ok n := if_pos h

theorem count_of_lt {limit n : Nat} (h : limit < n) :
    (count limit n : Run φ Nat) = abort .overflow := if_neg (Nat.not_le.mpr h)

@[simp] theorem less_of_le {m n : Nat} (h : n ≤ m) : (less m n : Run φ Nat) = .ok (m - n) :=
  if_pos h

/-- Numbers are counted one after the other, up to one that overflows. -/
theorem mapM_count (limit : Nat) (f : α → Nat) (l : List α) :
    (l.mapM (fun a => count limit (f a)) : Run φ (List Nat)) =
      if ∀ a ∈ l, f a ≤ limit then .ok (l.map f) else abort .overflow := by
  induction l with
  | nil => exact (if_pos (List.forall_mem_nil _)).symm
  | cons a l ih =>
    have both : (∀ b ∈ a :: l, f b ≤ limit) ↔ f a ≤ limit ∧ ∀ b ∈ l, f b ≤ limit :=
      List.forall_mem_cons
    rw [List.mapM_cons, ih]
    by_cases first : f a ≤ limit
    · rw [count_of_le first, ok_bind]
      by_cases rest : ∀ b ∈ l, f b ≤ limit
      · rw [if_pos rest, if_pos (both.mpr ⟨first, rest⟩)]
        rfl
      · rw [if_neg rest, if_neg (rest ∘ And.right ∘ both.mp)]
        rfl
    · rw [count_of_lt (Nat.not_le.mp first), if_neg (first ∘ And.left ∘ both.mp)]
      rfl

theorem rows_eq {limit : Nat} {e : Excerpt} (h : e.closing.cursor.line + 1 ≤ limit) :
    (rows limit e : Run φ _) = .ok e.rows := by
  have order := e.first_le_last
  have room : e.first + 1 ≤ limit := Nat.le_trans (Nat.succ_le_succ order) h
  rw [rows, less_of_le order, Excerpt.rows, Excerpt.elides]
  by_cases long : Excerpt.maxLines ≤ e.last - e.first
  · have positive : 1 ≤ e.last := by
      have : 0 < Excerpt.maxLines := by decide
      omega
    simp [long, Nat.not_lt.mpr long, room, positive]
  · simp [long, Nat.not_le.mp long]

/-- Both numbers of a cursor can be counted from one. -/
structure Fits (limit : Nat) (k : Cursor) : Prop where
  line : k.line + 1 ≤ limit
  column : k.column + 1 ≤ limit

theorem advance_eq {limit : Nat} {k : Cursor} (h : Fits limit k) (c : Char) :
    (advance limit k c : Run φ Cursor) = .ok (k.advance c) := by
  rw [advance, Cursor.advance]
  split
  · rw [count_of_le h.line]; rfl
  · rw [count_of_le h.column]; rfl

/-- The rows of an excerpt come out if it goes wrong at a place within the limit and its blanks can
be written. -/
theorem layout_eq {limit capacity : Nat} {e : Excerpt} (h : Fits limit e.closing.cursor)
    (blanks : ∀ m ∈ e.marks, m.cursor.column ≤ capacity) (source : List Char) :
    (layout limit capacity e source : Run φ (List String)) = .ok (e.layout source) := by
  have row (pointer : String) {m : Excerpt.Mark} (hm : m ∈ e.marks) :
      (markRow capacity e pointer m : Run φ String) = .ok (e.markRow pointer m) := by
    rw [markRow, count_of_le (blanks m hm)]
    rfl
  have upper : (e.opening.toList.mapM (markRow capacity e "v") : Run φ (List String)) =
      .ok (e.opening.map (e.markRow "v")).toList := by
    cases opening : e.opening with
    | none => rfl
    | some m =>
      have hm : m ∈ e.marks := by simp [Excerpt.marks, opening]
      simp only [Option.toList_some, List.mapM_cons, List.mapM_nil, row "v" hm, ok_bind,
        pure_eq_ok, Option.map_some]
  have lower : (markRow capacity e "^" e.closing : Run φ String) = .ok (e.markRow "^" e.closing) :=
    row "^" (by simp [Excerpt.marks])
  simp only [layout, count_of_le h.line, count_of_le h.column, rows_eq h.line, upper, lower,
    ok_bind, pure_eq_ok]
  rfl

theorem markRow_of_lt {capacity : Nat} {m : Excerpt.Mark} (h : capacity < m.cursor.column)
    (e : Excerpt) (pointer : String) :
    (markRow capacity e pointer m : Run φ String) = abort .overflow := by
  rw [markRow, count_of_lt h]
  rfl

/-- No rows come out if the blanks of a mark cannot be written. -/
theorem layout_of_lt {limit capacity : Nat} {e : Excerpt} (h : Fits limit e.closing.cursor)
    {m : Excerpt.Mark} (hm : m ∈ e.marks) (beyond : capacity < m.cursor.column)
    (source : List Char) :
    (layout limit capacity e source : Run φ (List String)) = abort .overflow := by
  simp only [layout, count_of_le h.line, count_of_le h.column, rows_eq h.line, ok_bind]
  rcases List.mem_append.mp hm with upper | lower
  · rw [Option.mem_toList] at upper
    rw [upper, Option.toList_some, List.mapM_cons, markRow_of_lt beyond]
    rfl
  · obtain rfl := List.mem_singleton.mp lower
    cases opening : e.opening with
    | none =>
      rw [Option.toList_none, List.mapM_nil, markRow_of_lt beyond]
      rfl
    | some o =>
      rw [Option.toList_some, List.mapM_cons, markRow_of_lt beyond]
      by_cases fits : o.cursor.column ≤ capacity
      · rw [markRow, count_of_le fits]
        rfl
      · rw [markRow_of_lt (Nat.not_le.mp fits)]
        rfl

/-- The message of a flaw can be written if its marks are within the limit. -/
theorem refuse_eq {limit : Nat} {source : List Char} {flaw : Flaw}
    (h : ∀ m ∈ flaw.excerpt.marks, Fits limit m.cursor) :
    (refuse limit source flaw : Run Fault α) = .error (.fault (flaw.fault source)) := by
  have closing : Fits limit flaw.excerpt.closing.cursor := h _ (by simp [Excerpt.marks])
  rw [refuse, layout_eq closing fun m hm => Nat.le_of_succ_le (h m hm).column]
  rfl

end steps

/-! ## Places of a source -/

theorem length_le_byteLength (text : List Char) : text.length ≤ byteLength text := by
  induction text with
  | nil => exact Nat.le_refl 0
  | cons c text ih =>
    have := c.utf8Size_pos
    simp only [List.length_cons, byteLength_cons]
    omega

theorem fits_ofEnd {limit : Nat} {text : List Char} (h : byteLength text + 1 ≤ limit) :
    Fits limit (Place.ofEnd text).toCursor := by
  have counts := Place.counts_ofEnd text
  have short := length_le_byteLength text
  constructor
  · have : text.count '\n' ≤ text.length := List.count_le_length
    have := counts.line
    omega
  · have beyond : (text.reverse.takeWhile (· ≠ '\n')).length ≤ text.length := by
      simpa using (text.reverse.takeWhile_prefix (· ≠ '\n')).length_le
    have := counts.column
    omega

theorem fits_ofLast {limit : Nat} {text : List Char} (h : byteLength text + 1 ≤ limit) :
    Fits limit (Place.ofLast text).toCursor := by
  obtain ⟨rest, hrest⟩ := text.dropLast_prefix
  have : byteLength text = byteLength text.dropLast + byteLength rest := by
    rw [← byteLength_append, hrest]
  exact fits_ofEnd (by omega)

end Bracketry.Registers
