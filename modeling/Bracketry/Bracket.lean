/-!
# Brackets and quotes

The three families of brackets that enclose a list, and the two quotes that enclose a string. A
bracket is named by its family, so that an opener and a closer match exactly if they are of one
`Bracket`.
-/

namespace Bracketry

/-- A family of brackets. -/
inductive Bracket
  | round
  | square
  | curly
deriving DecidableEq

namespace Bracket

def opener : Bracket → Char
  | round => '('
  | square => '['
  | curly => '{'

def closer : Bracket → Char
  | round => ')'
  | square => ']'
  | curly => '}'

/-- The family that a character opens. -/
def ofOpener? : Char → Option Bracket
  | '(' => some round
  | '[' => some square
  | '{' => some curly
  | _ => none

/-- The family that a character closes. -/
def ofCloser? : Char → Option Bracket
  | ')' => some round
  | ']' => some square
  | '}' => some curly
  | _ => none

theorem ofOpener?_eq_some_iff {c : Char} {b : Bracket} : ofOpener? c = some b ↔ c = b.opener := by
  constructor
  · intro h; unfold ofOpener? at h; split at h <;> simp_all [opener] <;> subst h <;> rfl
  · rintro rfl; cases b <;> rfl

theorem ofCloser?_eq_some_iff {c : Char} {b : Bracket} : ofCloser? c = some b ↔ c = b.closer := by
  constructor
  · intro h; unfold ofCloser? at h; split at h <;> simp_all [closer] <;> subst h <;> rfl
  · rintro rfl; cases b <;> rfl

end Bracket

/-- A quote that opens a string and closes it. -/
inductive Quote
  | double
  | single
deriving DecidableEq

namespace Quote

def mark : Quote → Char
  | double => '"'
  | single => '\''

/-- The quote that a character is. -/
def ofMark? : Char → Option Quote
  | '"' => some double
  | '\'' => some single
  | _ => none

/-- What a string in these quotes is called. -/
def stringName : Quote → String
  | double => "double-quote string"
  | single => "single-quote string"

theorem ofMark?_eq_some_iff {c : Char} {q : Quote} : ofMark? c = some q ↔ c = q.mark := by
  constructor
  · intro h; unfold ofMark? at h; split at h <;> simp_all [mark] <;> subst h <;> rfl
  · rintro rfl; cases q <;> rfl

end Quote

end Bracketry
