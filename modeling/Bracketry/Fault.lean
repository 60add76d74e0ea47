import Bracketry.Bracket
import Bracketry.Excerpt

/-!
# What can be wrong with a text

A text is refused for one of six reasons, and a `Flaw` is the reason with everything that its
message needs. What leaves the library is a `Fault`: the cause, in the five classes that have a
numeric code, and the message, which is an excerpt of the source.

Codes are powers of two, so that a set of causes fits in one number.
-/

namespace Bracketry

open Text

/-- The five classes of fault. -/
inductive Fault.Code
  | strayCloser
  | unclosed
  | mismatch
  | openString
  | openComment
deriving DecidableEq

namespace Fault.Code

def all : List Code := [strayCloser, unclosed, mismatch, openString, openComment]

def number : Code → Nat
  | strayCloser => 1
  | unclosed => 2
  | mismatch => 4
  | openString => 8
  | openComment => 16

/-- The tag of a class in written records. -/
def label : Code → String
  | strayCloser => "UnexpectedClosingDelimiter"
  | unclosed => "UnclosedDelimiter"
  | mismatch => "DelimMismatch"
  | openString => "UnterminatedString"
  | openComment => "UnterminatedMultiLineComment"

/-- The class with a given tag. -/
def ofLabel? (label : String) : Option Code :=
  all.find? (·.label == label)

theorem ofLabel?_label (c : Code) : ofLabel? c.label = some c := by cases c <;> decide

end Fault.Code

/-- The class of a fault, with the places and characters that identify it. -/
inductive Fault.Cause
  /-- A closer with nothing to close. `level` is `none` for the end of a comment, and the number of
  open lists for a bracket. -/
  | strayCloser (place : Place) (level : Option Nat)
  /-- The text ends inside `level` lists, the innermost opened here. -/
  | unclosed (opener : Place) (level : Nat)
  /-- A closer of another family than the innermost opener. `level` counts the lists around it. -/
  | mismatch (opener closer : Place) (expected found : Char) (level : Nat)
  /-- The text ends inside a string. -/
  | openString (start : Place) (quote : Char)
  /-- The text ends inside a block comment, `depth` closers short. -/
  | openComment (start : Place) (depth : Nat)
deriving DecidableEq

namespace Fault.Cause

/-- The class of a cause. -/
def code : Cause → Code
  | strayCloser .. => .strayCloser
  | unclosed .. => .unclosed
  | mismatch .. => .mismatch
  | openString .. => .openString
  | openComment .. => .openComment

/-- The number of open lists, for causes that concern lists. -/
def level? : Cause → Option Nat
  | strayCloser _ level => level
  | unclosed _ level | mismatch _ _ _ _ level => some level
  | openString .. | openComment .. => none

/-- Where the construct at fault begins. -/
def place : Cause → Place
  | strayCloser p _ | unclosed p _ | mismatch p .. | openString p _ | openComment p _ => p

end Fault.Cause

/-- A refused text: the cause and the message. -/
structure Fault where
  cause : Fault.Cause
  message : String
deriving DecidableEq

/-- What is wrong with a text. Where the text ends too early, `last` is its last character. -/
inductive Flaw
  /-- `|#` where no block comment is open. -/
  | strayCommentEnd (place : Place)
  | openString (start last : Place) (quote : Quote)
  | openComment (start last : Place) (depth : Nat)
  /-- A closing bracket where no list is open. -/
  | strayCloser (place : Place) (bracket : Bracket)
  | mismatch (opener closer : Place) (expected found : Bracket) (level : Nat)
  | unclosed (opener last : Place) (bracket : Bracket) (level : Nat)
deriving DecidableEq

namespace Flaw

/-- The cause that a flaw is reported under. -/
def cause : Flaw → Fault.Cause
  | strayCommentEnd p => .strayCloser p none
  | openString start _ q => .openString start q.mark
  | openComment start _ depth => .openComment start depth
  | strayCloser p _ => .strayCloser p (some 0)
  | mismatch opener closer expected found level =>
    .mismatch opener closer expected.closer found.closer level
  | unclosed opener _ _ level => .unclosed opener level

/-- A character or mark as messages quote it. -/
private def ticked (text : String) : String := "`" ++ text ++ "`"

/-- The excerpt that shows a flaw. -/
def excerpt : Flaw → Excerpt
  | strayCommentEnd p =>
    { title := "Unexpected closing delimiter " ++ ticked "|#"
      closing := ⟨p.toCursor, "no multi-line comment is open"⟩ }
  | openString start last q =>
    { title := "Unterminated " ++ q.stringName
      opening := some ⟨start.toCursor, "start of " ++ q.stringName⟩
      closing := ⟨last.toCursor,
        "unterminated string: expected closing " ++ ticked (String.singleton q.mark)⟩ }
  | openComment start last depth =>
    { title := "Unterminated multi-line comment"
      opening := some ⟨start.toCursor, "start of multi-line comment"⟩
      closing := ⟨last.toCursor, "unterminated multi-line comment: missing " ++ toString depth ++
        " closing delimiter" ++ (if depth = 1 then "" else "s") ++ " " ++ ticked "|#"⟩ }
  | strayCloser p b =>
    { title := "Unexpected closing delimiter " ++ ticked (String.singleton b.closer)
      closing := ⟨p.toCursor, "no matching opening delimiter"⟩ }
  | mismatch opener closer expected found _ =>
    { title := "Mismatched delimiter"
      opening := some ⟨opener.toCursor, "opening delimiter"⟩
      closing := ⟨closer.toCursor, "expected " ++ ticked (String.singleton expected.closer) ++
        " but found " ++ ticked (String.singleton found.closer)⟩ }
  | unclosed opener last b _ =>
    { title := "Unclosed delimiter"
      opening := some ⟨opener.toCursor, "opening delimiter"⟩
      closing := ⟨last.toCursor, "unclosed delimiter: expected " ++
        ticked (String.singleton b.closer) ++ " before end of input"⟩ }

/-- The fault that a source is refused with. -/
def fault (f : Flaw) (source : List Char) : Fault := ⟨f.cause, f.excerpt.render source⟩

end Flaw

end Bracketry
