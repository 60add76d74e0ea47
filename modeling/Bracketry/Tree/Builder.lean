import Bracketry.Keep
import Bracketry.Lexeme.Lexer
import Bracketry.Tree

/-!
# Building trees

Lexemes become trees in one pass. The builder holds the list that it is in (`Builder.current`) and,
from the inside out, what surrounds it (`Builder.around`): for every open list its opener, and what
had been collected of the list around it when it was opened.

A lexeme counts toward the length of the list that it stands in whether or not it is kept, and a
list that is closed counts its whole length toward the one around it. So the length of the outermost
list is the length of the text, and the choice of what to keep never decides whether a text is
accepted.

There are three ways to be refused: a closer where no list is open, a closer of another family than
the innermost opener, and the end of the text while a list is open. The first two are final; no
text that follows can mend them.
-/

namespace Bracketry

open Text

/-- What has been collected of one list. -/
structure Builder.Content where
  /-- The trees kept, the latest first. -/
  trees : List Tree := []
  /-- The bytes of everything in the list, kept or not. -/
  bytes : Nat := 0

namespace Builder.Content

/-- A leaf at the end of a list, shown as a child only if it is to be kept. -/
def addToken (c : Content) (token : Token) (keep : Bool) : Content :=
  { trees := if keep then .leaf token :: c.trees else c.trees
    bytes := c.bytes + token.span.length }

/-- The list that was collected, as a branch. -/
def branch (c : Content) (start : Place) : Branch := ⟨⟨start, c.bytes⟩, c.trees.reverse⟩

/-- A complete list at the end of the one around it. -/
def addBranch (c : Content) (b : Branch) : Content :=
  { trees := .ofBranch b :: c.trees, bytes := c.bytes + b.span.length }

end Builder.Content

/-- An open list: its opener, and what the list around it holds so far. -/
structure Builder.Opening where
  bracket : Bracket
  place : Place
  outer : Builder.Content

/-- The builder between two lexemes. -/
structure Builder where
  keep : Keep
  current : Builder.Content := {}
  /-- The open lists, the innermost first. -/
  around : List Builder.Opening := []
  /-- The spans of the lists closed so far, the latest first. -/
  closed : List Span := []

namespace Builder

/-- The lexeme as a leaf of the current list. -/
def addToken (b : Builder) (l : Lexeme) : Builder :=
  { b with current := b.current.addToken l.token (b.keep.admits l.shape.kind) }

/-- A list opens: what was current waits around it. -/
def openList (b : Builder) (bracket : Bracket) (place : Place) : Builder :=
  { b with current := {}, around := ⟨bracket, place, b.current⟩ :: b.around }

/-- The innermost list closes and joins the one around it. -/
def closeList (b : Builder) (bracket : Bracket) (place : Place) : Except Flaw Builder :=
  match b.around with
  | [] => .error (.strayCloser place bracket)
  | o :: rest =>
    if o.bracket = bracket then
      let list := b.current.branch o.place
      .ok { b with
        current := o.outer.addBranch list, around := rest, closed := list.span :: b.closed }
    else .error (.mismatch o.place place o.bracket bracket rest.length)

/-- One lexeme. A bracket is a leaf of its own list. -/
def add (b : Builder) (l : Lexeme) : Except Flaw Builder :=
  match l.shape with
  | .opener bracket => .ok ((b.openList bracket l.span.start).addToken l)
  | .closer bracket => (b.addToken l).closeList bracket l.span.start
  | _ => .ok (b.addToken l)

/-- Lexemes one after the other, up to the first that is refused; the builder answered is the one
before that lexeme. -/
def addAll (b : Builder) : List Lexeme → Builder × Option Flaw
  | [] => (b, none)
  | l :: ls =>
    match b.add l with
    | .ok b' => b'.addAll ls
    | .error flaw => (b, some flaw)

/-- The end of a text whose last character stands at `last`. -/
def finish (b : Builder) (last : Place) : Except Flaw Branch :=
  match b.around with
  | [] => .ok (b.current.branch {})
  | o :: rest => .error (.unclosed o.place last o.bracket (rest.length + 1))

end Builder

/-- The branch of a whole text, from its lexemes and the place of its last character. -/
def build (keep : Keep) (last : Place) (lexemes : List Lexeme) : Except Flaw Branch :=
  match ({ keep } : Builder).addAll lexemes with
  | (b, none) => b.finish last
  | (_, some flaw) => .error flaw

/-- The spans of the lists that are closed in a source, in the order of their closers, up to where it
is refused. What is kept does not matter for them. -/
def closedLists (source : String) : List Span :=
  match lex source.toList with
  | .error _ => []
  | .ok lexemes => (({ keep := {} } : Builder).addAll lexemes).1.closed.reverse

/-- The whole of a source as one branch, or the fault that it is refused with. -/
def parseBranch (source : String) (keep : Keep := {}) : Except Fault Branch :=
  let text := source.toList
  match lex text with
  | .error flaw => .error (flaw.fault text)
  | .ok lexemes =>
    match build keep (.ofLast text) lexemes with
    | .error flaw => .error (flaw.fault text)
    | .ok branch => .ok branch

/-- The trees of a source, or the fault that it is refused with. -/
def parse (source : String) (keep : Keep := {}) : Except Fault Forest :=
  match parseBranch source keep with
  | .error fault => .error fault
  | .ok branch => .ok branch.children

end Bracketry
