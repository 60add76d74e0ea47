import Bracketry.Token

/-!
# Which tokens are kept

A tree may leave out tokens that a reader of it does not want: comments, blank space, brackets. The
choice is made by kind alone, and it decides only what is shown as a child. Spans are not touched
by it: a list is as long as its text, whatever was left out of it.
-/

namespace Bracketry

/-- Which trivia are kept. -/
structure Keep.Trivia where
  comments : Bool := true
  blanks : Bool := true
deriving DecidableEq

/-- Which tokens are kept as leaves. -/
structure Keep extends Keep.Trivia where
  delimiters : Bool := true
deriving DecidableEq

namespace Keep

/-- Whether tokens of a kind are kept; only trivia are ever left out. -/
def Trivia.admits (k : Trivia) (kind : Token.Kind) : Bool :=
  (k.blanks || !kind.isBlank) && (k.comments || !kind.isComment)

/-- Whether tokens of a kind are kept. -/
def admits (k : Keep) (kind : Token.Kind) : Bool :=
  k.toTrivia.admits kind && (k.delimiters || !kind.isDelimiter)

@[simp] theorem Trivia.admits_all (kind : Token.Kind) : ({} : Trivia).admits kind = true := rfl

@[simp] theorem admits_all (kind : Token.Kind) : ({} : Keep).admits kind = true := rfl

end Keep

end Bracketry
