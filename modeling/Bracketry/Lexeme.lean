import Bracketry.Token

/-!
# Lexemes

What reading a text yields, before it is written down as tokens. A lexeme differs from its token in
one respect: a delimiter still knows its family of brackets, which a token leaves to the source.
Building trees from lexemes therefore needs no second look at the text.
-/

namespace Bracketry

inductive Lexeme.Shape
  | blank
  | word
  | quoted (quote : Quote)
  | opener (bracket : Bracket)
  | closer (bracket : Bracket)
  | lineComment
  | blockComment
deriving DecidableEq

/-- The kind of token that a shape is written as. -/
def Lexeme.Shape.kind : Lexeme.Shape → Token.Kind
  | blank => .blank
  | word => .word
  | quoted q => .quoted q
  | opener _ => .opener
  | closer _ => .closer
  | lineComment => .lineComment
  | blockComment => .blockComment

/-- A stretch of text that was read as one item. -/
structure Lexeme where
  shape : Lexeme.Shape
  span : Span
deriving DecidableEq

def Lexeme.token (l : Lexeme) : Token := ⟨l.shape.kind, l.span⟩

end Bracketry
