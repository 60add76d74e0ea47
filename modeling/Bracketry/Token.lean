import Bracketry.Bracket
import Bracketry.Text.Slice

/-!
# Tokens

A token is a kind and a span. It does not hold its text: the span names it, and `Token.lexeme?`
cuts it out of the source. A token can therefore be written down, read back and pointed into a
source that it did not come from, and then the slice may fail.

Kinds have two names. `Kind.label` is the tag in written records; `Kind.name` is what people are
shown.
-/

namespace Bracketry

open Text

/-- A stretch of text: where it starts, and how many bytes it takes. -/
structure Span where
  start : Place
  length : Nat
deriving DecidableEq

namespace Span

def ofChar (start : Place) (c : Char) : Span := ⟨start, c.utf8Size⟩

/-- The span with one more character at its end. -/
def extend (s : Span) (c : Char) : Span := ⟨s.start, s.length + c.utf8Size⟩

/-- The byte offset behind the last byte. -/
def stop (s : Span) : Nat := s.start.offset + s.length

/-- The text of a span, where the span is a slice of the source. -/
def text? (s : Span) (source : List Char) : Option (List Char) :=
  slice? source s.start.offset s.length

end Span

/-- The kind of a token. -/
inductive Token.Kind
  | blank
  | word
  | quoted (quote : Quote)
  | opener
  | closer
  | lineComment
  | blockComment
deriving DecidableEq

namespace Token.Kind

/-- The kinds in the alphabetical order of their names. -/
def byName : List Kind :=
  [closer, quoted .double, blockComment, opener, lineComment, quoted .single, blank, word]

theorem mem_byName (k : Kind) : k ∈ byName := by
  cases k with
  | quoted q => cases q <;> decide
  | _ => decide

/-- What a kind is called where people read it. -/
def name : Kind → String
  | blank => "whitespace"
  | word => "word"
  | quoted q => q.stringName
  | opener => "open delimiter"
  | closer => "close delimiter"
  | lineComment => "single-line comment"
  | blockComment => "multi-line comment"

/-- The tag of a kind in written records. -/
def label : Kind → String
  | blank => "Whitespace"
  | word => "Word"
  | quoted .double => "DoubleQuoteString"
  | quoted .single => "SingleQuoteString"
  | opener => "ListDelimiterOpen"
  | closer => "ListDelimiterClose"
  | lineComment => "SingleLineComment"
  | blockComment => "MultiLineComment"

/-- The kind with a given tag. -/
def ofLabel? (label : String) : Option Kind :=
  byName.find? (·.label == label)

theorem ofLabel?_label (k : Kind) : ofLabel? k.label = some k := by
  cases k with
  | quoted q => cases q <;> decide
  | _ => decide

def isBlank : Kind → Bool
  | blank => true
  | _ => false

def isComment : Kind → Bool
  | lineComment | blockComment => true
  | _ => false

def isDelimiter : Kind → Bool
  | opener | closer => true
  | _ => false

/-- What may stand between any two tokens without changing the structure of a text. -/
def isTrivia (k : Kind) : Bool := k.isBlank || k.isComment

end Token.Kind

/-- A token: a kind and a span of the source. -/
structure Token where
  kind : Token.Kind
  span : Span
deriving DecidableEq

/-- The text of a token, where its span is a slice of the source. -/
def Token.lexeme? (t : Token) (source : List Char) : Option (List Char) := t.span.text? source

end Bracketry
