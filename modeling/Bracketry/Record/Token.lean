import Bracketry.Json.Record
import Bracketry.Token

/-!
# Records of places and tokens

A place is written as an offset, a line and a column, a token as its kind and its span. A kind is
written as its tag. It is read from its tag too, or from an object whose only field is named by the
tag and says nothing.
-/

namespace Bracketry

open Json (Value)
open Text

def Text.Place.keys : List String := ["offset", "line", "column"]

def Text.Place.toValue (p : Place) : Value :=
  .object [("offset", .natural p.offset), ("line", .natural p.line), ("column", .natural p.column)]

def Text.Place.ofValue? (v : Value) : Option Place :=
  match v.members? Place.keys with
  | some [some offset, some line, some column] => do
    return ⟨⟨← line.natural?, ← column.natural?⟩, ← offset.natural?⟩
  | _ => none

namespace Span

def keys : List String := ["offset", "length", "line", "column"]

def fields (s : Span) : List (String × Value) :=
  [("offset", .natural s.start.offset), ("length", .natural s.length),
    ("line", .natural s.start.line), ("column", .natural s.start.column)]

/-- The span that the members of a record say. -/
def ofMembers? : List (Option Value) → Option Span
  | [some offset, some length, some line, some column] => do
    return ⟨⟨⟨← line.natural?, ← column.natural?⟩, ← offset.natural?⟩, ← length.natural?⟩
  | _ => none

end Span

namespace Token.Kind

def toValue (k : Kind) : Value := .string k.label

/-- The kind that a record says. In the record of a tree, an object may say nothing in two ways: by
`null`, and by having no fields. -/
def ofValue? (v : Value) (inTree : Bool := false) : Option Kind :=
  match v with
  | .string label => ofLabel? label
  | .object [(label, .null)] => ofLabel? label
  | .object [(label, .object [])] => if inTree then ofLabel? label else none
  | _ => none

end Token.Kind

namespace Token

def keys : List String := "kind" :: Span.keys

def fields (t : Token) : List (String × Value) := ("kind", t.kind.toValue) :: t.span.fields

def toValue (t : Token) : Value := .object t.fields

def ofValue? (v : Value) (inTree : Bool := false) : Option Token :=
  match v.members? keys with
  | some (some kind :: span) => do return ⟨← Kind.ofValue? kind inTree, ← Span.ofMembers? span⟩
  | _ => none

end Token

end Bracketry
