import Bracketry.Json.Value

/-!
# Writing JSON

Two layouts of the same text. The compact one has no blanks at all. The indented one gives every
item and every field a line of its own, two spaces further in than its container, and puts a space
behind the colon; an empty container stays on one line in both.

In a string, a quote, a backslash and every control character are escaped, the latter by their
letter if they have one and by four lower-case hexadecimal digits otherwise. All else stands as it
is.

Every function here writes in front of a given text, so that writing never copies what it has
already written.
-/

namespace Bracketry.Json

/-- How the parts of a container are laid out. -/
inductive Layout
  | compact
  | indented
deriving DecidableEq

/-- What stands before an item at a depth, and before the end of its container one depth higher. -/
def Layout.lineBreak (depth : Nat) (rest : List Char) : Layout → List Char
  | compact => rest
  | indented => '\n' :: (List.replicate (2 * depth) ' ' ++ rest)

/-- What stands between the name of a field and its value. -/
def Layout.colon (rest : List Char) : Layout → List Char
  | compact => ':' :: rest
  | indented => ':' :: ' ' :: rest

/-- The digit of a number below sixteen. -/
def hexDigit (n : Nat) : Char := Nat.digitChar n

def writeChar (c : Char) (rest : List Char) : List Char :=
  if c = '"' then '\\' :: '"' :: rest
  else if c = '\\' then '\\' :: '\\' :: rest
  else if c = '\x08' then '\\' :: 'b' :: rest
  else if c = '\x0c' then '\\' :: 'f' :: rest
  else if c = '\n' then '\\' :: 'n' :: rest
  else if c = '\r' then '\\' :: 'r' :: rest
  else if c = '\t' then '\\' :: 't' :: rest
  else if c.toNat < 0x20 then
    '\\' :: 'u' :: '0' :: '0' :: hexDigit (c.toNat / 16) :: hexDigit (c.toNat % 16) :: rest
  else c :: rest

def writeString (s : String) (rest : List Char) : List Char :=
  '"' :: s.toList.foldr writeChar ('"' :: rest)

mutual

/-- A value at a depth, in front of a text. -/
def Value.write (layout : Layout) (depth : Nat) (rest : List Char) : Value → List Char
  | .null | .unread => "null".toList ++ rest
  | .bool true => "true".toList ++ rest
  | .bool false => "false".toList ++ rest
  | .natural n => (toString n).toList ++ rest
  | .number literal => literal.toList ++ rest
  | .string s => writeString s rest
  | .array [] => '[' :: ']' :: rest
  | .array (v :: vs) =>
    '[' :: layout.lineBreak (depth + 1)
      (v.write layout (depth + 1) (writeItems layout depth rest vs))
  | .object [] => '{' :: '}' :: rest
  | .object ((name, v) :: fields) =>
    '{' :: layout.lineBreak (depth + 1)
      (writeString name (layout.colon (v.write layout (depth + 1)
        (writeFields layout depth rest fields))))

/-- The items of an array behind the first, and its end. -/
def writeItems (layout : Layout) (depth : Nat) (rest : List Char) : List Value → List Char
  | [] => layout.lineBreak depth (']' :: rest)
  | v :: vs =>
    ',' :: layout.lineBreak (depth + 1)
      (v.write layout (depth + 1) (writeItems layout depth rest vs))

/-- The fields of an object behind the first, and its end. -/
def writeFields (layout : Layout) (depth : Nat) (rest : List Char) :
    List (String × Value) → List Char
  | [] => layout.lineBreak depth ('}' :: rest)
  | (name, v) :: fields =>
    ',' :: layout.lineBreak (depth + 1)
      (writeString name (layout.colon (v.write layout (depth + 1)
        (writeFields layout depth rest fields))))

end

def Value.render (v : Value) (layout : Layout) : String :=
  String.ofList (v.write layout 0 [])

end Bracketry.Json
