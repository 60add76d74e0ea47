import Bracketry.Text.Table.Hidden

/-!
# Quoted text

Text between double quotes, in which nothing is hidden: what has no face of its own is written as an
escape, with a letter for the four usual ones and the hexadecimal code point for all others. A
single quote needs no escape between double ones.
-/

namespace Bracketry.Text

/-- A code point in lower-case hexadecimal digits. -/
def hexDigits (n : Nat) : String := String.ofList (Nat.toDigits 16 n)

/-- A character as it stands in quoted text. -/
def quotedChar (c : Char) : String :=
  match c with
  | '\x00' => "\\0"
  | '\t' => "\\t"
  | '\r' => "\\r"
  | '\n' => "\\n"
  | '"' => "\\\""
  | '\\' => "\\\\"
  | c =>
    if hiddenRanges.has c then "\\u\x7b" ++ hexDigits c.toNat ++ "\x7d" else String.singleton c

/-- Text in double quotes. -/
def quoted (text : List Char) : String :=
  "\"" ++ String.join (text.map quotedChar) ++ "\""

end Bracketry.Text
