/-!
# Blank characters

Which characters separate words. The set is the Unicode property `White_Space`, which has had the
same twenty-five members since version 6.3; a tab or a line feed belongs to it no less than a space.
Blankness is about separation only: of all of these characters the line feed alone ends a line
(`Bracketry.Text.Place`).
-/

namespace Bracketry.Text

/-- Whether a character is blank, that is, has the Unicode property `White_Space`. -/
def isBlank (c : Char) : Bool :=
  let n := c.toNat
  (0x09 ≤ n && n ≤ 0x0D) || n == 0x20 || n == 0x85 || n == 0xA0 || n == 0x1680 ||
  (0x2000 ≤ n && n ≤ 0x200A) || n == 0x2028 || n == 0x2029 || n == 0x202F || n == 0x205F ||
  n == 0x3000

end Bracketry.Text
