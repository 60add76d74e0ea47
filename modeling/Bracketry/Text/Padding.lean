/-!
# Padding

Text filled up with spaces to a given number of characters. Text that is already that long or
longer is left as it is: padding never cuts.
-/

namespace Bracketry.Text

/-- As many spaces as asked for. -/
def spaces (n : Nat) : String := String.ofList (List.replicate n ' ')

/-- Text pushed to the right end of a field. -/
def padLeft (width : Nat) (text : String) : String := spaces (width - text.length) ++ text

/-- Text at the left end of a field. -/
def padRight (width : Nat) (text : String) : String := text ++ spaces (width - text.length)

@[simp] theorem length_spaces (n : Nat) : (spaces n).length = n := by
  simp [spaces]

@[simp] theorem length_padLeft (width : Nat) (text : String) :
    (padLeft width text).length = max width text.length := by
  simp only [padLeft, String.length_append, length_spaces]; omega

end Bracketry.Text
