import Bracketry.Text.Place

/-!
# Slices by bytes

A stretch of text is named by a byte offset and a byte length, and both ends must fall between two
characters. A stretch that starts or ends inside a character, or beyond the end, is no slice: the
functions here answer `none` for it rather than the nearest text.
-/

namespace Bracketry.Text

/-- The text behind its first `n` bytes, if those are whole characters. -/
def dropBytes? : Nat → List Char → Option (List Char)
  | 0, text => some text
  | _ + 1, [] => none
  | n + 1, c :: text => if c.utf8Size ≤ n + 1 then dropBytes? (n + 1 - c.utf8Size) text else none

/-- The first `n` bytes of a text, if those are whole characters. -/
def takeBytes? : Nat → List Char → Option (List Char)
  | 0, _ => some []
  | _ + 1, [] => none
  | n + 1, c :: text =>
    if c.utf8Size ≤ n + 1 then (takeBytes? (n + 1 - c.utf8Size) text).map (c :: ·) else none

/-- The `length` bytes of a text from byte `offset` on. -/
def slice? (text : List Char) (offset length : Nat) : Option (List Char) :=
  (dropBytes? offset text).bind (takeBytes? length)

theorem dropBytes?_byteLength (s t : List Char) : dropBytes? (byteLength s) (s ++ t) = some t := by
  induction s with
  | nil => rw [byteLength_nil, List.nil_append, dropBytes?]
  | cons c s ih =>
    have h : 0 < c.utf8Size := c.utf8Size_pos
    obtain ⟨n, hn⟩ : ∃ n, byteLength (c :: s) = n + 1 :=
      ⟨byteLength (c :: s) - 1, by simp; omega⟩
    have hs : n + 1 - c.utf8Size = byteLength s := by simp at hn; omega
    rw [hn, List.cons_append, dropBytes?, if_pos (by simp at hn; omega), hs, ih]

theorem takeBytes?_byteLength (s t : List Char) : takeBytes? (byteLength s) (s ++ t) = some s := by
  induction s with
  | nil => rw [byteLength_nil, List.nil_append, takeBytes?]
  | cons c s ih =>
    have h : 0 < c.utf8Size := c.utf8Size_pos
    obtain ⟨n, hn⟩ : ∃ n, byteLength (c :: s) = n + 1 :=
      ⟨byteLength (c :: s) - 1, by simp; omega⟩
    have hs : n + 1 - c.utf8Size = byteLength s := by simp at hn; omega
    rw [hn, List.cons_append, takeBytes?, if_pos (by simp at hn; omega), hs, ih, Option.map_some]

/-- A slice that is cut out where a text was put together gives back that part. -/
theorem slice?_append (s t u : List Char) :
    slice? (s ++ (t ++ u)) (byteLength s) (byteLength t) = some t := by
  rw [slice?, dropBytes?_byteLength, Option.bind_some, takeBytes?_byteLength]

end Bracketry.Text
