import Bracketry.Json.Value

/-!
# Records

A record is written as an object with a field for each of its members. It is read from two forms:
from such an object, in which the fields stand in any order among others that are ignored, or from
an array of the members in their order, the last ones of which may be missing.

A record that is one of several shapes carries a tag: the field `type`, or the first item of the
array. To tell its shape, such a record is taken in whole first, so no part of it may be unread.
-/

namespace Bracketry.Json.Value

/-- The members of a record, each if it is there. A member's name must not be repeated, and an
array must not have more items than the record has members. -/
def members? (names : List String) : Value → Option (List (Option Value))
  | object fields =>
    if names.all fun name => (fields.filter (·.1 == name)).length ≤ 1 then
      some (names.map fun name => fields.lookup name)
    else none
  | array items =>
    if items.length ≤ names.length then
      some (items.map some ++ List.replicate (names.length - items.length) none)
    else none
  | _ => none

/-- A member that is a truth value and may be missing. -/
def flag? (default : Bool) : Option Value → Option Bool
  | none => some default
  | some v => v.bool?

/-- The name of the field that holds a tag. -/
def tagName : String := "type"

/-- The tag of a record, and the record without it. -/
def tagged? : Value → Option (Value × Value)
  | object fields =>
    match fields.filter (·.1 == tagName) with
    | [(_, tag)] => some (tag, object (fields.filter (·.1 != tagName)))
    | _ => none
  | array (tag :: items) => some (tag, array items)
  | _ => none

/-- The items of an array, each read in the same way. -/
def each? (read : Value → Option α) (v : Value) : Option (List α) :=
  v.array?.bind (·.mapM read)

end Bracketry.Json.Value
