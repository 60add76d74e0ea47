/-!
# JSON values

What a JSON text says. An object keeps its fields in the order of the text, repeated names
included, since a record that is read from it may have to object to them.

The numbers of this library count things, so a number without sign, fraction and exponent that fits
in sixty-four bits is kept as what it is; any other number is kept as it was written.
-/

namespace Bracketry.Json

inductive Value
  | null
  | bool (b : Bool)
  | natural (n : Nat)
  /-- A number that is no natural number below `Value.bound`, as it was written. -/
  | number (literal : String)
  | string (s : String)
  | array (items : List Value)
  | object (fields : List (String × Value))
  /-- A value that was passed over: its text keeps to the grammar, but it cannot be represented. -/
  | unread

namespace Value

/-- Natural numbers are below this: they fit in sixty-four bits. -/
def bound : Nat := 0x10000000000000000

/-- How many containers may stand one within the other. -/
def maxDepth : Nat := 127

def bool? : Value → Option Bool
  | bool b => some b
  | _ => none

/-- A natural number below a bound. -/
def natural? (v : Value) (below : Nat := bound) : Option Nat :=
  match v with
  | natural n => if n < below then some n else none
  | _ => none

def string? : Value → Option String
  | string s => some s
  | _ => none

def array? : Value → Option (List Value)
  | array items => some items
  | _ => none

/-- The value of a field; of a repeated field, the first. -/
def field? (name : String) : Value → Option Value
  | object fields => fields.lookup name
  | _ => none

mutual

/-- Whether every part of a value was read. -/
def whole : Value → Bool
  | array items => wholeItems items
  | object fields => wholeFields fields
  | unread => false
  | _ => true

/-- Whether every part of every item was read. -/
def wholeItems : List Value → Bool
  | [] => true
  | v :: vs => v.whole && wholeItems vs

/-- Whether every part of every field was read. -/
def wholeFields : List (String × Value) → Bool
  | [] => true
  | (_, v) :: fs => v.whole && wholeFields fs

end

end Value

end Bracketry.Json
