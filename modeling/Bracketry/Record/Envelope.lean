import Bracketry.Fault
import Bracketry.Record.Tree

/-!
# Envelopes

How an outcome is handed to another program: one object that says whether it went well, and holds
what came of it or why it was refused. The two are told apart by their fields and not by `ok`: what
has the fields of a success is one, whatever its `ok` says, and all else is tried as a refusal.

The refusal inside an envelope is a `Refusal`, the part of a fault that is worth sending: the number
of its class, its message, and how many lists were open.
-/

namespace Bracketry

open Json (Value)

def Fault.Code.toValue (c : Fault.Code) : Value := .string c.label

/-- The class of faults that a record says: its tag, or an object whose only field is named by the
tag and says nothing. -/
def Fault.Code.ofValue? : Value → Option Fault.Code
  | .string label => ofLabel? label
  | .object [(label, .null)] => ofLabel? label
  | _ => none

/-- Why a text was refused, as it is sent. -/
structure Refusal where
  code : Nat
  message : String
  level : Option Nat
deriving DecidableEq

namespace Refusal

def ofFault (f : Fault) : Refusal := ⟨f.cause.code.number, f.message, f.cause.level?⟩

def keys : List String := ["error_code", "error_message", "data"]

/-- Codes are below this: they fit in thirty-two bits. -/
def codeBound : Nat := 0x100000000

def fields (r : Refusal) : List (String × Value) :=
  [("error_code", .natural r.code), ("error_message", .string r.message)] ++
    match r.level with
    | some level => [("data", .object [("nesting_level", .natural level)])]
    | none => []

def toValue (r : Refusal) : Value := .object r.fields

/-- The level in the `data` of a record; `null` says that there is none. -/
def level? : Option Value → Option (Option Nat)
  | none | some .null => some none
  | some v =>
    match v.members? ["nesting_level"] with
    | some [some level] => level.natural?.map some
    | _ => none

def ofValue? (v : Value) : Option Refusal :=
  match v.members? keys with
  | some [some code, some message, data] => do
    return ⟨← code.natural? codeBound, ← message.string?, ← level? data⟩
  | _ => none

end Refusal

/-- The outcome of reading a text as items. -/
inductive Envelope (α : Type)
  | success (ok : Bool) (items : List α)
  | refusal (ok : Bool) (refusal : Refusal)

/-- How the items of an envelope are written, and under which name. -/
structure Envelope.Format (α : Type) where
  key : String
  toValue : α → Value
  ofValue? : Value → Option α

namespace Envelope

def ofResult : Except Fault (List α) → Envelope α
  | .ok items => success true items
  | .error fault => refusal false (.ofFault fault)

/-- Whether an envelope has the shape of a success. -/
def isSuccess : Envelope α → Bool
  | success .. => true
  | refusal .. => false

def toValue (f : Format α) : Envelope α → Value
  | success ok items => .object [("ok", .bool ok), (f.key, .array (items.map f.toValue))]
  | refusal ok r => .object (("ok", .bool ok) :: r.fields)

def success? (f : Format α) (v : Value) : Option (Envelope α) :=
  match v.members? ["ok", f.key] with
  | some [some ok, some items] => do return success (← ok.bool?) (← items.each? f.ofValue?)
  | _ => none

def refusal? (v : Value) : Option (Envelope α) :=
  match v.members? ["ok"] with
  | some [some ok] => do return refusal (← ok.bool?) (← Refusal.ofValue? v)
  | _ => none

/-- The envelope that a record says. It is always an object, and every part of it must have been
read. -/
def ofValue? (f : Format α) (v : Value) : Option (Envelope α) :=
  match v with
  | .object _ => if v.whole then (success? f v).or (refusal? v) else none
  | _ => none

end Envelope

def Token.format : Envelope.Format Token :=
  ⟨"tokens", Token.toValue, fun v => Token.ofValue? v⟩

def Tree.format : Envelope.Format Tree :=
  ⟨"parse_trees", Tree.toValue, fun v => Tree.ofValue? v true⟩

end Bracketry
