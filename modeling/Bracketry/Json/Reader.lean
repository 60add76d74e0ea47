import Bracketry.Json.Value

/-!
# Reading JSON

A text is a JSON value if it keeps to the grammar from its first character to its last: blanks
between the parts are allowed, and nothing else is.

A text may keep to the grammar and still hold what no value can represent: an escaped surrogate
without its partner, a number beyond the largest finite one, or containers nested deeper than
`Value.maxDepth`. Such a part is passed over and read as `Value.unread`. It is for the reader of a
record to say whether that part was needed.

The functions that read containers take a measure of fuel. Twice the length of the text is enough
for any text, because between two characters at most two of them are called.
-/

namespace Bracketry.Json

/-- Whether a character may stand between the parts of a value. -/
def isGap (c : Char) : Bool := c == ' ' || c == '\n' || c == '\r' || c == '\t'

/-- A text without the gap at its start. -/
def skipGap (text : List Char) : List Char := text.dropWhile isGap

/-! ## Strings -/

/-- The value of a hexadecimal digit. -/
def hexValue? (c : Char) : Option Nat :=
  if '0' ≤ c ∧ c ≤ '9' then some (c.toNat - '0'.toNat)
  else if 'a' ≤ c ∧ c ≤ 'f' then some (c.toNat - 'a'.toNat + 10)
  else if 'A' ≤ c ∧ c ≤ 'F' then some (c.toNat - 'A'.toNat + 10)
  else none

/-- The number that four hexadecimal digits write. -/
def hex4? (a b c d : Char) : Option Nat := do
  return (((← hexValue? a) * 16 + (← hexValue? b)) * 16 + (← hexValue? c)) * 16 + (← hexValue? d)

/-- The character that a letter behind a backslash stands for. -/
def unescape? : Char → Option Char
  | '"' => some '"'
  | '\\' => some '\\'
  | '/' => some '/'
  | 'b' => some '\x08'
  | 'f' => some '\x0c'
  | 'n' => some '\n'
  | 'r' => some '\r'
  | 't' => some '\t'
  | _ => none

/-- The code points of a string whose opening quote was read, in front of `done` in reverse, and
the text behind its closing quote. Escaped surrogates are still apart. -/
def readUnits (done : List Nat) : List Char → Option (List Nat × List Char)
  | [] => none
  | '"' :: rest => some (done.reverse, rest)
  | '\\' :: 'u' :: a :: b :: c :: d :: rest =>
    match hex4? a b c d with
    | some n => readUnits (n :: done) rest
    | none => none
  | '\\' :: c :: rest =>
    match unescape? c with
    | some e => readUnits (e.toNat :: done) rest
    | none => none
  | c :: rest => if c.toNat < 0x20 then none else readUnits (c.toNat :: done) rest

/-- Whether a code point is the first half of a surrogate pair. -/
def isHighSurrogate (n : Nat) : Bool := 0xD800 ≤ n && n < 0xDC00

/-- Whether a code point is the second half of a surrogate pair. -/
def isLowSurrogate (n : Nat) : Bool := 0xDC00 ≤ n && n < 0xE000

/-- The characters of code points, in front of `done` in reverse, if every surrogate has its
partner. -/
def joinUnits (done : List Char) : List Nat → Option (List Char)
  | [] => some done.reverse
  | n :: rest =>
    if isHighSurrogate n then
      match rest with
      | m :: rest =>
        if isLowSurrogate m then
          joinUnits (Char.ofNat (0x10000 + (n - 0xD800) * 0x400 + (m - 0xDC00)) :: done) rest
        else none
      | [] => none
    else if isLowSurrogate n then none
    else joinUnits (Char.ofNat n :: done) rest

/-- A string whose opening quote was read: its text, if it has one, and the text behind it. -/
def readString (text : List Char) : Option (Option String × List Char) :=
  match readUnits [] text with
  | some (units, rest) => some ((joinUnits [] units).map String.ofList, rest)
  | none => none

/-! ## Numbers -/

/-- The number that decimal digits write. -/
def ofDigits (digits : List Char) : Nat :=
  digits.foldl (fun n c => n * 10 + (c.toNat - '0'.toNat)) 0

/-- The digits at the start of a text, and the text behind them. -/
def readDigits (text : List Char) : List Char × List Char :=
  (text.takeWhile Char.isDigit, text.dropWhile Char.isDigit)

/-- The digits of a whole number: a zero stands alone. -/
def readWhole (text : List Char) : Option (List Char × List Char) :=
  match readDigits text with
  | ([], _) => none
  | ('0' :: _ :: _, _) => none
  | (digits, rest) => some (digits, rest)

/-- The digits of a fraction, if there is one. -/
def readFraction : List Char → Option (List Char × List Char)
  | '.' :: text =>
    match readDigits text with
    | ([], _) => none
    | (digits, rest) => some (digits, rest)
  | text => some ([], text)

/-- The digits of an exponent behind its letter and its sign. -/
def readExponentDigits (sign : Int) (text : List Char) : Option (Option Int × List Char) :=
  match readDigits text with
  | ([], _) => none
  | (digits, rest) => some (some (sign * ofDigits digits), rest)

/-- The exponent, if there is one. -/
def readExponent : List Char → Option (Option Int × List Char)
  | c :: text =>
    if c = 'e' ∨ c = 'E' then
      match text with
      | '-' :: text => readExponentDigits (-1) text
      | '+' :: text => readExponentDigits 1 text
      | text => readExponentDigits 1 text
    else some (none, c :: text)
  | [] => some (none, [])

/-- From this number on, a number is too large to have a finite binary form of double precision:
it would be rounded to infinity. -/
def infinite : Nat := Nat.pow 2 1024 - Nat.pow 2 970

/-- Whether `mantissa` times ten to `exponent` is below `infinite`. The number of digits settles
it for all but a few exponents. -/
def isFinite (mantissa : Nat) (exponent : Int) : Bool :=
  let digits : Int := (toString mantissa).length
  if mantissa = 0 ∨ digits + exponent < 300 then true
  else if digits + exponent > 320 then false
  else if 0 ≤ exponent then mantissa * Nat.pow 10 exponent.toNat < infinite
  else mantissa < infinite * Nat.pow 10 (-exponent).toNat

/-- A number. -/
def readNumber (text : List Char) : Option (Value × List Char) :=
  let (sign, unsigned) := match text with
    | '-' :: rest => (['-'], rest)
    | _ => ([], text)
  match readWhole unsigned with
  | none => none
  | some (whole, rest) =>
    match readFraction rest with
    | none => none
    | some (fraction, rest) =>
      match readExponent rest with
      | none => none
      | some (exponent, rest) =>
        let n := ofDigits whole
        if sign.isEmpty && fraction.isEmpty && exponent.isNone && n < Value.bound then
          some (.natural n, rest)
        else if isFinite (ofDigits (whole ++ fraction)) (exponent.getD 0 - fraction.length) then
          some (.number (String.ofList (text.take (text.length - rest.length))), rest)
        else some (.unread, rest)

/-! ## Values -/

/-- The text behind a word that a text starts with. -/
def dropWord? (word : String) (text : List Char) : Option (List Char) :=
  if word.toList.isPrefixOf text then some (text.drop word.length) else none

/-- A container within `depth` others, if it could be read. -/
def contained (depth : Nat) (v : Option Value) : Value :=
  if depth < Value.maxDepth then v.getD .unread else .unread

mutual

/-- A value within `depth` containers, and the text behind it. -/
def readValue (fuel depth : Nat) (text : List Char) : Option (Value × List Char) :=
  match fuel with
  | 0 => none
  | fuel + 1 =>
    match skipGap text with
    | 'n' :: rest => (dropWord? "ull" rest).map (.null, ·)
    | 't' :: rest => (dropWord? "rue" rest).map (.bool true, ·)
    | 'f' :: rest => (dropWord? "alse" rest).map (.bool false, ·)
    | '"' :: rest =>
      match readString rest with
      | some (s, rest) => some ((s.map Value.string).getD .unread, rest)
      | none => none
    | '[' :: rest =>
      match skipGap rest with
      | ']' :: rest => some (contained depth (some (.array [])), rest)
      | rest => readItems fuel depth [] rest
    | '{' :: rest =>
      match skipGap rest with
      | '}' :: rest => some (contained depth (some (.object [])), rest)
      | rest => readFields fuel depth (some []) rest
    | rest => readNumber rest

/-- The items of an array from some item on, behind `done` in reverse. -/
def readItems (fuel depth : Nat) (done : List Value) (text : List Char) :
    Option (Value × List Char) :=
  match fuel with
  | 0 => none
  | fuel + 1 =>
    match readValue fuel (depth + 1) text with
    | none => none
    | some (v, rest) =>
      match skipGap rest with
      | ',' :: rest => readItems fuel depth (v :: done) rest
      | ']' :: rest => some (contained depth (some (.array (v :: done).reverse)), rest)
      | _ => none

/-- The fields of an object from some field on, behind `done` in reverse. Once a name has no text,
`done` is `none`. -/
def readFields (fuel depth : Nat) (done : Option (List (String × Value))) (text : List Char) :
    Option (Value × List Char) :=
  match fuel with
  | 0 => none
  | fuel + 1 =>
    match skipGap text with
    | '"' :: rest =>
      match readString rest with
      | none => none
      | some (name, rest) =>
        match skipGap rest with
        | ':' :: rest =>
          match readValue fuel (depth + 1) rest with
          | none => none
          | some (v, rest) =>
            let done := match done, name with
              | some fields, some name => some ((name, v) :: fields)
              | _, _ => none
            match skipGap rest with
            | ',' :: rest => readFields fuel depth done rest
            | '}' :: rest =>
              some (contained depth (done.map fun fields => .object fields.reverse), rest)
            | _ => none
        | _ => none
    | _ => none

end

/-- The value that a text says, from its first character to its last. -/
def readChars (text : List Char) : Option Value :=
  match readValue (2 * text.length + 2) 0 text with
  | some (v, rest) => if (skipGap rest).isEmpty then some v else none
  | none => none

def read (text : String) : Option Value := readChars text.toList

end Bracketry.Json
