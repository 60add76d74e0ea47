import Mathlib.Tactic.ByContra
import Mathlib.Tactic.SplitIfs
import Bracketry.Json.Reader
import Bracketry.Json.Writer

/-!
# What is written is read back

A value that records are made of (`Value.Plain`) is read back from its text in either layout
(`read_render`). It comes back whole if no more than `Value.maxDepth` containers are nested in it
(`Value.Plain.clip_eq_self`), and with a part passed over otherwise (`Value.Plain.whole_clip`).

A value is written in front of a text, and it is read from there with that text left over: this is
`Value.ReadsBack`, proved for one sort of value after the other. What follows a value must not look
like more of it, which only matters for numbers (`Ends`). The fuel that a reader needs is bounded by
the length of the text in front of it, so no measure of values is needed: the text behind an item is
shorter than the item and that text (`Value.Plain.suffix_write`).
-/

namespace Bracketry.Json

/-! ## Gaps -/

@[simp] theorem skipGap_cons {c : Char} (h : isGap c = false) (text : List Char) :
    skipGap (c :: text) = c :: text :=
  List.dropWhile_cons_of_neg (by rw [h]; exact Bool.false_ne_true)

@[simp] theorem skipGap_lineBreak (layout : Layout) (depth : Nat) (text : List Char) :
    skipGap (layout.lineBreak depth text) = skipGap text := by
  cases layout with
  | compact => rfl
  | indented =>
    have blanks (n : Nat) : skipGap (List.replicate n ' ' ++ text) = skipGap text := by
      induction n with
      | zero => rfl
      | succ n ih => exact ih
    exact blanks (2 * depth)

/-! ## Strings -/

theorem hexValue?_hexDigit : ∀ n < 16, hexValue? (hexDigit n) = some n := by decide

theorem hex4?_hexDigit {n : Nat} (h : n < 256) :
    hex4? '0' '0' (hexDigit (n / 16)) (hexDigit (n % 16)) = some n := by
  have zero : hexValue? '0' = some 0 := rfl
  have parts : ((0 * 16 + 0) * 16 + n / 16) * 16 + n % 16 = n := by omega
  unfold hex4?
  rw [zero, hexValue?_hexDigit _ (by omega), hexValue?_hexDigit _ (by omega)]
  exact congrArg some parts

/-- A character that was written is read as its code point, whether or not it was escaped. -/
theorem readUnits_writeChar (done : List Nat) (c : Char) (rest : List Char) :
    readUnits done (writeChar c rest) = readUnits (c.toNat :: done) rest := by
  unfold writeChar
  split_ifs with quote backslash backspace formFeed lineFeed ret tab control
  · rw [quote]; rfl
  · rw [backslash]; rfl
  · rw [backspace]; rfl
  · rw [formFeed]; rfl
  · rw [lineFeed]; rfl
  · rw [ret]; rfl
  · rw [tab]; rfl
  · rw [readUnits, hex4?_hexDigit (by omega)]
  · rw [readUnits, if_neg control]
    · exact quote
    · intro _ _ _ _ _ h _
      exact backslash h
    · intro _ _ h _
      exact backslash h

theorem readUnits_foldr (s rest : List Char) (done : List Nat) :
    readUnits done (s.foldr writeChar ('"' :: rest)) =
      some (done.reverse ++ s.map Char.toNat, rest) := by
  induction s generalizing done with
  | nil => rw [List.foldr_nil, readUnits, List.map_nil, List.append_nil]
  | cons c s ih =>
    rw [List.foldr_cons, readUnits_writeChar, ih, List.map_cons, List.reverse_cons,
      List.append_assoc, List.singleton_append]

/-- Characters are no surrogates. -/
theorem joinUnits_toNat (done : List Char) (c : Char) (rest : List Nat) :
    joinUnits done (c.toNat :: rest) = joinUnits (c :: done) rest := by
  have scalar : c.toNat < 0xD800 ∨ 0xDFFF < c.toNat := by
    rcases c.valid with h | h
    · exact .inl h
    · exact .inr h.1
  have high : isHighSurrogate c.toNat = false := by
    simp only [isHighSurrogate, Bool.and_eq_false_iff, decide_eq_false_iff_not]
    omega
  have low : isLowSurrogate c.toNat = false := by
    simp only [isLowSurrogate, Bool.and_eq_false_iff, decide_eq_false_iff_not]
    omega
  conv => lhs; unfold joinUnits
  rw [high, low, Char.ofNat_toNat]
  rfl

theorem joinUnits_map_toNat (s done : List Char) :
    joinUnits done (s.map Char.toNat) = some (done.reverse ++ s) := by
  induction s generalizing done with
  | nil => rw [List.map_nil, joinUnits, List.append_nil]
  | cons c s ih =>
    rw [List.map_cons, joinUnits_toNat, ih, List.reverse_cons, List.append_assoc,
      List.singleton_append]

/-- A string that was written is read back. -/
theorem readString_foldr (s : String) (rest : List Char) :
    readString (s.toList.foldr writeChar ('"' :: rest)) = some (some s, rest) := by
  rw [readString, readUnits_foldr]
  simp only [List.reverse_nil, List.nil_append, joinUnits_map_toNat, Option.map_some,
    String.ofList_toList]

/-! ## Numbers -/

/-- What may follow a value: the end of the text, or a character between two values. -/
def Ends (rest : List Char) : Prop :=
  ∀ c ∈ rest.head?, c = ',' ∨ c = ']' ∨ c = '}' ∨ c = '\n'

theorem ofDigits_toDigits (n : Nat) : ofDigits (Nat.toDigits 10 n) = n := by
  have same : ofDigits (Nat.toDigits 10 n) = Nat.ofDigitChars 10 (Nat.toDigits 10 n) 0 := by
    rw [Nat.ofDigitChars_eq_foldl, ofDigits]
    simp only [Nat.mul_comm]
  rw [same, Nat.ofDigitChars_ten_toDigits]

theorem exists_digit_cons (n : Nat) :
    ∃ d ds, Nat.toDigits 10 n = d :: ds ∧ d.isDigit = true := by
  obtain ⟨d, ds, written⟩ := List.exists_cons_of_ne_nil (Nat.toDigits_ne_nil (n := n) (b := 10))
  have here : d ∈ Nat.toDigits 10 n := by
    rw [written]
    exact List.mem_cons_self
  exact ⟨d, ds, written, Nat.isDigit_of_mem_toDigits (by decide) (by decide) here⟩

/-- Only the number zero is written with a zero in front. -/
theorem head?_toDigits {n : Nat} (h : 0 < n) : (Nat.toDigits 10 n).head? ≠ some '0' := by
  induction n using Nat.strongRecOn with
  | ind n ih =>
    rw [Nat.toDigits_eq_if (by decide)]
    split
    · simp; omega
    · next ge =>
      have front := ih (n / 10) (by omega) (by omega)
      rw [List.head?_append, List.head?_eq_some_head Nat.toDigits_ne_nil]
      rw [List.head?_eq_some_head Nat.toDigits_ne_nil] at front
      exact front

theorem readDigits_append {digits rest : List Char} (h : ∀ c ∈ digits, c.isDigit = true)
    (hrest : ∀ c ∈ rest.head?, c.isDigit = false) :
    readDigits (digits ++ rest) = (digits, rest) := by
  have stop : rest.takeWhile Char.isDigit = [] ∧ rest.dropWhile Char.isDigit = rest := by
    cases rest with
    | nil => exact ⟨rfl, rfl⟩
    | cons c rest =>
      have other : ¬ c.isDigit = true := by rw [hrest c rfl]; exact Bool.false_ne_true
      exact ⟨List.takeWhile_cons_of_neg other, List.dropWhile_cons_of_neg other⟩
  rw [readDigits, List.takeWhile_append_of_pos h, List.dropWhile_append_of_pos h, stop.1, stop.2,
    List.append_nil]

theorem Ends.isDigit {rest : List Char} (h : Ends rest) :
    ∀ c ∈ rest.head?, c.isDigit = false := by
  intro c hc
  rcases h c hc with rfl | rfl | rfl | rfl <;> rfl

theorem readWhole_toDigits (n : Nat) {rest : List Char} (h : Ends rest) :
    readWhole (Nat.toDigits 10 n ++ rest) = some (Nat.toDigits 10 n, rest) := by
  have digits : ∀ c ∈ Nat.toDigits 10 n, c.isDigit = true := fun c hc =>
    Nat.isDigit_of_mem_toDigits (by decide) (by decide) hc
  have alone (c : Char) (tail : List Char) : Nat.toDigits 10 n ≠ '0' :: c :: tail := by
    intro written
    by_cases hn : 0 < n
    · exact head?_toDigits hn (by rw [written]; rfl)
    · rw [Nat.eq_zero_of_not_pos hn] at written
      cases written
  rw [readWhole, readDigits_append digits h.isDigit]
  split
  · next empty => exact absurd (congrArg Prod.fst empty) Nat.toDigits_ne_nil
  · next zero => exact absurd (congrArg Prod.fst zero) (alone _ _)
  · next same => exact congrArg some same.symm

theorem readFraction_of_ends {rest : List Char} (h : Ends rest) :
    readFraction rest = some ([], rest) := by
  unfold readFraction
  split
  · next text => rcases h '.' rfl with h | h | h | h <;> cases h
  · rfl

theorem readExponent_of_ends {rest : List Char} (h : Ends rest) :
    readExponent rest = some (none, rest) := by
  unfold readExponent
  split
  · next c text =>
    have plain : ¬ (c = 'e' ∨ c = 'E') := by
      rcases h c rfl with rfl | rfl | rfl | rfl <;> decide
    rw [if_neg plain]
  · rfl

/-- A number that was written is read back, if it fits. -/
theorem readNumber_toDigits {n : Nat} (hn : n < Value.bound) {rest : List Char} (h : Ends rest) :
    readNumber (Nat.toDigits 10 n ++ rest) = some (.natural n, rest) := by
  have plain (t : List Char) : Nat.toDigits 10 n ++ rest ≠ '-' :: t := by
    intro minus
    obtain ⟨d, ds, written, digit⟩ := exists_digit_cons n
    rw [written] at minus
    cases minus
    cases digit
  unfold readNumber
  split
  next sign unsigned split =>
    have parts : (sign, unsigned) = ([], Nat.toDigits 10 n ++ rest) := by
      rw [← split]
      split
      · next t minus => exact absurd minus (plain t)
      · rfl
    cases parts
    simp only [readWhole_toDigits n h, readFraction_of_ends h, readExponent_of_ends h,
      ofDigits_toDigits]
    rw [if_pos (by simpa using hn)]

/-! ## Texts that are written in front of others -/

theorem suffix_lineBreak (layout : Layout) (depth : Nat) (rest : List Char) :
    rest <:+ layout.lineBreak depth rest := by
  cases layout with
  | compact => exact List.suffix_refl rest
  | indented => exact (List.suffix_append _ rest).trans (List.suffix_cons _ _)

theorem suffix_writeChar (c : Char) (rest : List Char) : rest <:+ writeChar c rest := by
  unfold writeChar
  repeat' split
  all_goals simp only [List.suffix_cons_iff, List.suffix_refl, or_true]

theorem suffix_writeString (s : String) (rest : List Char) : rest <:+ writeString s rest := by
  have chars (s : List Char) : rest <:+ s.foldr writeChar ('"' :: rest) := by
    induction s with
    | nil => exact List.suffix_cons _ rest
    | cons c s ih => exact ih.trans (suffix_writeChar c _)
  exact (chars s.toList).trans (List.suffix_cons _ _)

theorem suffix_colon (layout : Layout) (rest : List Char) : rest <:+ layout.colon rest := by
  cases layout with
  | compact => exact List.suffix_cons _ rest
  | indented => exact List.suffix_append [':', ' '] rest

/-- Behind a colon there is at most a gap in front of the value. -/
theorem exists_colon (layout : Layout) (rest : List Char) :
    ∃ text, layout.colon rest = ':' :: text ∧ skipGap text = skipGap rest := by
  cases layout with
  | compact => exact ⟨rest, rfl, rfl⟩
  | indented => exact ⟨' ' :: rest, rfl, rfl⟩

namespace Value

/-- A value that records are made of: every number fits and every part can be represented. -/
inductive Plain : Value → Prop
  | null : Plain null
  | bool (b : Bool) : Plain (bool b)
  | natural {n : Nat} (h : n < bound) : Plain (natural n)
  | string (s : String) : Plain (string s)
  | array {items : List Value} (h : ∀ v ∈ items, Plain v) : Plain (array items)
  | object {fields : List (String × Value)} (h : ∀ f ∈ fields, Plain f.2) :
    Plain (object fields)

mutual

/-- What is read of a value within `depth` containers. -/
def clip (depth : Nat) : Value → Value
  | array items => contained depth (some (array (clipItems (depth + 1) items)))
  | object fields => contained depth (some (object (clipFields (depth + 1) fields)))
  | v => v

/-- What is read of items within `depth` containers. -/
def clipItems (depth : Nat) : List Value → List Value
  | [] => []
  | v :: vs => v.clip depth :: clipItems depth vs

/-- What is read of fields within `depth` containers. -/
def clipFields (depth : Nat) : List (String × Value) → List (String × Value)
  | [] => []
  | (name, v) :: fields => (name, v.clip depth) :: clipFields depth fields

end

mutual

/-- How many containers stand one within the other at the deepest place of a value. -/
def nesting : Value → Nat
  | array items => nestingItems items + 1
  | object fields => nestingFields fields + 1
  | _ => 0

/-- The nesting of the deepest of some items. -/
def nestingItems : List Value → Nat
  | [] => 0
  | v :: vs => max v.nesting (nestingItems vs)

/-- The nesting of the deepest of some fields. -/
def nestingFields : List (String × Value) → Nat
  | [] => 0
  | (_, v) :: fields => max v.nesting (nestingFields fields)

end

section write

variable {layout : Layout} {depth : Nat} {rest : List Char}

theorem write_natural (n : Nat) :
    (natural n).write layout depth rest = Nat.toDigits 10 n ++ rest := by
  show (toString n).toList ++ rest = _
  rw [Nat.toString_eq_ofList_toDigits, String.toList_ofList]

theorem write_array_cons (v : Value) (vs : List Value) :
    (array (v :: vs)).write layout depth rest = '[' :: layout.lineBreak (depth + 1)
      (v.write layout (depth + 1) (writeItems layout depth rest vs)) :=
  rfl

theorem write_object_cons (f : String × Value) (fields : List (String × Value)) :
    (object (f :: fields)).write layout depth rest = '{' :: layout.lineBreak (depth + 1)
      (writeString f.1 (layout.colon
        (f.2.write layout (depth + 1) (writeFields layout depth rest fields)))) :=
  rfl

theorem suffix_items {v : Value} {vs : List Value}
    (h : ∀ w ∈ v :: vs, ∀ depth rest, rest <:+ write layout depth rest w) :
    rest <:+ v.write layout (depth + 1) (writeItems layout depth rest vs) := by
  induction vs generalizing v with
  | nil =>
    have ending := (List.suffix_cons ']' rest).trans (suffix_lineBreak layout depth _)
    exact ending.trans (h v List.mem_cons_self _ _)
  | cons w vs ih =>
    have items := ih fun x hx => h x (List.mem_cons_of_mem v hx)
    have behind := (items.trans (suffix_lineBreak layout (depth + 1) _)).trans
      (List.suffix_cons ',' _)
    exact behind.trans (h v List.mem_cons_self _ _)

theorem suffix_field {v : Value} (h : ∀ depth rest, rest <:+ write layout depth rest v)
    (name : String) (depth : Nat) (rest : List Char) :
    rest <:+ writeString name (layout.colon (v.write layout depth rest)) :=
  ((h depth rest).trans (suffix_colon layout _)).trans (suffix_writeString name _)

theorem suffix_fields {f : String × Value} {fields : List (String × Value)}
    (h : ∀ g ∈ f :: fields, ∀ depth rest, rest <:+ write layout depth rest g.2) :
    rest <:+ writeString f.1 (layout.colon
      (f.2.write layout (depth + 1) (writeFields layout depth rest fields))) := by
  induction fields generalizing f with
  | nil =>
    have ending := (List.suffix_cons '}' rest).trans (suffix_lineBreak layout depth _)
    exact ending.trans (suffix_field (h f List.mem_cons_self) _ _ _)
  | cons g fields ih =>
    have others := ih fun x hx => h x (List.mem_cons_of_mem f hx)
    have behind := (others.trans (suffix_lineBreak layout (depth + 1) _)).trans
      (List.suffix_cons ',' _)
    exact behind.trans (suffix_field (h f List.mem_cons_self) _ _ _)

/-- What is written in front of a text leaves it as it is. -/
theorem Plain.suffix_write {v : Value} (h : v.Plain) (layout : Layout) (depth : Nat)
    (rest : List Char) : rest <:+ v.write layout depth rest := by
  induction h generalizing depth rest with
  | null => exact List.suffix_append _ rest
  | bool b =>
    cases b with
    | false => exact List.suffix_append _ rest
    | true => exact List.suffix_append _ rest
  | natural h => exact List.suffix_append _ rest
  | string s => exact suffix_writeString s rest
  | @array items _ ih =>
    cases items with
    | nil => exact List.suffix_append ['[', ']'] rest
    | cons v vs =>
      exact ((suffix_items ih).trans (suffix_lineBreak layout _ _)).trans (List.suffix_cons _ _)
  | @object fields _ ih =>
    cases fields with
    | nil => exact List.suffix_append ['{', '}'] rest
    | cons f fields =>
      exact ((suffix_fields ih).trans (suffix_lineBreak layout _ _)).trans (List.suffix_cons _ _)

end write

/-! ## Reading what was written -/

/-- A value that was written is read back as far as it is not too deep, and nothing behind it. -/
def ReadsBack (layout : Layout) (v : Value) : Prop :=
  ∀ fuel depth rest, Ends rest → 2 * (v.write layout depth rest).length < fuel →
    readValue fuel depth (v.write layout depth rest) = some (v.clip depth, rest)

/-- A value is only read with some fuel. -/
theorem readsBack_of_succ {layout : Layout} {v : Value}
    (h : ∀ fuel depth rest, Ends rest → 2 * (v.write layout depth rest).length ≤ fuel →
      readValue (fuel + 1) depth (v.write layout depth rest) = some (v.clip depth, rest)) :
    v.ReadsBack layout := by
  intro fuel depth rest ends hfuel
  obtain ⟨fuel, rfl⟩ := Nat.exists_eq_add_one_of_ne_zero (Nat.ne_zero_of_lt hfuel)
  exact h fuel depth rest ends (Nat.le_of_lt_succ hfuel)

/-- A gap before a value does not matter. -/
theorem readValue_congr {text text' : List Char} (h : skipGap text = skipGap text')
    (fuel depth : Nat) : readValue fuel depth text = readValue fuel depth text' := by
  cases fuel with
  | zero => rfl
  | succ fuel => unfold readValue; rw [h]

theorem readItems_congr {text text' : List Char} (h : skipGap text = skipGap text')
    (fuel depth : Nat) (done : List Value) :
    readItems fuel depth done text = readItems fuel depth done text' := by
  cases fuel with
  | zero => rfl
  | succ fuel => unfold readItems; rw [readValue_congr h]

theorem readFields_congr {text text' : List Char} (h : skipGap text = skipGap text')
    (fuel depth : Nat) (done : Option (List (String × Value))) :
    readFields fuel depth done text = readFields fuel depth done text' := by
  cases fuel with
  | zero => rfl
  | succ fuel => unfold readFields; rw [h]

theorem ends_lineBreak (layout : Layout) (depth : Nat) {rest : List Char} (h : Ends rest) :
    Ends (layout.lineBreak depth rest) := by
  cases layout with
  | compact => exact h
  | indented =>
    intro c hc
    cases hc
    decide

theorem ends_cons {c : Char} (h : c = ',' ∨ c = ']' ∨ c = '}' ∨ c = '\n') (rest : List Char) :
    Ends (c :: rest) := by
  intro d hd
  cases hd
  exact h

theorem ends_writeItems (layout : Layout) (depth : Nat) (rest : List Char) (vs : List Value) :
    Ends (writeItems layout depth rest vs) := by
  cases vs with
  | nil => exact ends_lineBreak layout depth (ends_cons (by decide) rest)
  | cons v vs => exact ends_cons (by decide) _

theorem ends_writeFields (layout : Layout) (depth : Nat) (rest : List Char)
    (fields : List (String × Value)) : Ends (writeFields layout depth rest fields) := by
  cases fields with
  | nil => exact ends_lineBreak layout depth (ends_cons (by decide) rest)
  | cons f fields => exact ends_cons (by decide) _

section containers

variable {layout : Layout} {fuel : Nat}

theorem readItems_write {v : Value} {vs : List Value} (plain : ∀ w ∈ v :: vs, w.Plain)
    (h : ∀ w ∈ v :: vs, w.ReadsBack layout) (depth : Nat) (done : List Value) (rest : List Char)
    (hfuel : 2 * (v.write layout (depth + 1) (writeItems layout depth rest vs)).length < fuel) :
    readItems (fuel + 1) depth done (v.write layout (depth + 1) (writeItems layout depth rest vs)) =
      some (contained depth (some (.array (done.reverse ++ clipItems (depth + 1) (v :: vs)))),
        rest) := by
  induction vs generalizing v done fuel with
  | nil =>
    rw [readItems, h v List.mem_cons_self _ _ _ (ends_writeItems _ _ _ _) hfuel]
    simp only [writeItems, skipGap_lineBreak, skipGap_cons (c := ']') rfl, clipItems,
      List.reverse_cons]
  | cons w vs ih =>
    have behind := ((plain v List.mem_cons_self).suffix_write layout (depth + 1)
      (writeItems layout depth rest (w :: vs))).length_le
    have gap := (suffix_lineBreak layout (depth + 1)
      (w.write layout (depth + 1) (writeItems layout depth rest vs))).length_le
    rw [readItems, h v List.mem_cons_self _ _ _ (ends_writeItems _ _ _ _) hfuel]
    rw [writeItems, List.length_cons] at behind
    rw [writeItems] at hfuel
    obtain ⟨fuel, rfl⟩ : ∃ n, fuel = n + 1 := ⟨fuel - 1, by omega⟩
    simp only [writeItems, skipGap_cons (c := ',') rfl]
    rw [readItems_congr (skipGap_lineBreak _ _ _),
      ih (fun x hx => plain x (List.mem_cons_of_mem v hx))
        (fun x hx => h x (List.mem_cons_of_mem v hx)) _ (by omega)]
    simp only [clipItems, List.reverse_cons, List.append_assoc, List.singleton_append]

/-- The first of some fields: its name and its value are read, and then what is behind them. -/
theorem readField_write {f : String × Value} (h : f.2.ReadsBack layout) (depth : Nat)
    (done : List (String × Value)) {rest : List Char} (ends : Ends rest)
    (hfuel :
      2 * (writeString f.1 (layout.colon (f.2.write layout (depth + 1) rest))).length < fuel) :
    readFields (fuel + 1) depth (some done)
      (writeString f.1 (layout.colon (f.2.write layout (depth + 1) rest))) =
    match skipGap rest with
    | ',' :: rest => readFields fuel depth (some ((f.1, f.2.clip (depth + 1)) :: done)) rest
    | '}' :: rest => some (contained depth
        (some (.object ((f.1, f.2.clip (depth + 1)) :: done).reverse)), rest)
    | _ => none := by
  have named := (suffix_writeString f.1
    (layout.colon (f.2.write layout (depth + 1) rest))).length_le
  have colon := (suffix_colon layout (f.2.write layout (depth + 1) rest)).length_le
  obtain ⟨text, hcolon, gap⟩ := exists_colon layout (f.2.write layout (depth + 1) rest)
  have value := h fuel (depth + 1) rest ends (by omega)
  rw [readFields, writeString, skipGap_cons rfl]
  simp only [readString_foldr]
  rw [hcolon, skipGap_cons rfl]
  simp only [readValue_congr gap, value]
  rfl

theorem readFields_write {f : String × Value} {fields : List (String × Value)}
    (plain : ∀ g ∈ f :: fields, g.2.Plain) (h : ∀ g ∈ f :: fields, g.2.ReadsBack layout)
    (depth : Nat) (done : List (String × Value)) (rest : List Char)
    (hfuel : 2 * (writeString f.1 (layout.colon
      (f.2.write layout (depth + 1) (writeFields layout depth rest fields)))).length < fuel) :
    readFields (fuel + 1) depth (some done) (writeString f.1 (layout.colon
      (f.2.write layout (depth + 1) (writeFields layout depth rest fields)))) =
      some (contained depth
        (some (.object (done.reverse ++ clipFields (depth + 1) (f :: fields)))), rest) := by
  induction fields generalizing f done fuel with
  | nil =>
    rw [readField_write (h f List.mem_cons_self) _ _ (ends_writeFields _ _ _ _) hfuel]
    simp only [writeFields, skipGap_lineBreak, skipGap_cons (c := '}') rfl, clipFields,
      List.reverse_cons]
  | cons g fields ih =>
    have behind := (suffix_field (fun _ _ => (plain f List.mem_cons_self).suffix_write layout _ _)
      f.1 (depth + 1) (writeFields layout depth rest (g :: fields))).length_le
    have gap := (suffix_lineBreak layout (depth + 1) (writeString g.1 (layout.colon
      (g.2.write layout (depth + 1) (writeFields layout depth rest fields))))).length_le
    rw [readField_write (h f List.mem_cons_self) _ _ (ends_writeFields _ _ _ _) hfuel]
    rw [writeFields, List.length_cons] at behind
    rw [writeFields] at hfuel
    obtain ⟨fuel, rfl⟩ : ∃ n, fuel = n + 1 := ⟨fuel - 1, by omega⟩
    simp only [writeFields, skipGap_cons (c := ',') rfl]
    rw [readFields_congr (skipGap_lineBreak _ _ _),
      ih (fun x hx => plain x (List.mem_cons_of_mem f hx))
        (fun x hx => h x (List.mem_cons_of_mem f hx)) _ (by omega)]
    simp only [clipFields, List.reverse_cons, List.append_assoc, List.singleton_append]

end containers

/-! ## Values -/

theorem isGap_of_isDigit {d : Char} (h : d.isDigit = true) : isGap d = false := by
  have other {c : Char} (hc : c.isDigit = false) : (d == c) = false := by
    rw [beq_eq_false_iff_ne]
    rintro rfl
    rw [h] at hc
    cases hc
  rw [isGap, other (c := ' ') rfl, other (c := '\n') rfl, other (c := '\r') rfl,
    other (c := '\t') rfl]
  rfl

theorem readValue_digit {d : Char} (h : d.isDigit = true) (fuel depth : Nat) (text : List Char) :
    readValue (fuel + 1) depth (d :: text) = readNumber (d :: text) := by
  unfold readValue
  rw [skipGap_cons (isGap_of_isDigit h)]
  split
  case h_7 => rfl
  all_goals next heq => cases heq; cases h

theorem readValue_array {text : List Char} (h : ∀ rest, skipGap text ≠ ']' :: rest)
    (fuel depth : Nat) :
    readValue (fuel + 1) depth ('[' :: text) = readItems fuel depth [] (skipGap text) := by
  unfold readValue
  rw [skipGap_cons rfl]
  simp only

theorem readValue_object {text : List Char} (h : ∀ rest, skipGap text ≠ '}' :: rest)
    (fuel depth : Nat) :
    readValue (fuel + 1) depth ('{' :: text) = readFields fuel depth (some []) (skipGap text) := by
  unfold readValue
  rw [skipGap_cons rfl]
  simp only

/-- The first character of a value begins it. -/
theorem Plain.exists_cons {v : Value} (h : v.Plain) (layout : Layout) (depth : Nat)
    (rest : List Char) :
    ∃ c text, v.write layout depth rest = c :: text ∧ isGap c = false ∧ c ≠ ']' := by
  cases h with
  | null => exact ⟨_, _, rfl, rfl, by decide⟩
  | bool b =>
    cases b with
    | false => exact ⟨_, _, rfl, rfl, by decide⟩
    | true => exact ⟨_, _, rfl, rfl, by decide⟩
  | @natural n _ =>
    obtain ⟨d, ds, written, digit⟩ := exists_digit_cons n
    refine ⟨d, ds ++ rest, ?_, isGap_of_isDigit digit, ?_⟩
    · rw [write_natural, written, List.cons_append]
    · rintro rfl
      cases digit
  | string s => exact ⟨_, _, rfl, rfl, by decide⟩
  | @array items _ =>
    cases items with
    | nil => exact ⟨_, _, rfl, rfl, by decide⟩
    | cons v vs => exact ⟨_, _, rfl, rfl, by decide⟩
  | @object fields _ =>
    cases fields with
    | nil => exact ⟨_, _, rfl, rfl, by decide⟩
    | cons f fields => exact ⟨_, _, rfl, rfl, by decide⟩

section parts

variable {layout : Layout}

theorem readsBack_natural {n : Nat} (hn : n < bound) : (natural n).ReadsBack layout := by
  apply readsBack_of_succ
  intro fuel depth rest ends _
  obtain ⟨d, ds, written, digit⟩ := exists_digit_cons n
  rw [write_natural, written, List.cons_append, readValue_digit digit, ← List.cons_append,
    ← written, readNumber_toDigits hn ends]
  rfl

theorem readsBack_string (s : String) : (string s).ReadsBack layout := by
  apply readsBack_of_succ
  intro fuel depth rest _ _
  show readValue _ depth (writeString s rest) = _
  unfold readValue writeString
  rw [skipGap_cons rfl]
  simp only [readString_foldr]
  rfl

theorem readsBack_array {items : List Value} (plain : ∀ v ∈ items, v.Plain)
    (h : ∀ v ∈ items, v.ReadsBack layout) : (array items).ReadsBack layout := by
  apply readsBack_of_succ
  intro fuel depth rest _ hfuel
  cases items with
  | nil => rfl
  | cons v vs =>
    obtain ⟨c, text, written, gap, bracket⟩ := (plain v List.mem_cons_self).exists_cons layout
      (depth + 1) (writeItems layout depth rest vs)
    have shorter := (suffix_lineBreak layout (depth + 1)
      (v.write layout (depth + 1) (writeItems layout depth rest vs))).length_le
    rw [write_array_cons, List.length_cons] at hfuel
    obtain ⟨fuel, rfl⟩ : ∃ n, fuel = n + 1 := ⟨fuel - 1, by omega⟩
    rw [write_array_cons, readValue_array, skipGap_lineBreak, written, skipGap_cons gap,
      ← written, readItems_write plain h _ _ _ (by omega)]
    · rfl
    · intro t close
      rw [skipGap_lineBreak, written, skipGap_cons gap] at close
      cases close
      exact bracket rfl

theorem readsBack_object {fields : List (String × Value)} (plain : ∀ f ∈ fields, f.2.Plain)
    (h : ∀ f ∈ fields, f.2.ReadsBack layout) : (object fields).ReadsBack layout := by
  apply readsBack_of_succ
  intro fuel depth rest _ hfuel
  cases fields with
  | nil => rfl
  | cons f fields =>
    have shorter := (suffix_lineBreak layout (depth + 1) (writeString f.1 (layout.colon
      (f.2.write layout (depth + 1) (writeFields layout depth rest fields))))).length_le
    have quote (text : List Char) : skipGap (writeString f.1 text) = writeString f.1 text :=
      skipGap_cons rfl _
    rw [write_object_cons, List.length_cons] at hfuel
    obtain ⟨fuel, rfl⟩ : ∃ n, fuel = n + 1 := ⟨fuel - 1, by omega⟩
    rw [write_object_cons, readValue_object, skipGap_lineBreak, quote,
      readFields_write plain h _ _ _ (by omega)]
    · rfl
    · intro t close
      rw [skipGap_lineBreak, quote] at close
      cases close

theorem Plain.readsBack {v : Value} (h : v.Plain) : v.ReadsBack layout := by
  induction h with
  | null => exact readsBack_of_succ fun _ _ _ _ _ => rfl
  | bool b =>
    cases b with
    | false => exact readsBack_of_succ fun _ _ _ _ _ => rfl
    | true => exact readsBack_of_succ fun _ _ _ _ _ => rfl
  | natural hn => exact readsBack_natural hn
  | string s => exact readsBack_string s
  | array plain ih => exact readsBack_array plain ih
  | object plain ih => exact readsBack_object plain ih

end parts

/-! ## Values that are nested too deep -/

section nesting

variable {depth : Nat}

theorem clipItems_eq_map (depth : Nat) (vs : List Value) :
    clipItems depth vs = vs.map (clip depth) := by
  induction vs with
  | nil => rfl
  | cons v vs ih => rw [clipItems, ih, List.map_cons]

theorem clipFields_eq_map (depth : Nat) (fields : List (String × Value)) :
    clipFields depth fields = fields.map fun f => (f.1, f.2.clip depth) := by
  induction fields with
  | nil => rfl
  | cons f fields ih => rw [clipFields, ih, List.map_cons]

theorem nestingItems_le_iff {vs : List Value} {n : Nat} :
    nestingItems vs ≤ n ↔ ∀ v ∈ vs, v.nesting ≤ n := by
  induction vs with
  | nil => simp [nestingItems]
  | cons v vs ih => rw [nestingItems, Nat.max_le, ih, List.forall_mem_cons]

theorem nestingFields_le_iff {fields : List (String × Value)} {n : Nat} :
    nestingFields fields ≤ n ↔ ∀ f ∈ fields, f.2.nesting ≤ n := by
  induction fields with
  | nil => simp [nestingFields]
  | cons f fields ih => rw [nestingFields, Nat.max_le, ih, List.forall_mem_cons]

theorem wholeItems_eq_true_iff {vs : List Value} :
    wholeItems vs = true ↔ ∀ v ∈ vs, v.whole = true := by
  induction vs with
  | nil => simp [wholeItems]
  | cons v vs ih => rw [wholeItems, Bool.and_eq_true, ih, List.forall_mem_cons]

theorem wholeFields_eq_true_iff {fields : List (String × Value)} :
    wholeFields fields = true ↔ ∀ f ∈ fields, f.2.whole = true := by
  induction fields with
  | nil => simp [wholeFields]
  | cons f fields ih => rw [wholeFields, Bool.and_eq_true, ih, List.forall_mem_cons]

theorem Plain.whole_eq_true {v : Value} (h : v.Plain) : v.whole = true := by
  induction h with
  | null | bool | natural | string => rfl
  | array _ ih => exact wholeItems_eq_true_iff.mpr ih
  | object _ ih => exact wholeFields_eq_true_iff.mpr ih

/-- A value that is not too deep is read as it is. -/
theorem Plain.clip_eq_self {v : Value} (h : v.Plain) (hv : depth + v.nesting ≤ maxDepth) :
    v.clip depth = v := by
  induction h generalizing depth with
  | null | bool | natural | string => rfl
  | @array items _ ih =>
    rw [nesting] at hv
    have each : ∀ v ∈ items, v.clip (depth + 1) = v := by
      intro v hmem
      apply ih v hmem
      have := nestingItems_le_iff.mp (Nat.le_refl _) v hmem
      omega
    rw [clip, clipItems_eq_map, List.map_congr_left each, List.map_id', contained,
      if_pos (by omega), Option.getD_some]
  | @object fields _ ih =>
    rw [nesting] at hv
    have each : ∀ f ∈ fields, (f.1, f.2.clip (depth + 1)) = f := by
      intro f hmem
      have := nestingFields_le_iff.mp (Nat.le_refl _) f hmem
      rw [ih f hmem (by omega)]
    rw [clip, clipFields_eq_map, List.map_congr_left each, List.map_id', contained,
      if_pos (by omega), Option.getD_some]

theorem exists_lt_nesting_of_items {vs : List Value} {n : Nat} (h : n < nestingItems vs) :
    ∃ v ∈ vs, n < v.nesting := by
  by_contra none
  apply absurd h (Nat.not_lt.mpr (nestingItems_le_iff.mpr _))
  intro v hmem
  exact Nat.le_of_not_lt fun deep => none ⟨v, hmem, deep⟩

theorem exists_lt_nesting_of_fields {fields : List (String × Value)} {n : Nat}
    (h : n < nestingFields fields) : ∃ f ∈ fields, n < f.2.nesting := by
  by_contra none
  apply absurd h (Nat.not_lt.mpr (nestingFields_le_iff.mpr _))
  intro f hmem
  exact Nat.le_of_not_lt fun deep => none ⟨f, hmem, deep⟩

/-- Of a value that is too deep some part is not read. -/
theorem Plain.whole_clip {v : Value} (h : v.Plain) (hdepth : depth ≤ maxDepth)
    (hv : maxDepth < depth + v.nesting) : ¬ (v.clip depth).whole = true := by
  intro parts
  induction h generalizing depth with
  | null | bool | natural | string => exact absurd hv (Nat.not_lt.mpr hdepth)
  | @array items _ ih =>
    rw [nesting] at hv
    rw [clip, contained] at parts
    split at parts
    · obtain ⟨v, hmem, deep⟩ := exists_lt_nesting_of_items
        (show maxDepth - (depth + 1) < nestingItems items by omega)
      apply ih v hmem (show depth + 1 ≤ maxDepth by omega) (by omega)
      apply wholeItems_eq_true_iff.mp parts
      rw [clipItems_eq_map]
      exact List.mem_map_of_mem hmem
    · cases parts
  | @object fields _ ih =>
    rw [nesting] at hv
    rw [clip, contained] at parts
    split at parts
    · obtain ⟨f, hmem, deep⟩ := exists_lt_nesting_of_fields
        (show maxDepth - (depth + 1) < nestingFields fields by omega)
      apply ih f hmem (show depth + 1 ≤ maxDepth by omega) (by omega)
      apply wholeFields_eq_true_iff.mp parts (f.1, f.2.clip (depth + 1))
      rw [clipFields_eq_map]
      exact List.mem_map_of_mem hmem
    · cases parts

end nesting

end Value

/-- A value is read back from its text, in either layout, as far as it is not too deep. -/
theorem read_render {v : Value} (h : v.Plain) (layout : Layout) :
    read (v.render layout) = some (v.clip 0) := by
  have back : v.ReadsBack layout := h.readsBack
  rw [read, Value.render, String.toList_ofList, readChars, back _ 0 [] nofun (by omega)]
  rfl

end Bracketry.Json
