import Mathlib.Data.List.Nodup
import Bracketry.Proofs.Records.Reading
import Bracketry.Record.Choice
import Bracketry.Record.Envelope
import Bracketry.Settings

/-!
# Records are read back

A record that is written, in either layout, and read again is the record that it was, and it is
rejected if its text nests more containers than a reader follows (`records_round_trip`). Behind this
are two halves: what a text says is what was written in it (`Json.read_render`), and what a value
says is the record it was made from, which is proved here for one sort of record after the other.

The records that nest may be too deep, and those fall apart in two ways. A tree, a sketch or an
envelope is only read whole, so it is rejected wherever a part of it is unread. A branch is not, but
it holds nothing deep besides its trees (`Branch.ofValue?_clip`).

The two shapes of an envelope are told apart by their fields. A success has the key of its items,
which no refusal has (`Envelope.success?_refusal`).
-/

namespace Bracketry

open Json (Value Layout)
open Text

namespace Json

/-- A record that is written and read again comes back if its text has less than 128 containers one
within the other, and is rejected otherwise. -/
def RoundTrips (toValue : α → Value) (ofValue? : Value → Option α) (x : α) : Prop :=
  ∀ layout, (read ((toValue x).render layout)).bind ofValue? =
    if (toValue x).nesting < 128 then some x else none

section

variable {toValue : α → Value} {ofValue? : Value → Option α} {x : α}

theorem roundTrips_of (plain : (toValue x).Plain)
    (back : (toValue x).nesting < 128 → ofValue? (toValue x) = some x)
    (deep : Value.maxDepth < (toValue x).nesting → ofValue? ((toValue x).clip 0) = none) :
    RoundTrips toValue ofValue? x := by
  intro layout
  rw [read_render plain, Option.bind_some]
  split
  · next h =>
    rw [plain.clip_eq_self (by rw [Nat.zero_add]; exact Nat.le_of_lt_succ h)]
    exact back h
  · next h => exact deep (Nat.le_of_not_lt h)

/-- For records that are never deep, it is enough that their values are read back. -/
theorem roundTrips_of_shallow (plain : (toValue x).Plain) (shallow : (toValue x).nesting < 128)
    (back : ofValue? (toValue x) = some x) : RoundTrips toValue ofValue? x :=
  roundTrips_of plain (fun _ => back) fun deep => absurd shallow (Nat.not_lt.mpr deep)

/-- Records that are only read whole are rejected where they are too deep. -/
theorem roundTrips_of_whole (plain : (toValue x).Plain)
    (back : (toValue x).nesting < 128 → ofValue? (toValue x) = some x)
    (whole : ∀ v y, ofValue? v = some y → v.whole = true) : RoundTrips toValue ofValue? x := by
  apply roundTrips_of plain back
  intro deep
  rw [Option.eq_none_iff_forall_ne_some]
  intro y hy
  exact plain.whole_clip (Nat.zero_le _) (by rwa [Nat.zero_add]) (whole _ y hy)

end

namespace Value

theorem natural?_natural {n below : Nat} (h : n < below) : (natural n).natural? below = some n :=
  if_pos h

theorem length_filter_name_le {fields : List (String × Value)} (h : (fields.map Prod.fst).Nodup)
    (name : String) : (fields.filter (·.1 == name)).length ≤ 1 := by
  have count := List.nodup_iff_count_le_one.mp h name
  rwa [List.count_eq_countP, List.countP_map, List.countP_eq_length_filter] at count

/-- The members of an object whose names are all different. -/
theorem members?_object {fields : List (String × Value)} (h : (fields.map Prod.fst).Nodup)
    (names : List String) : (object fields).members? names =
      some (names.map fun name => fields.lookup name) := by
  have once : (names.all fun name => (fields.filter (·.1 == name)).length ≤ 1) = true := by
    rw [List.all_eq_true]
    intro name _
    exact decide_eq_true (length_filter_name_le h name)
  rw [members?, if_pos once]

theorem Plain.array_map {toValue : α → Value} {items : List α}
    (h : ∀ x ∈ items, (toValue x).Plain) : (Value.array (items.map toValue)).Plain := by
  apply Plain.array
  intro v hv
  obtain ⟨x, hx, rfl⟩ := List.mem_map.mp hv
  exact h x hx

theorem each?_array {read : Value → Option α} {toValue : α → Value} {items : List α}
    (h : ∀ x ∈ items, read (toValue x) = some x) :
    (array (items.map toValue)).each? read = some items := by
  show (items.map toValue).mapM read = some items
  induction items with
  | nil => rfl
  | cons x items ih =>
    rw [List.map_cons, List.mapM_cons, h x List.mem_cons_self,
      ih fun y hy => h y (List.mem_cons_of_mem x hy)]
    rfl

theorem each?_array_eq_none {read : Value → Option α} {items : List Value} {v : Value}
    (hv : v ∈ items) (h : read v = none) : (array items).each? read = none := by
  show items.mapM read = none
  induction items with
  | nil => cases hv
  | cons w items ih =>
    rw [List.mapM_cons]
    rcases List.mem_cons.mp hv with rfl | hv
    · rw [h]
      rfl
    · rw [ih hv]
      cases read w <;> rfl

end Value

end Json

/-! ## Places and tokens -/

/-- The numbers of a place fit in sixty-four bits. -/
structure Text.Place.InRange (p : Place) : Prop where
  offset : p.offset < Value.bound
  line : p.line < Value.bound
  column : p.column < Value.bound

/-- The numbers of a span fit in sixty-four bits. -/
structure Span.InRange (s : Span) : Prop where
  start : s.start.InRange
  length : s.length < Value.bound

theorem Text.Place.plain_toValue {p : Place} (h : p.InRange) : p.toValue.Plain := by
  apply Value.Plain.object
  simp only [List.forall_mem_cons]
  exact ⟨.natural h.offset, .natural h.line, .natural h.column, nofun⟩

theorem Text.Place.ofValue?_toValue {p : Place} (h : p.InRange) :
    Place.ofValue? p.toValue = some p := by
  have members : p.toValue.members? Place.keys =
      some [some (.natural p.offset), some (.natural p.line), some (.natural p.column)] := rfl
  rw [Place.ofValue?, members]
  simp only [Value.natural?_natural h.offset, Value.natural?_natural h.line,
    Value.natural?_natural h.column]
  rfl

namespace Span

variable {s : Span}

theorem plain_fields (h : s.InRange) : ∀ f ∈ s.fields, f.2.Plain := by
  simp only [fields, List.forall_mem_cons]
  exact ⟨.natural h.start.offset, .natural h.length, .natural h.start.line,
    .natural h.start.column, nofun⟩

theorem ofMembers?_fields (h : s.InRange) :
    ofMembers? (s.fields.map fun f => some f.2) = some s := by
  simp only [fields, List.map_cons, List.map_nil, ofMembers?,
    Value.natural?_natural h.start.offset, Value.natural?_natural h.length,
    Value.natural?_natural h.start.line, Value.natural?_natural h.start.column]
  rfl

end Span

theorem Token.Kind.ofValue?_toValue (k : Kind) (inTree : Bool) :
    ofValue? k.toValue inTree = some k :=
  ofLabel?_label k

namespace Token

variable {t : Token}

theorem plain_fields (h : t.span.InRange) : ∀ f ∈ t.fields, f.2.Plain :=
  List.forall_mem_cons.mpr ⟨.string _, Span.plain_fields h⟩

theorem ofValue?_toValue (h : t.span.InRange) (inTree : Bool) :
    ofValue? t.toValue inTree = some t := by
  have members : t.toValue.members? keys =
      some (some t.kind.toValue :: t.span.fields.map fun f => some f.2) := rfl
  rw [ofValue?, members]
  simp only [Kind.ofValue?_toValue, Span.ofMembers?_fields h]
  rfl

end Token

/-! ## Trees and branches -/

/-- All numbers in a tree fit in sixty-four bits. -/
inductive Tree.InRange : Tree → Prop
  | leaf {t : Token} (h : t.span.InRange) : InRange (.leaf t)
  | list {s : Span} {children : Forest} (hs : s.InRange) (h : ∀ t ∈ children, InRange t) :
    InRange (.list s children)

/-- All numbers in a branch fit in sixty-four bits. -/
structure Branch.InRange (b : Branch) : Prop where
  span : b.span.InRange
  children : ∀ t ∈ b.children, t.InRange

theorem Forest.toValues_eq_map (f : Forest) : Forest.toValues f = f.map Tree.toValue := by
  induction f with
  | nil => rfl
  | cons t ts ih => rw [Forest.toValues, ih, List.map_cons]

theorem Forest.plain_toValues {f : Forest} (h : ∀ t ∈ f, t.toValue.Plain) :
    (Value.array (Forest.toValues f)).Plain := by
  rw [Forest.toValues_eq_map]
  exact Value.Plain.array_map h

theorem Tree.plain_toValue {t : Tree} (h : t.InRange) : t.toValue.Plain := by
  induction h with
  | leaf h => exact .object (List.forall_mem_cons.mpr ⟨.string _, Token.plain_fields h⟩)
  | list hs _ ih =>
    exact .object (List.forall_mem_cons.mpr ⟨.string _,
      List.forall_mem_cons.mpr ⟨Forest.plain_toValues ih, Span.plain_fields hs⟩⟩)

theorem Branch.plain_toValue {b : Branch} (h : b.InRange) : b.toValue.Plain :=
  .object (List.forall_mem_cons.mpr ⟨Forest.plain_toValues fun t ht =>
    Tree.plain_toValue (h.children t ht), Span.plain_fields h.span⟩)

theorem Branch.ofValueWith?_toValue {b : Branch} (h : b.span.InRange) {read : Value → Option Tree}
    (back : ∀ t ∈ b.children, read t.toValue = some t) :
    Branch.ofValueWith? read b.toValue = some b := by
  have members : b.toValue.members? keys = some
      (some (.array (Forest.toValues b.children)) :: b.span.fields.map fun f => some f.2) := rfl
  rw [ofValueWith?, members]
  simp only [Span.ofMembers?_fields h, Forest.toValues_eq_map, Value.each?_array back]
  rfl

theorem Forest.height_le_iff {f : Forest} {n : Nat} :
    Forest.height f ≤ n ↔ ∀ t ∈ f, t.height ≤ n := by
  induction f with
  | nil => simp [Forest.height]
  | cons t ts ih => rw [Forest.height, Nat.max_le, ih, List.forall_mem_cons]

theorem Tree.ofWhole?_toValue {t : Tree} (h : t.InRange) (byNumber : Bool) {depth : Nat}
    (hdepth : t.height < depth) : Tree.ofWhole? depth byNumber t.toValue = some t := by
  obtain ⟨depth, rfl⟩ := Nat.exists_eq_add_one_of_ne_zero (Nat.ne_zero_of_lt hdepth)
  induction h generalizing depth byNumber with
  | @leaf t h =>
    have tagged : (Tree.leaf t).toValue.tagged? = some (.string Shape.leaf.label, t.toValue) := rfl
    have shape : Shape.ofValue? byNumber (.string Shape.leaf.label) = some .leaf := rfl
    rw [ofWhole?, tagged]
    simp only [shape, Token.ofValue?_toValue h, Option.map_some]
  | @list s children hs _ ih =>
    have tagged : (Tree.list s children).toValue.tagged? =
        some (.string Shape.list.label, (Branch.mk s children).toValue) := rfl
    have shape : Shape.ofValue? byNumber (.string Shape.list.label) = some .list := rfl
    have back : ∀ t ∈ children, Tree.ofWhole? depth true t.toValue = some t := by
      intro t ht
      have lower := Forest.height_le_iff.mp (Nat.le_refl _) t ht
      rw [height] at hdepth
      obtain ⟨depth, rfl⟩ : ∃ n, depth = n + 1 := ⟨depth - 1, by omega⟩
      exact ih t ht true depth (by omega)
    rw [ofWhole?, tagged]
    simp only [shape, Branch.ofValueWith?_toValue (b := ⟨s, children⟩) hs back, Option.map_some]
    rfl

mutual

/-- The text of a list has a container for the list and one for what is in it. -/
theorem Tree.height_lt_nesting : ∀ t : Tree, t.height < t.toValue.nesting
  | .leaf t => by
    rw [Tree.height]
    exact Nat.succ_pos _
  | .list s children => by
    have lower := Forest.height_le_nesting children
    have nesting : (Tree.list s children).toValue.nesting =
        max 0 (max (Value.nestingItems (Forest.toValues children) + 1) 0) + 1 := rfl
    rw [Tree.height, nesting]
    omega

theorem Forest.height_le_nesting :
    ∀ f : Forest, Forest.height f ≤ Value.nestingItems (Forest.toValues f)
  | [] => Nat.le_refl 0
  | t :: ts => by
    have first := Tree.height_lt_nesting t
    have others := Forest.height_le_nesting ts
    rw [Forest.height, Forest.toValues, Value.nestingItems]
    omega

end

theorem Tree.ofValue?_toValue {t : Tree} (h : t.InRange) (byNumber : Bool)
    (shallow : t.toValue.nesting < 128) : Tree.ofValue? t.toValue byNumber = some t := by
  have lower := t.height_lt_nesting
  rw [ofValue?, if_pos (plain_toValue h).whole_eq_true]
  exact ofWhole?_toValue h byNumber (show t.height < 127 by omega)

theorem Tree.whole_of_ofValue? {byNumber : Bool} {v : Value} {t : Tree}
    (h : Tree.ofValue? v byNumber = some t) : v.whole = true := by
  rw [ofValue?] at h
  split at h
  · assumption
  · cases h

theorem Branch.nesting_toValue (b : Branch) :
    b.toValue.nesting = Value.nestingItems (Forest.toValues b.children) + 2 := by
  have nesting : b.toValue.nesting =
      max (Value.nestingItems (Forest.toValues b.children) + 1) 0 + 1 := rfl
  rw [nesting, Nat.max_zero]

theorem Branch.ofValue?_toValue {b : Branch} (h : b.InRange) (shallow : b.toValue.nesting < 128) :
    Branch.ofValue? b.toValue = some b := by
  have trees : Value.nestingItems (Forest.toValues b.children) ≤ 127 := by
    rw [nesting_toValue] at shallow
    omega
  apply Branch.ofValueWith?_toValue h.span
  intro t ht
  rw [Value.nestingItems_le_iff, Forest.toValues_eq_map] at trees
  have lower := trees _ (List.mem_map_of_mem ht)
  exact Tree.ofValue?_toValue (h.children t ht) false (Nat.lt_succ_of_le lower)

/-- A branch is not read whole, but each of its trees is. -/
theorem Branch.ofValue?_clip {b : Branch} (h : b.InRange)
    (deep : Value.maxDepth < b.toValue.nesting) : Branch.ofValue? (b.toValue.clip 0) = none := by
  have below : 125 < Value.nestingItems (Forest.toValues b.children) := by
    rw [nesting_toValue] at deep
    exact Nat.lt_of_add_lt_add_right (show 125 + 2 < _ + 2 from deep)
  obtain ⟨v, hv, vdeep⟩ := Value.exists_lt_nesting_of_items below
  have vplain : v.Plain := by
    rw [Forest.toValues_eq_map] at hv
    obtain ⟨t, ht, rfl⟩ := List.mem_map.mp hv
    exact Tree.plain_toValue (h.children t ht)
  have unread : Tree.ofValue? (v.clip 2) = none :=
    if_neg (vplain.whole_clip (by decide) (show 127 < 2 + v.nesting by omega))
  have clipped : v.clip 2 ∈ Value.clipItems 2 (Forest.toValues b.children) := by
    rw [Value.clipItems_eq_map]
    exact List.mem_map_of_mem hv
  have members : (b.toValue.clip 0).members? keys =
      some (some (.array (Value.clipItems 2 (Forest.toValues b.children))) ::
        b.span.fields.map fun f => some f.2) := rfl
  have trees : (Value.array (Value.clipItems 2 (Forest.toValues b.children))).each?
      (fun v => Tree.ofValue? v) = none := Value.each?_array_eq_none clipped unread
  rw [ofValue?, ofValueWith?, members]
  simp only [Span.ofMembers?_fields h.span, trees]
  rfl

/-! ## Sketches -/

theorem Sketch.toValues_eq_map (ss : List Sketch) : Sketch.toValues ss = ss.map Sketch.toValue := by
  induction ss with
  | nil => rfl
  | cons s ss ih => rw [Sketch.toValues, ih, List.map_cons]

mutual

theorem Sketch.plain_toValue : ∀ s : Sketch, s.toValue.Plain
  | .atom text => .string text
  | .list items => .array (Sketch.plain_toValues items)

theorem Sketch.plain_toValues : ∀ ss : List Sketch, ∀ v ∈ Sketch.toValues ss, v.Plain
  | [] => nofun
  | s :: ss => List.forall_mem_cons.mpr ⟨s.plain_toValue, Sketch.plain_toValues ss⟩

end

mutual

theorem Sketch.ofValue?_toValue : ∀ s : Sketch, Sketch.ofValue? s.toValue = some s
  | .atom text => rfl
  | .list items => by
    rw [Sketch.toValue, Sketch.ofValue?, Sketch.ofValues?_toValues items, Option.map_some]

theorem Sketch.ofValues?_toValues :
    ∀ ss : List Sketch, Sketch.ofValues? (Sketch.toValues ss) = some ss
  | [] => rfl
  | s :: ss => by
    rw [Sketch.toValues, Sketch.ofValues?, s.ofValue?_toValue, Sketch.ofValues?_toValues ss]

end

mutual

/-- A sketch says all that is in its value, so that nothing is unread. -/
theorem Sketch.whole_of_ofValue? :
    ∀ (v : Value) (s : Sketch), Sketch.ofValue? v = some s → v.whole = true
  | .null, _, _ | .bool _, _, _ | .natural _, _, _ | .number _, _, _ | .string _, _, _ => rfl
  | .array items, s, h => by
    rw [Sketch.ofValue?, Option.map_eq_some_iff] at h
    obtain ⟨ss, hss, -⟩ := h
    exact Sketch.whole_of_ofValues? items ss hss
  | .object _, _, h | .unread, _, h => by cases h

theorem Sketch.whole_of_ofValues? : ∀ (vs : List Value) (ss : List Sketch),
    Sketch.ofValues? vs = some ss → Value.wholeItems vs = true
  | [], _, _ => rfl
  | v :: vs, ss, h => by
    rw [Sketch.ofValues?] at h
    split at h
    · next s ss' hs hss =>
      rw [Value.wholeItems, Sketch.whole_of_ofValue? v s hs, Sketch.whole_of_ofValues? vs ss' hss]
      rfl
    · cases h

end

/-! ## Choices and settings -/

theorem Keep.Trivia.plain_toValue (k : Keep.Trivia) : k.toValue.Plain :=
  .object (List.forall_mem_cons.mpr ⟨.bool _, List.forall_mem_cons.mpr ⟨.bool _, nofun⟩⟩)

theorem Keep.plain_toValue (k : Keep) : k.toValue.Plain :=
  .object (List.forall_mem_cons.mpr ⟨.bool _, List.forall_mem_cons.mpr ⟨.bool _,
    List.forall_mem_cons.mpr ⟨.bool _, nofun⟩⟩⟩)

namespace Settings

theorem plain_toValue (s : Settings) : s.toValue.Plain := by
  have extensions : (Value.array (s.extensions.map .string)).Plain :=
    Value.Plain.array_map fun text _ => .string text
  exact .object (List.forall_mem_cons.mpr ⟨extensions,
    List.forall_mem_cons.mpr ⟨s.keep.plain_toValue, nofun⟩⟩)

theorem nesting_toValue (s : Settings) : s.toValue.nesting < 128 := by
  have flat : Value.nestingItems (s.extensions.map Value.string) ≤ 0 := by
    rw [Value.nestingItems_le_iff]
    intro v hv
    obtain ⟨text, -, rfl⟩ := List.mem_map.mp hv
    exact Nat.le_refl 0
  have nesting : s.toValue.nesting =
      max (Value.nestingItems (s.extensions.map Value.string) + 1) (max 1 0) + 1 := rfl
  omega

theorem ofValue?_toValue (s : Settings) : ofValue? s.toValue = some s := by
  have members : s.toValue.members? keys =
      some [some (.array (s.extensions.map .string)), some s.keep.toValue] := rfl
  have extensions : (Value.array (s.extensions.map .string)).each? Value.string? =
      some s.extensions := Value.each?_array fun _ _ => rfl
  have keep : Keep.ofValue? s.keep.toValue = some s.keep := rfl
  rw [ofValue?, members]
  simp only [extensions, keep]
  rfl

end Settings

/-! ## Refusals and envelopes -/

/-- The numbers of a refusal fit: its code in thirty-two bits, its level in sixty-four. -/
structure Refusal.InRange (r : Refusal) : Prop where
  code : r.code < Refusal.codeBound
  level : ∀ n ∈ r.level, n < Value.bound

namespace Refusal

variable {r : Refusal}

theorem plain_fields (h : r.InRange) : ∀ f ∈ r.fields, f.2.Plain := by
  obtain ⟨code, message, level⟩ := r
  have hcode : code < Value.bound := Nat.lt_trans h.code (by decide)
  cases level with
  | none =>
    exact List.forall_mem_cons.mpr ⟨.natural hcode, List.forall_mem_cons.mpr ⟨.string _, nofun⟩⟩
  | some n =>
    have data : (Value.object [("nesting_level", .natural n)]).Plain :=
      .object (List.forall_mem_cons.mpr ⟨.natural (h.level n rfl), nofun⟩)
    exact List.forall_mem_cons.mpr ⟨.natural hcode, List.forall_mem_cons.mpr ⟨.string _,
      List.forall_mem_cons.mpr ⟨data, nofun⟩⟩⟩

theorem nesting_fields (r : Refusal) : Value.nestingFields r.fields ≤ 1 := by
  rw [Value.nestingFields_le_iff]
  obtain ⟨code, message, level⟩ := r
  cases level with
  | none =>
    exact List.forall_mem_cons.mpr ⟨Nat.zero_le _, List.forall_mem_cons.mpr ⟨Nat.zero_le _, nofun⟩⟩
  | some n =>
    exact List.forall_mem_cons.mpr ⟨Nat.zero_le _, List.forall_mem_cons.mpr ⟨Nat.zero_le _,
      List.forall_mem_cons.mpr ⟨Nat.le_refl 1, nofun⟩⟩⟩

theorem names_sublist (r : Refusal) : (r.fields.map Prod.fst).Sublist keys := by
  obtain ⟨code, message, level⟩ := r
  cases level with
  | none =>
    show ["error_code", "error_message"].Sublist keys
    decide
  | some n => exact List.Sublist.refl keys

/-- The members of a refusal, as they are written. -/
def members (r : Refusal) : List (Option Value) :=
  [some (.natural r.code), some (.string r.message),
    r.level.map fun n => .object [("nesting_level", .natural n)]]

theorem members?_fields (r : Refusal) : r.toValue.members? keys = some r.members := by
  obtain ⟨code, message, level⟩ := r
  cases level with
  | none => rfl
  | some n => rfl

/-- The flag of an envelope is no member of the refusal in it. -/
theorem members?_cons (r : Refusal) (ok : Bool) :
    (Value.object (("ok", .bool ok) :: r.fields)).members? keys = some r.members := by
  obtain ⟨code, message, level⟩ := r
  cases level with
  | none => rfl
  | some n => rfl

theorem ofValue?_of_members {v : Value} (h : r.InRange) (hv : v.members? keys = some r.members) :
    ofValue? v = some r := by
  have level : level? (r.level.map fun n => .object [("nesting_level", .natural n)]) =
      some r.level := by
    cases hlevel : r.level with
    | none => rfl
    | some n =>
      have number := Value.natural?_natural (h.level n hlevel)
      have single : (Value.object [("nesting_level", .natural n)]).members? ["nesting_level"] =
          some [some (.natural n)] := rfl
      rw [Option.map_some, level?]
      · simp only [single, number, Option.map_some]
      · nofun
  rw [ofValue?, hv, members]
  simp only [Value.natural?_natural h.code, level]
  rfl

end Refusal

/-- How the items of an envelope are written is right for items that satisfy `P`: they are written
as plain values and read back unless they are too deep, and their name is no field of a refusal. -/
structure Envelope.Format.Lawful (f : Format α) (P : α → Prop) : Prop where
  key : f.key ∉ "ok" :: Refusal.keys
  plain : ∀ x, P x → (f.toValue x).Plain
  back : ∀ x, P x → (f.toValue x).nesting < 128 → f.ofValue? (f.toValue x) = some x

namespace Envelope

/-- All numbers of an envelope are in range, where `P` says so of an item. -/
inductive InRange (P : α → Prop) : Envelope α → Prop
  | success {ok : Bool} {items : List α} (h : ∀ x ∈ items, P x) : InRange P (.success ok items)
  | refusal {ok : Bool} {r : Refusal} (h : r.InRange) : InRange P (.refusal ok r)

variable {f : Format α} {P : α → Prop} {e : Envelope α}

theorem plain_toValue (lawful : f.Lawful P) (h : e.InRange P) : (e.toValue f).Plain := by
  cases h with
  | @success ok items h =>
    have all : (Value.array (items.map f.toValue)).Plain :=
      Value.Plain.array_map fun x hx => lawful.plain x (h x hx)
    exact .object (List.forall_mem_cons.mpr ⟨.bool _, List.forall_mem_cons.mpr ⟨all, nofun⟩⟩)
  | refusal h => exact .object (List.forall_mem_cons.mpr ⟨.bool _, Refusal.plain_fields h⟩)

theorem success?_toValue (lawful : f.Lawful P) {ok : Bool} {items : List α} (h : ∀ x ∈ items, P x)
    (shallow : ((success ok items).toValue f).nesting < 128) :
    success? f ((success ok items).toValue f) = some (success ok items) := by
  have other : f.key ≠ "ok" := List.ne_of_not_mem_cons lawful.key
  have nodup : ([("ok", .bool ok), (f.key, .array (items.map f.toValue))].map
      (Prod.fst : String × Value → String)).Nodup := by
    simpa using other.symm
  have members : ((success ok items).toValue f).members? ["ok", f.key] =
      some [some (.bool ok), some (.array (items.map f.toValue))] := by
    rw [toValue, Value.members?_object nodup]
    simp [List.lookup_cons, beq_eq_false_iff_ne.mpr other]
  have nesting : ((success ok items).toValue f).nesting =
      max 0 (max (Value.nestingItems (items.map f.toValue) + 1) 0) + 1 := rfl
  have back : ∀ x ∈ items, f.ofValue? (f.toValue x) = some x := by
    intro x hx
    have lower : (f.toValue x).nesting ≤ Value.nestingItems (items.map f.toValue) :=
      Value.nestingItems_le_iff.mp (Nat.le_refl _) _ (List.mem_map_of_mem hx)
    exact lawful.back x (h x hx) (by omega)
  rw [success?, members]
  simp only [Value.each?_array back]
  rfl

/-- A refusal has no items. -/
theorem success?_refusal (lawful : f.Lawful P) (ok : Bool) (r : Refusal) :
    success? f ((refusal ok r).toValue f) = none := by
  have names : ((("ok", Value.bool ok) :: r.fields).map Prod.fst).Sublist ("ok" :: Refusal.keys) :=
    r.names_sublist.cons_cons "ok"
  have nodup := List.Nodup.sublist names (by decide)
  have absent : (("ok", Value.bool ok) :: r.fields).lookup f.key = none := by
    rw [List.lookup_eq_none_iff]
    intro p hp
    rw [bne_iff_ne]
    intro same
    apply lawful.key
    rw [same]
    exact names.subset (List.mem_map_of_mem hp)
  rw [success?, toValue, Value.members?_object nodup]
  simp only [List.map_cons, List.map_nil, absent]
  split
  · next heq => cases heq
  · rfl

theorem refusal?_refusal {r : Refusal} (h : r.InRange) (ok : Bool) :
    refusal? ((refusal ok r).toValue f) = some (refusal ok r : Envelope α) := by
  have members : ((refusal ok r).toValue f).members? ["ok"] = some [some (.bool ok)] := by
    obtain ⟨code, message, level⟩ := r
    cases level with
    | none => rfl
    | some n => rfl
  rw [refusal?, members, toValue]
  simp only [Refusal.ofValue?_of_members h (r.members?_cons ok)]
  rfl

/-- An envelope of either shape, in range, is read back unless it is too deep. -/
theorem roundTrips (lawful : f.Lawful P) (h : e.InRange P) :
    Json.RoundTrips (toValue f) (ofValue? f) e := by
  have plain := plain_toValue lawful h
  have tried : ofValue? f (e.toValue f) =
      (success? f (e.toValue f)).or (refusal? (e.toValue f)) := by
    cases e with
    | success ok items => exact if_pos plain.whole_eq_true
    | refusal ok r => exact if_pos plain.whole_eq_true
  apply Json.roundTrips_of_whole plain
  · intro shallow
    rw [tried]
    cases h with
    | success h => rw [success?_toValue lawful h shallow, Option.some_or]
    | @refusal ok r h => rw [success?_refusal lawful ok r, Option.none_or, refusal?_refusal h]
  · intro v e h
    unfold ofValue? at h
    split at h
    · split at h
      · assumption
      · cases h
    · cases h

end Envelope

theorem Token.lawful_format : Token.format.Lawful (·.span.InRange) where
  key := by decide
  plain _ h := .object (plain_fields h)
  back _ h _ := ofValue?_toValue h false

theorem Tree.lawful_format : Tree.format.Lawful Tree.InRange where
  key := by decide
  plain _ h := plain_toValue h
  back _ h shallow := ofValue?_toValue h true shallow

/-! ## All records -/

/-- **All records are read back.** What is written of a record, compact or indented, says that
record and no other if fewer than 128 containers are nested in it, and is rejected otherwise.
Numbers are those that fit in sixty-four bits, or thirty-two for the code of a refusal; texts and
flags may be any. -/
theorem records_round_trip :
    (∀ t : Token, t.span.InRange → Json.RoundTrips Token.toValue (Token.ofValue? ·) t) ∧
    (∀ b : Branch, b.InRange → Json.RoundTrips Branch.toValue Branch.ofValue? b) ∧
    (∀ t : Tree, t.InRange → Json.RoundTrips Tree.toValue (Tree.ofValue? ·) t) ∧
    (∀ s : Sketch, Json.RoundTrips Sketch.toValue Sketch.ofValue? s) ∧
    (∀ r : Refusal, r.InRange → Json.RoundTrips Refusal.toValue Refusal.ofValue? r) ∧
    (∀ e : Envelope Token, e.InRange (·.span.InRange) →
      Json.RoundTrips (·.toValue Token.format) (Envelope.ofValue? Token.format) e) ∧
    (∀ e : Envelope Tree, e.InRange Tree.InRange →
      Json.RoundTrips (·.toValue Tree.format) (Envelope.ofValue? Tree.format) e) ∧
    (∀ p : Place, p.InRange → Json.RoundTrips Place.toValue Place.ofValue? p) ∧
    (∀ k : Keep, Json.RoundTrips Keep.toValue Keep.ofValue? k) ∧
    (∀ k : Keep.Trivia, Json.RoundTrips Keep.Trivia.toValue Keep.Trivia.ofValue? k) ∧
    ∀ s : Settings, Json.RoundTrips Settings.toValue Settings.ofValue? s := by
  refine ⟨?_, ?_, ?_, ?_, ?_, ?_, ?_, ?_, ?_, ?_, ?_⟩
  · intro t h
    exact Json.roundTrips_of_shallow (.object (Token.plain_fields h))
      (show 1 < 128 by decide) (Token.ofValue?_toValue h false)
  · intro b h
    exact Json.roundTrips_of (Branch.plain_toValue h) (Branch.ofValue?_toValue h)
      (Branch.ofValue?_clip h)
  · intro t h
    exact Json.roundTrips_of_whole (Tree.plain_toValue h) (Tree.ofValue?_toValue h false)
      fun _ _ => Tree.whole_of_ofValue?
  · intro s
    exact Json.roundTrips_of_whole s.plain_toValue (fun _ => s.ofValue?_toValue)
      Sketch.whole_of_ofValue?
  · intro r h
    have shallow : Value.nestingFields r.fields + 1 < 128 := by
      have := r.nesting_fields
      omega
    exact Json.roundTrips_of_shallow (.object (Refusal.plain_fields h)) shallow
      (Refusal.ofValue?_of_members h r.members?_fields)
  · exact fun e => Envelope.roundTrips Token.lawful_format
  · exact fun e => Envelope.roundTrips Tree.lawful_format
  · intro p h
    exact Json.roundTrips_of_shallow (Text.Place.plain_toValue h)
      (show 1 < 128 by decide) (Text.Place.ofValue?_toValue h)
  · intro k
    exact Json.roundTrips_of_shallow k.plain_toValue (show 1 < 128 by decide) rfl
  · intro k
    exact Json.roundTrips_of_shallow k.plain_toValue (show 1 < 128 by decide) rfl
  · intro s
    exact Json.roundTrips_of_shallow s.plain_toValue s.nesting_toValue s.ofValue?_toValue

/-- The word and the list of `(a)`, a refusal and two answers come back. So do 127 lists, each in
the next, but not 128. -/
theorem records_round_trip_nested :
    let word : Token := ⟨.word, ⟨⟨⟨0, 1⟩, 1⟩, 1⟩⟩
    let branch : Branch := ⟨⟨⟨⟨0, 0⟩, 0⟩, 3⟩, [.leaf word]⟩
    let refusal : Refusal := ⟨3, "\t\"é", some 2⟩
    let lists (n : Nat) : Sketch := Nat.repeat (fun s => .list [s]) n (.list [])
    (Json.read (word.toValue.render .compact)).bind (Token.ofValue? ·) = some word ∧
    (Json.read (branch.toValue.render .indented)).bind Branch.ofValue? = some branch ∧
    (Json.read ((Tree.ofBranch branch).toValue.render .compact)).bind (Tree.ofValue? ·) =
      some (.ofBranch branch) ∧
    (Json.read ((lists 126).toValue.render .indented)).bind Sketch.ofValue? = some (lists 126) ∧
    (Json.read ((lists 127).toValue.render .compact)).bind Sketch.ofValue? = none ∧
    (Json.read (refusal.toValue.render .indented)).bind Refusal.ofValue? = some refusal ∧
    (Json.read (((Envelope.refusal true refusal).toValue Token.format).render .compact)).bind
      (Envelope.ofValue? Token.format) = some (.refusal true refusal) ∧
    (Json.read (((Envelope.success true [.ofBranch branch]).toValue Tree.format).render
      .indented)).bind (Envelope.ofValue? Tree.format) = some (.success true [.ofBranch branch]) ∧
    (Json.read (word.span.start.toValue.render .compact)).bind Place.ofValue? =
      some word.span.start := by
  intro word branch refusal lists
  have place : word.span.start.InRange := ⟨by decide, by decide, by decide⟩
  have span : word.span.InRange := ⟨place, by decide⟩
  have tree : (Tree.ofBranch branch).InRange := by
    apply Tree.InRange.list ⟨⟨by decide, by decide, by decide⟩, by decide⟩
    exact List.forall_mem_singleton.mpr (.leaf span)
  have children : branch.InRange := by
    cases tree with
    | list span children => exact ⟨span, children⟩
  have level : refusal.InRange := by
    refine ⟨by decide, ?_⟩
    intro n hn
    cases hn
    decide
  obtain ⟨tokens, branches, trees, sketches, refusals, answers, parses, places, -⟩ :=
    records_round_trip
  refine ⟨?_, ?_, ?_, ?_, ?_, ?_, ?_, ?_, ?_⟩
  · exact (tokens word span .compact).trans (if_pos (by decide))
  · exact (branches branch children .indented).trans (if_pos (by decide))
  · exact (trees _ tree .compact).trans (if_pos (by decide))
  · exact (sketches (lists 126) .indented).trans (if_pos (by decide +kernel))
  · exact (sketches (lists 127) .compact).trans (if_neg (by decide +kernel))
  · exact (refusals refusal level .indented).trans (if_pos (by decide))
  · exact (answers _ (.refusal level) .compact).trans (if_pos (by decide))
  · have items : ∀ t ∈ [Tree.ofBranch branch], t.InRange := List.forall_mem_singleton.mpr tree
    exact (parses _ (.success items) .indented).trans (if_pos (by decide))
  · exact (places _ place .compact).trans (if_pos (by decide))

end Bracketry
